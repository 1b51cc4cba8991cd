import Avault.Agent.Rejected

/-! How long a grant lives, and the nonces with it. -/
namespace Avault.Agent
open Foundation Crypto

/-- The grant is published by this call. -/
def Publication (op : AgentOp) (r : op.Reply) (g : GrantKey) (grant : GrantEntry)
    (nonces : List (Bytes × Instant)) : Prop :=
  (⟨op,r⟩ : (op : AgentOp) × op.Reply) = ⟨.publishGrant g grant nonces,.ok ()⟩

/-- A grant of this id is published. -/
def Republishes (op : AgentOp) (r : op.Reply) (g : GrantKey) : Prop :=
  ∃ grant nonces, Publication op r g grant nonces

theorem Publication.moves {op : AgentOp} {r : op.Reply} {g : GrantKey} {grant : GrantEntry}
    {nonces : List (Bytes × Instant)} (h : Publication op r g grant nonces) : Moves op r := by
  cases h
  exact trivial

section Effect

variable {s t : AgentState} {n₀ n : Instant} {op : AgentOp} {r : op.Reply} {g : GrantKey}

/-- Where no grant of this id is published, one that is there was live there when it was purged. -/
theorem StateEffect.shrinks (h : StateEffect s n₀ n t op r) (hn : n₀ ≤ n) (hother : ¬ Republishes op r g) :
    t = s ∨ ∃ n₁, n₀ ≤ n₁ ∧ n₁ ≤ n ∧ ∀ grant, t.grants g = some grant → (s.purge n₁).grants g = some grant := by
  cases h with
  | neutral | looked => exact .inl rfl
  | @published scope entry nonces n₁ hn₁ hn =>
    have hscope : g ≠ scope := fun heq => hother ⟨entry,nonces,heq ▸ rfl⟩
    exact .inr ⟨n₁,hn₁,hn,fun grant hgrant => (Function.update_of_ne hscope _ _).symm.trans hgrant⟩
  | @released scope entry n₁ n₂ hn₁ hn₂ hn =>
    refine .inr ⟨n₁,hn₁,hn₂.trans hn,fun grant hgrant => ?_⟩
    have hkept : Function.update (s.purge n₁).grants scope none g = some grant :=
      (AgentState.purge_grants_eq_some.mp hgrant).1
    by_cases hscope : g = scope
    · subst hscope
      rw [Function.update_self] at hkept
      cases hkept
    · exact (Function.update_of_ne hscope _ _).symm.trans hkept
  | rejected hn₁ hn | missed hn₁ hn | active hn₁ hn => exact .inr ⟨_,hn₁,hn,fun _ => id⟩
  | purged => exact .inr ⟨n,hn,Nat.le_refl n,fun _ => id⟩

/-- A grant that is there was there before, or is published. -/
theorem StateEffect.origin {grant : GrantEntry} (h : StateEffect s n₀ n t op r) (hn : n₀ ≤ n)
    (hgrant : t.grants g = some grant) :
    s.grants g = some grant ∧ ¬ Republishes op r g ∨ ∃ nonces, Publication op r g grant nonces := by
  by_cases hother : Republishes op r g
  · obtain ⟨entry,nonces,hpublication⟩ := hother
    cases hpublication
    cases h with
    | neutral h => exact h.elim
    | published =>
      have hentry : some entry = some grant := (Function.update_self g _ _).symm.trans hgrant
      exact .inr ⟨nonces,Option.some.inj hentry ▸ rfl⟩
  · refine .inl ⟨?_,hother⟩
    obtain rfl | ⟨n₁,_,_,hkept⟩ := h.shrinks hn hother
    · exact hgrant
    · exact (AgentState.purge_grants_eq_some.mp (hkept grant hgrant)).1

/-- A grant that is dead stays dead, whatever the activity on other grants. -/
theorem StateEffect.dead (h : StateEffect s n₀ n t op r) (hn : n₀ ≤ n) (hdead : s.Dead g n₀)
    (hother : ¬ Republishes op r g) : t.Dead g n := by
  obtain rfl | ⟨n₁,hn₁,_,hkept⟩ := h.shrinks hn hother
  · exact hdead.mono hn
  · have hnone := AgentState.purge_grants_eq_none.mpr (hdead.mono hn₁)
    exact .inr fun grant hgrant => absurd (hkept grant hgrant) (hnone ▸ nofun)

/-- A nonce is in use until its deadline. -/
def InUse (s : AgentState) (nonce : Bytes × Instant) (n : Instant) : Prop :=
  s.usedGrantNonces nonce.1 = some nonce.2 ∨ nonce.2 ≤ n

theorem InUse.purge {nonce : Bytes × Instant} {n₁ : Instant} (huse : InUse s nonce n₀) (hn₁ : n₀ ≤ n₁) :
    InUse (s.purge n₁) nonce n₁ := by
  by_cases hlive : n₁ < nonce.2
  · refine .inl (AgentState.purge_used_eq_some.mpr ⟨huse.resolve_right fun hpast => ?_,hlive⟩)
    exact Nat.not_le.mpr hlive (hpast.trans hn₁)
  · exact .inr (not_lt.mp hlive)

theorem InUse.mono {nonce : Bytes × Instant} (huse : InUse s nonce n₀) (hn : n₀ ≤ n) : InUse s nonce n :=
  huse.imp id fun hpast => hpast.trans hn

theorem StateEffect.inUse {nonce : Bytes × Instant} (h : StateEffect s n₀ n t op r) (hn : n₀ ≤ n)
    (huse : InUse s nonce n₀) : InUse t nonce n := by
  cases h with
  | neutral | looked => exact huse.mono hn
  | published hn₁ hn _ hunused =>
    obtain hused | hpast := huse.purge hn₁
    · refine .inl ((extend_of_not_mem fun hmem => ?_).trans hused)
      obtain ⟨other,hother,heq⟩ := List.mem_map.mp hmem
      have hnone := hunused other hother
      rw [heq,hused] at hnone
      cases hnone
    · exact .inr (hpast.trans hn)
  | @released scope _ n₁ n₂ hn₁ hn₂ hn =>
    have hpurged : InUse ({ s.purge n₁ with grants := Function.update (s.purge n₁).grants scope none }.purge n₂)
        nonce n₂ := InUse.purge (huse.purge hn₁) hn₂
    exact hpurged.mono hn
  | rejected hn₁ hn | missed hn₁ hn => exact (huse.purge hn₁).mono hn
  | @active n₁ hn₁ hn =>
    have hpurged : InUse (s.purge n₁) nonce n₁ := huse.purge hn₁
    exact hpurged.mono hn
  | purged => exact huse.purge hn

theorem StateEffect.nonceKept {grant : GrantEntry} {nonces : List (Bytes × Instant)} {nonce : Bytes × Instant}
    (h : StateEffect s n₀ n t op r) (hpublication : Publication op r g grant nonces)
    (hnodup : (nonces.map Prod.fst).Nodup) (hnonce : nonce ∈ nonces) : InUse t nonce n := by
  cases hpublication
  cases h with
  | neutral h => exact h.elim
  | published => exact .inl (extend_of_mem hnodup hnonce)

theorem StateEffect.unused {grant : GrantEntry} {nonces : List (Bytes × Instant)}
    (h : StateEffect s n₀ n t op r) (hpublication : Publication op r g grant nonces) :
    ∃ n₁, n₀ ≤ n₁ ∧ n₁ ≤ n ∧ n < grant.expiresAt ∧
      ∀ nonce ∈ nonces, (s.purge n₁).usedGrantNonces nonce.1 = none := by
  cases hpublication
  cases h with
  | neutral h => exact h.elim
  | published hn₁ hn hlive hunused => exact ⟨_,hn₁,hn,hlive,hunused⟩

theorem StateEffect.idleTimeout (h : StateEffect s n₀ n t op r) : t.idleTimeout = s.idleTimeout := by
  cases h <;> rfl

theorem StateEffect.lastActivity (h : StateEffect s n₀ n t op r) (hmoves : Moves op r) : t.lastActivity = n := by
  cases h with
  | neutral h => exact absurd hmoves h.quiet
  | published | released | active => rfl
  | rejected | purged | looked => exact hmoves.elim
  | missed => cases hmoves

end Effect

section Runs

variable {P : Type} [DecidableEq P] {E : AgentEnv} {tasks : P → AgentTask} {idleTimeout : Duration}
  {now : Instant} {events before after : List (AgentEvent P)} {d : AgentConfig P} {ev pub : AgentEvent P}
  {g : GrantKey} {grant : GrantEntry} {nonces : List (Bytes × Instant)}

/-- What is published has been prepared by a grant request. -/
theorem AgentRun.prepared (hrun : AgentRun E tasks idleTimeout now events d) (hpub : pub ∈ events)
    (hpublication : Publication pub.op pub.reply g grant nonces) :
    ∃ frame request, tasks pub.process = .frame frame ∧ E.parseRequest frame = .ok (.grant request) ∧
      GrantPrepared E request g grant nonces pub.history := by
  have hguard := hrun.guard pub hpub
  obtain ⟨process,history,op,reply,s,t⟩ := pub
  cases hpublication
  change TaskGuard E (tasks process) history _ at hguard
  cases htask : tasks process with
  | purge =>
    rw [htask] at hguard
    obtain h | h := hguard <;> cases h
  | frame frame =>
    rw [htask] at hguard
    cases hguard with
    | prepare _ hprepare => exact hprepare.elim
    | @commit request prepared hparsed hprepared _ hcommit =>
      cases hprepared with
      | grant hgrant =>
        cases hcommit
        exact ⟨frame,_,rfl,hparsed,hgrant⟩
      | _ => cases hcommit
    | @finish _ prepared _ _ _ _ hfinish => cases prepared <;> simp [FinishCall] at hfinish

/-- A grant that is there is the one published last under its id. -/
theorem AgentRun.origin (hrun : AgentRun E tasks idleTimeout now events d)
    (hgrant : d.state.state.grants g = some grant) : ∃ before pub after nonces, events = before ++ pub::after ∧
      Publication pub.op pub.reply g grant nonces ∧ ∀ e ∈ after, ¬ Republishes e.op e.reply g := by
  induction hrun with
  | nil => cases hgrant
  | @snoc events d i op next r t _ _ hstep ih =>
    obtain ⟨hn,heffect⟩ := hstep.effect
    obtain ⟨hgrant,hother⟩ | ⟨nonces,hpublication⟩ := heffect.origin hn hgrant
    · obtain ⟨before,pub,after,nonces,rfl,hpublication,hlast⟩ := ih hgrant
      refine ⟨before,pub,after ++ [_],nonces,List.append_assoc .., hpublication,fun e he => ?_⟩
      obtain he | he := List.mem_append.mp he
      · exact hlast e he
      · exact List.mem_singleton.mp he ▸ hother
    · exact ⟨events,_,[],nonces,rfl,hpublication,fun _ he => (List.not_mem_nil he).elim⟩

/-- The nonces of a published grant are in use until their deadlines. -/
theorem AgentRun.inUse (hrun : AgentRun E tasks idleTimeout now events d) (hevents : events = before ++ pub::after)
    (hpublication : Publication pub.op pub.reply g grant nonces) {nonce : Bytes × Instant}
    (hnonce : nonce ∈ nonces) : InUse d.state.state nonce d.state.now := by
  have hpub : pub ∈ events := hevents ▸ List.mem_append_right before (List.mem_cons_self ..)
  obtain ⟨_,_,_,_,hprepared⟩ := hrun.prepared hpub hpublication
  have hkept := (Run.step hrun pub hpub).effect.2.nonceKept hpublication hprepared.nodup hnonce
  exact Run.after_event (I := fun w : AgentWorld => InUse w.state nonce w.now) hrun hevents hkept
    fun e _ hstep huse => hstep.effect.2.inUse hstep.effect.1 huse

theorem AgentRun.dead (hrun : AgentRun E tasks idleTimeout now events d) (hevents : events = before ++ ev::after)
    (hdead : ev.after.state.Dead g ev.after.now) (hothers : ∀ e ∈ after, ¬ Republishes e.op e.reply g) :
    d.state.state.Dead g d.state.now :=
  Run.after_event (I := fun w : AgentWorld => w.state.Dead g w.now) hrun hevents hdead
    fun e he hstep hdead => hstep.effect.2.dead hstep.effect.1 hdead (hothers e he)

theorem AgentRun.idleTimeout_eq (hrun : AgentRun E tasks idleTimeout now events d) :
    d.state.state.idleTimeout = idleTimeout := by
  induction hrun with
  | nil => rfl
  | snoc _ _ hstep ih => exact hstep.effect.2.idleTimeout.trans ih

/-- The idle clock stands at the last activity. -/
theorem AgentRun.lastActivity (hrun : AgentRun E tasks idleTimeout now events d) :
    (∃ before act after, events = before ++ act::after ∧ Moves act.op act.reply ∧
      (∀ e ∈ after, ¬ Moves e.op e.reply) ∧ d.state.state.lastActivity = act.after.now) ∨
    ∀ e ∈ events, ¬ Moves e.op e.reply := by
  induction hrun with
  | nil => exact .inr fun _ he => (List.not_mem_nil he).elim
  | @snoc events d i op next r t _ _ hstep ih =>
    have heffect := hstep.effect.2
    by_cases hmoves : Moves op r
    · exact .inl ⟨events,_,[],rfl,hmoves,fun _ he => (List.not_mem_nil he).elim,
        heffect.lastActivity hmoves⟩
    · have hlast {l : List (AgentEvent P)} (hl : ∀ e ∈ l, ¬ Moves e.op e.reply) :
          ∀ e ∈ l ++ [⟨i,(d.process i).history,op,r,d.state,t⟩], ¬ Moves e.op e.reply := by
        intro e he
        obtain he | he := List.mem_append.mp he
        · exact hl e he
        · exact List.mem_singleton.mp he ▸ hmoves
      obtain ⟨before,act,after,rfl,hact,hquiet,hlastActivity⟩ | hquiet := ih
      · exact .inl ⟨before,act,after ++ [_],List.append_assoc ..,hact,hlast hquiet,
          (heffect.onlyExpires hmoves).lastActivity.trans hlastActivity⟩
      · exact .inr (hlast hquiet)

/-- The deadline of an approval is early by the time between the two readings that date it. -/
theorem AgentRun.deadline (hrun : AgentRun E tasks idleTimeout now events d) (hev : ev ∈ events)
    {expiresAtUnix : UInt64} {deadline t : Instant} {wall : SystemTime}
    (hstamp : Stamp ev.history expiresAtUnix deadline t wall) :
    ∃ lag : ℕ, (t : ℤ)+lag = wall-E.wallOffset ∧
      (deadline : ℤ)+lag+E.wallOffset = fromSecs expiresAtUnix.toNat := by
  obtain ⟨⟨earlier,hread⟩,hremaining,hdeadline⟩ := hstamp
  have hhistory := (List.suffix_cons _ ev.history).trans (Run.history_of_event hrun ev hev)
  have hordered := (hrun.timed ev.process).1.sublist ((hread.trans hhistory).filterMap (reading E)).sublist
  have hlag : (t : ℤ) ≤ wall-E.wallOffset := (List.pairwise_cons.mp hordered).1 _ (List.mem_cons_self ..)
  obtain ⟨lag,hlag⟩ := Int.eq_ofNat_of_zero_le (sub_nonneg.mpr hlag)
  refine ⟨lag,?_,?_⟩
  · rw [← hlag,add_sub_cancel]
  · rw [hdeadline,← hlag]
    ring

/-- The grant was found live at the time of the look. -/
structure Snapshot (E : AgentEnv) (tasks : P → AgentTask) (idleTimeout : Duration)
    (earlier : List (AgentEvent P)) (look pub : AgentEvent P) (g : GrantKey) (grant : GrantEntry)
    (request : AgentGrantRequest) : Prop where
  /-- It is as the last publication under its id left it. -/
  published : ∃ before after nonces, earlier = before ++ pub::after ∧
    Publication pub.op pub.reply g grant nonces ∧ (∀ e ∈ after, ¬ Republishes e.op e.reply g) ∧
    GrantPrepared E request g grant nonces pub.history
  requested : ∃ frame, tasks pub.process = .frame frame ∧ E.parseRequest frame = .ok (.grant request)
  ttl : ∃ start, [⟨.instantNow,start⟩] <:+ pub.history ∧ look.after.now < start+fromSecs request.ttl.toNat
  approvals : ∀ dek ∈ request.deks, ∃ approval deadline t wall,
    parseApprovalContext E.crypto dek.approval = .ok approval ∧
    Stamp pub.history approval.expiresAtUnix deadline t wall ∧ look.after.now < deadline ∧
    look.after.now+E.wallOffset < fromSecs approval.expiresAtUnix.toNat
  active : ∃ before act after, earlier = before ++ act::after ∧ Moves act.op act.reply ∧
    (∀ e ∈ after, ¬ Moves e.op e.reply) ∧ look.after.now < act.after.now+idleTimeout

/-- After these calls no grant of this id is live. -/
def Ends (op : AgentOp) (r : op.Reply) (g : GrantKey) : Prop :=
  op = .release g ∨ ∃ e : Error, (⟨op,r⟩ : (op : AgentOp) × op.Reply) = ⟨.getLiveGrant g,.error e⟩

structure GrantLifetime (E : AgentEnv) (tasks : P → AgentTask) (idleTimeout : Duration)
    (events : List (AgentEvent P)) : Prop where
  snapshot : ∀ before look after g grant, events = before ++ look::after →
    (⟨look.op,look.reply⟩ : (op : AgentOp) × op.Reply) = ⟨.getLiveGrant g,.ok grant⟩ →
    ∃ pub request, Snapshot E tasks idleTimeout before look pub g grant request
  ended : ∀ before ev mid look after g found, events = before ++ ev::(mid ++ look::after) →
    Ends ev.op ev.reply g → (∀ e ∈ mid, ¬ Republishes e.op e.reply g) →
    (⟨look.op,look.reply⟩ : (op : AgentOp) × op.Reply) = ⟨.getLiveGrant g,found⟩ → ∃ e, found = .error e
  /-- The grant of the first publication is live at the time of the second. -/
  nonces : ∀ before pub mid ev after g grant nonces g' grant' nonces',
    events = before ++ pub::(mid ++ ev::after) → Publication pub.op pub.reply g grant nonces →
    (∀ e ∈ mid, ¬ Republishes e.op e.reply g) → ev.before.state.getLiveGrant g ev.after.now = .ok grant →
    (∃ nonce ∈ nonces.map Prod.fst, nonce ∈ nonces'.map Prod.fst) →
    ¬ Publication ev.op ev.reply g' grant' nonces'

theorem StateEffect.ends {s t : AgentState} {n₀ n : Instant} {op : AgentOp} {r : op.Reply}
    (h : StateEffect s n₀ n t op r) (hends : Ends op r g) : t.Dead g n := by
  obtain rfl | ⟨e,hlook⟩ := hends
  · cases h with
    | neutral h => exact h.elim
    | missed _ _ hnone => exact .inr fun grant hgrant => absurd hgrant (hnone ▸ nofun)
    | @released _ _ n₁ =>
      refine .inr fun grant hgrant => ?_
      have hkept : Function.update (s.purge n₁).grants g none g = some grant :=
        (AgentState.purge_grants_eq_some.mp hgrant).1
      rw [Function.update_self] at hkept
      cases hkept
  · obtain ⟨rfl,hfound⟩ := h.found hlook
    exact AgentState.getLiveGrant_eq_error.mp ⟨e,hfound⟩

theorem AgentRun.snapshot {look : AgentEvent P} (hrun : AgentRun E tasks idleTimeout now events d)
    (hevents : events = before ++ look::after)
    (hlook : (⟨look.op,look.reply⟩ : (op : AgentOp) × op.Reply) = ⟨.getLiveGrant g,.ok grant⟩) :
    ∃ pub request, Snapshot E tasks idleTimeout before look pub g grant request := by
  have hmem : look ∈ events := hevents ▸ List.mem_append_right before (List.mem_cons_self ..)
  obtain ⟨u,hu,hstate,-⟩ := Run.split hrun hevents
  obtain ⟨-,hfound⟩ := (Run.step hrun look hmem).effect.2.found hlook
  obtain ⟨hidle,hgrant,hlive⟩ := AgentState.getLiveGrant_eq_ok.mp hfound
  rw [← hstate] at hidle hgrant
  obtain ⟨earlier,pub,later,nonces,hbefore,hpublication,hlast⟩ := AgentRun.origin hu hgrant
  have hpub : pub ∈ before := hbefore ▸ List.mem_append_right earlier (List.mem_cons_self ..)
  obtain ⟨frame,request,htask,hparsed,hprepared⟩ := AgentRun.prepared hu hpub hpublication
  refine ⟨pub,request,⟨earlier,later,nonces,hbefore,hpublication,hlast,hprepared⟩,⟨frame,htask,hparsed⟩,?_,?_,?_⟩
  · obtain ⟨start,hstart,hexpiry⟩ := hprepared.expiry
    exact ⟨start,hstart,hlive.trans_le hexpiry⟩
  · intro dek hdek
    obtain ⟨nonce,hnonce,approval,t,wall,happroval,-,hstamp⟩ := forall₂_exists_right hprepared.stamped hdek
    have hdeadline : look.after.now < nonce.2 := hlive.trans_le (hprepared.approvals nonce hnonce)
    obtain ⟨lag,-,hend⟩ := AgentRun.deadline hu hpub hstamp
    have hearlier : (look.after.now : ℤ) < nonce.2 := Int.ofNat_lt.mpr hdeadline
    exact ⟨approval,nonce.2,t,wall,happroval,hstamp,hdeadline,by omega⟩
  · obtain ⟨earlier',act,later',hact,hmoves,hquiet,hlastActivity⟩ | hquiet := AgentRun.lastActivity hu
    · refine ⟨earlier',act,later',hact,hmoves,hquiet,?_⟩
      have hidle : ¬ u.state.state.idleTimeout ≤ look.after.now-u.state.state.lastActivity :=
        of_decide_eq_false hidle
      rw [hlastActivity,AgentRun.idleTimeout_eq hu] at hidle
      exact not_le.mp fun hle => hidle (Nat.le_sub_of_add_le' hle)
    · exact (hquiet pub hpub hpublication.moves).elim

theorem grantLifetime (hrun : AgentRun E tasks idleTimeout now events d) :
    GrantLifetime E tasks idleTimeout events where
  snapshot before look after g grant hevents hlook := hrun.snapshot hevents hlook
  ended before ev mid look after g found hevents hends hothers hlook := by
    rw [← List.cons_append,← List.append_assoc] at hevents
    have hmem : look ∈ events := hevents ▸ List.mem_append_right _ (List.mem_cons_self ..)
    obtain ⟨u,hu,hstate,-⟩ := Run.split hrun hevents
    have hev := (Run.step hu ev (List.mem_append_right before (List.mem_cons_self ..))).effect.2.ends hends
    have hdead := AgentRun.dead hu rfl hev hothers
    obtain ⟨hn,hlooked⟩ := (Run.step hrun look hmem).effect
    rw [hstate] at hdead
    obtain ⟨e,he⟩ := AgentState.getLiveGrant_eq_error.mpr (hdead.mono hn)
    exact ⟨e,(hlooked.found hlook).2.symm.trans he⟩
  nonces before pub mid ev after g grant nonces g' grant' nonces' hevents hpublication hothers hlive hshared
      hagain := by
    rw [← List.cons_append,← List.append_assoc] at hevents
    have hmem : ev ∈ events := hevents ▸ List.mem_append_right _ (List.mem_cons_self ..)
    obtain ⟨u,hu,hstate,-⟩ := Run.split hrun hevents
    obtain ⟨x,hx,hx'⟩ := hshared
    obtain ⟨⟨_,deadline⟩,hnonce,rfl⟩ := List.mem_map.mp hx
    obtain ⟨⟨_,deadline'⟩,hnonce',rfl⟩ := List.mem_map.mp hx'
    have hpub : pub ∈ before ++ pub::mid := List.mem_append_right before (List.mem_cons_self ..)
    obtain ⟨_,_,_,_,hprepared⟩ := AgentRun.prepared hu hpub hpublication
    obtain ⟨n₁,hn₁,hn,_,hunused⟩ := (Run.step hrun ev hmem).effect.2.unused hagain
    have huse := (hstate ▸ AgentRun.inUse hu rfl hpublication hnonce).purge hn₁
    have hlater : ev.after.now < deadline :=
      (AgentState.getLiveGrant_eq_ok.mp hlive).2.2.trans_le (hprepared.approvals _ hnonce)
    obtain hused | hpast := huse
    · rw [hunused _ hnonce'] at hused
      cases hused
    · exact Nat.not_lt.mpr (hpast.trans hn) hlater

end Runs

/-- A grant is found, published a second time without success, released and not found any more. -/
theorem grantLifetime_replay : ∃ events d, AgentRun lifeEnv LifeTask.task (fromSecs 300) 0 events d ∧ Lived events ∧
    GrantLifetime lifeEnv LifeTask.task (fromSecs 300) events := by
  obtain ⟨events,d,hrun,hlived⟩ := lifeRun
  exact ⟨events,d,hrun,hlived,grantLifetime hrun⟩

end Avault.Agent
