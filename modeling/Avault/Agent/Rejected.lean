import Avault.Agent.Concrete

/-! Requests that are rejected leave the shared state alone. -/
namespace Avault.Agent
open Foundation Crypto
open Foundation.Program (Ensures ensures_bind ensures_pure)

/-- The call sets the idle clock. -/
def Moves : (op : AgentOp) → op.Reply → Prop
  | .publishGrant _ _ _,.ok _ => True
  | .release _,released => released = true
  | .recordActivity,_ => True
  | _,_ => False

/-- Nothing is added or changed, and what is gone had expired or was idle. -/
structure OnlyExpires (s t : AgentState) (n : Instant) : Prop where
  grants : ∀ g, t.grants g = s.grants g ∨ t.grants g = none ∧ s.Dead g n
  nonces : ∀ nonce, t.usedGrantNonces nonce = s.usedGrantNonces nonce ∨ t.usedGrantNonces nonce = none ∧
    ∀ deadline, s.usedGrantNonces nonce = some deadline → deadline ≤ n
  lastActivity : t.lastActivity = s.lastActivity

/-- The secrets of the request are open. -/
def Opens (prepared : Prepared) : Prop := CommitCall prepared .recordActivity

/-- Why the idle clock moved. -/
inductive MovesIdleClock {P : Type} (E : AgentEnv) (tasks : P → AgentTask) (ev : AgentEvent P) : Prop
  | published {scope grant nonces} : (⟨ev.op,ev.reply⟩ : (op : AgentOp) × op.Reply) =
    ⟨.publishGrant scope grant nonces,.ok ()⟩ → MovesIdleClock E tasks ev
  | opened {frame prepared} : ev.op = .recordActivity → tasks ev.process = .frame frame → Opens prepared →
    Reaches (prepare E frame).run ev.history (.done (.ok prepared)) → MovesIdleClock E tasks ev
  | released {scope grant} : ev.op = .release scope → ev.before.state.grants scope = some grant →
    ev.after.state.grants scope = none → MovesIdleClock E tasks ev

/-- The loader is called for a standard-tier secret, by a request whose first look found its grant. -/
structure LoadsForLiveGrant {P : Type} (E : AgentEnv) (tasks : P → AgentTask) (events : List (AgentEvent P))
    (ev first : AgentEvent P) (request : AgentRequest) (scope : GrantKey) (grant : GrantEntry) : Prop where
  parsed : ∃ frame, tasks ev.process = .frame frame ∧ E.parseRequest frame = .ok request
  standard : request.needsStandardMaster = true
  inScope : request.scope = some scope
  isFirst : first ∈ events ∧ first.process = ev.process ∧ first.history = []
  looks : first.op = .getLiveGrant scope
  live : first.before.state.getLiveGrant scope first.after.now = .ok grant

structure RejectedHarmless {P : Type} (E : AgentEnv) (tasks : P → AgentTask) (events : List (AgentEvent P))
    (d : AgentConfig P) : Prop where
  /-- A frame that fails before its secrets are open. -/
  rejected : ∀ i frame e, tasks i = .frame frame → (d.process i).program = .done (.error e) →
    (¬ ∃ prepared h, h <:+ (d.process i).history ∧ Opens prepared ∧
      Reaches (prepare E frame).run h (.done (.ok prepared))) →
    ∀ ev ∈ events, ev.process = i → OnlyExpires ev.before.state ev.after.state ev.after.now
  idleClock : ∀ ev ∈ events, ev.after.state.lastActivity ≠ ev.before.state.lastActivity →
    MovesIdleClock E tasks ev
  loads : ∀ ev ∈ events, ev.op = .cache .load →
    ∃ first request scope grant, LoadsForLiveGrant E tasks events ev first request scope grant

section Effect

variable {s t : AgentState} {n₀ n : Instant} {op : AgentOp} {r : op.Reply}

theorem onlyExpires_refl : OnlyExpires s s n := ⟨fun _ => .inl rfl,fun _ => .inl rfl,rfl⟩

theorem onlyExpires_purge {n₁ : Instant} (hn : n₁ ≤ n) : OnlyExpires s (s.purge n₁) n where
  grants g := by
    cases hgrant : (s.purge n₁).grants g with
    | none => exact .inr ⟨rfl,(AgentState.purge_grants_eq_none.mp hgrant).mono hn⟩
    | some grant => exact .inl (AgentState.purge_grants_eq_some.mp hgrant).1.symm
  nonces nonce := by
    cases hnonce : (s.purge n₁).usedGrantNonces nonce with
    | some deadline => exact .inl (AgentState.purge_used_eq_some.mp hnonce).1.symm
    | none =>
      refine .inr ⟨rfl,fun deadline hdeadline => ?_⟩
      by_contra hlive
      have hkept := AgentState.purge_used_eq_some.mpr ⟨hdeadline,hn.trans_lt (not_le.mp hlive)⟩
      rw [hnonce] at hkept
      cases hkept
  lastActivity := rfl

theorem Neutral.quiet (h : Neutral op) : ¬ Moves op r := by
  cases op <;> first | exact h.elim | exact id

theorem StateEffect.onlyExpires (h : StateEffect s n₀ n t op r) (hquiet : ¬ Moves op r) : OnlyExpires s t n := by
  cases h with
  | neutral | looked => exact onlyExpires_refl
  | published => exact absurd trivial hquiet
  | rejected _ hn | missed _ hn => exact onlyExpires_purge hn
  | released => exact absurd rfl hquiet
  | active => exact absurd trivial hquiet
  | purged => exact onlyExpires_purge (Nat.le_refl n)

theorem StateEffect.found {scope : GrantKey} {found : Result GrantEntry} (h : StateEffect s n₀ n t op r)
    (hlook : (⟨op,r⟩ : (op : AgentOp) × op.Reply) = ⟨.getLiveGrant scope,found⟩) :
    t = s ∧ s.getLiveGrant scope n = found := by
  cases hlook
  cases h with
  | looked => exact ⟨rfl,rfl⟩
  | neutral h => exact h.elim

theorem StateEffect.idleClock (h : StateEffect s n₀ n t op r) (hmoved : t.lastActivity ≠ s.lastActivity) :
    (∃ scope grant nonces, (⟨op,r⟩ : (op : AgentOp) × op.Reply) = ⟨.publishGrant scope grant nonces,.ok ()⟩) ∨
    op = .recordActivity ∨ ∃ scope grant, op = .release scope ∧ s.grants scope = some grant ∧
      t.grants scope = none := by
  cases h with
  | published => exact .inl ⟨_,_,_,rfl⟩
  | active => exact .inr (.inl rfl)
  | released _ _ _ hgrant =>
    refine .inr (.inr ⟨_,_,rfl,(AgentState.purge_grants_eq_some.mp hgrant).1,?_⟩)
    exact AgentState.purge_grants_eq_none.mpr (.inr fun grant hgrant => by simp at hgrant)
  | neutral | looked | rejected | missed | purged => exact absurd rfl hmoved

end Effect

section Frames

variable {E : AgentEnv} {frame : Bytes} {request : AgentRequest} {h : AgentCalls}

theorem PrepareGuard.quiet {op : AgentOp} (hguard : PrepareGuard E request h op) (r : op.Reply) : ¬ Moves op r := by
  cases op <;> first | exact hguard.elim | exact id

/-- A frame that ends in an error has opened its secrets, or has not set the idle clock. -/
theorem handle_quiet_of_error : Ensures (.guarded fun _ _ => True) (handleAgentFrameInner E frame) []
    fun r h => ∀ e, r = .error e → (∃ prepared h', h' <:+ h ∧ Opens prepared ∧
      Reaches (prepare E frame).run h' (.done (.ok prepared))) ∨ ∀ x ∈ h, ¬ Moves x.1 x.2 := by
  have hprepare : Ensures (.guarded fun _ _ => True) (prepare E frame) [] _ :=
    wp_guarded_mono (fun _ _ _ => trivial) prepare_guarded
  have hquiet {r : Result Prepared} {h : AgentCalls} (hreaches : Reaches (prepare E frame).run h (.done r)) :
      ∀ x ∈ h, ¬ Moves x.1 x.2 := by
    intro x hx
    obtain ⟨_,request,_,hguard⟩ := hreaches.guard_of_mem prepare_guarded hx
    exact hguard.quiet x.2
  rw [handleAgentFrameInner_eq]
  refine Ensures.bind hprepare (fun prepared h hprepared => ?_) fun e h hr e' _ => .inr (hquiet hr.1)
  have hopens (hopens : Opens prepared) (x : AgentM AgentReply) : Ensures (.guarded fun _ _ => True) x h
      fun r h => ∀ e, r = .error e → (∃ prepared h', h' <:+ h ∧ Opens prepared ∧
        Reaches (prepare E frame).run h' (.done (.ok prepared))) ∨ ∀ x ∈ h, ¬ Moves x.1 x.2 :=
    Program.wp_mono (fun r h' hh' e _ => .inl ⟨prepared,h,hh',hopens,hprepared.1⟩) (wp_grows x.run h)
  cases prepared with
  | pubkey =>
    intro e he
    cases he
  | grant scope grant nonces ttlSecs =>
    rw [commit,bind_assoc,ensures_bind]
    refine ⟨trivial,fun published => ?_⟩
    cases published with
    | ok _ =>
      intro e he
      cases he
    | error e => exact fun e' _ => .inr (List.forall_mem_cons.mpr ⟨id,hquiet hprepared.1⟩)
  | release scope =>
    refine ⟨trivial,fun released e he => ?_⟩
    cases he
  | run _ _ | fetch _ _ _ | inject _ _ | sign _ _ _ => exact hopens rfl _

end Frames

section Runs

variable {P : Type} [DecidableEq P] {E : AgentEnv} {tasks : P → AgentTask} {idleTimeout : Duration}
  {now : Instant} {events : List (AgentEvent P)} {d : AgentConfig P}

/-- Activity is recorded only for a frame whose secrets are open. -/
theorem AgentRun.opened (hrun : AgentRun E tasks idleTimeout now events d) {ev : AgentEvent P} (hev : ev ∈ events)
    (hop : ev.op = .recordActivity) : MovesIdleClock E tasks ev := by
  have hguard := hrun.guard ev hev
  rw [hop] at hguard
  cases htask : tasks ev.process with
  | purge =>
    rw [htask] at hguard
    obtain h | h := hguard <;> cases h
  | frame frame =>
    rw [htask] at hguard
    cases hguard with
    | prepare _ hprepare => exact hprepare.elim
    | commit _ _ hreaches hcommit => exact .opened hop htask hcommit hreaches
    | @finish _ prepared _ _ _ _ hfinish =>
      cases prepared <;> simp [FinishCall] at hfinish

theorem AgentRun.idleClock (hrun : AgentRun E tasks idleTimeout now events d) {ev : AgentEvent P}
    (hev : ev ∈ events) (hmoved : ev.after.state.lastActivity ≠ ev.before.state.lastActivity) :
    MovesIdleClock E tasks ev := by
  obtain ⟨_,_,_,hpublished⟩ | hop | ⟨_,_,hop,hgrant,hgone⟩ := (Run.step hrun ev hev).effect.2.idleClock hmoved
  · exact .published hpublished
  · exact hrun.opened hev hop
  · exact .released hop hgrant hgone

theorem AgentRun.loads (hrun : AgentRun E tasks idleTimeout now events d) {ev : AgentEvent P} (hev : ev ∈ events)
    (hop : ev.op = .cache .load) :
    ∃ first request scope grant, LoadsForLiveGrant E tasks events ev first request scope grant := by
  have hguard := hrun.guard ev hev
  rw [hop] at hguard
  cases htask : tasks ev.process with
  | purge =>
    rw [htask] at hguard
    obtain h | h := hguard <;> cases h
  | frame frame =>
    rw [htask] at hguard
    cases hguard with
    | @commit _ prepared _ _ _ hcommit => cases prepared <;> cases hcommit
    | @finish _ prepared _ _ _ _ hfinish => cases prepared <;> simp [FinishCall] at hfinish
    | @prepare request hparsed hprepare =>
      obtain ⟨hstandard,scope,grant,hscope,hfirst⟩ := hprepare
      have hsuffix := (hfirst.trans (List.suffix_cons _ _)).trans (Run.history_of_event hrun ev hev)
      obtain ⟨first,hfirst,hprocess,hhistory,hlook⟩ := Run.event_of_history hrun (i := ev.process) rfl hsuffix
      have hlive := ((Run.step hrun first hfirst).effect.2.found hlook.symm).2
      exact ⟨first,request,scope,grant,⟨frame,htask,hparsed⟩,hstandard,hscope,⟨hfirst,hprocess,hhistory⟩,
        (congrArg Sigma.fst hlook).symm,hlive⟩

/-- Rejected requests have no effect. -/
theorem rejectedRequests_harmless (hrun : AgentRun E tasks idleTimeout now events d) :
    RejectedHarmless E tasks events d where
  rejected i frame e htask hdone hunopened ev hev hprocess := by
    have hframe : Ensures (.guarded fun _ _ => True)
        (do return some (← handleAgentFrameInner E frame)) [] fun r h => ∀ e, r = .error e →
          (∃ prepared h', h' <:+ h ∧ Opens prepared ∧ Reaches (prepare E frame).run h' (.done (.ok prepared))) ∨
            ∀ x ∈ h, ¬ Moves x.1 x.2 :=
      handle_quiet_of_error.bind (fun _ _ _ => ensures_pure.mpr nofun)
        fun e h hquiet e' _ => hquiet e rfl
    have hreaches := (Run.reaches hrun fun _ => rfl).1 i
    rw [hdone] at hreaches
    change Reaches ((tasks i).program E) _ _ at hreaches
    rw [htask] at hreaches
    have hquiet := ((hreaches.post hframe) e rfl).resolve_left
      fun ⟨prepared,h,hh,hopens,hprepared⟩ => hunopened ⟨prepared,h,hh,hopens,hprepared⟩
    have hcall := (Run.history_of_event hrun ev hev).subset (List.mem_cons_self ..)
    rw [hprocess] at hcall
    exact (Run.step hrun ev hev).effect.2.onlyExpires (hquiet _ hcall)
  idleClock ev hev := hrun.idleClock hev
  loads ev hev := hrun.loads hev

end Runs

/-- A grant that is sent again is rejected. -/
theorem rejectedRequests_harmless_replay : ∃ events d,
    AgentRun sampleEnv (fun _ : Bool => .frame [0]) (fromSecs 300) 0 events d ∧
    (∃ e, (d.process true).program = .done (.error e)) ∧
    RejectedHarmless sampleEnv (fun _ => .frame [0]) events d := by
  obtain ⟨events,d,hrun,-,-,herror⟩ := sampleReplay_run
  exact ⟨events,d,hrun,herror,rejectedRequests_harmless hrun⟩

end Avault.Agent
