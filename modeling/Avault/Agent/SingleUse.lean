import Avault.Agent.Lifetime

/-! An approval is consumed once, as long as it has not expired. -/
namespace Avault.Agent
open Foundation Crypto

section SingleUse

variable {P : Type}

/-- The event publishes a grant on this approval, which two readings have dated. -/
def Consumes (E : AgentEnv) (tasks : P → AgentTask) (ev : AgentEvent P) (approval : ApprovalContext) (t : Instant)
    (wall : SystemTime) : Prop :=
  ∃ g grant nonces frame request deadline, Publication ev.op ev.reply g grant nonces ∧
    tasks ev.process = .frame frame ∧ E.parseRequest frame = .ok (.grant request) ∧
    (∃ dek ∈ request.deks, parseApprovalContext E.crypto dek.approval = .ok approval) ∧
    (approval.nonce,deadline) ∈ nonces ∧ Stamp ev.history approval.expiresAtUnix deadline t wall

structure SingleUse (E : AgentEnv) (tasks : P → AgentTask) (events : List (AgentEvent P)) : Prop where
  /-- A nonce is consumed again only when the approval that was published first has expired. -/
  untilExpiry : ∀ before pub mid again after approval t wall approval' t' wall',
    events = before ++ pub::(mid ++ again::after) → Consumes E tasks pub approval t wall →
    Consumes E tasks again approval' t' wall' → approval'.nonce = approval.nonce →
    fromSecs approval.expiresAtUnix.toNat ≤ again.after.now+E.wallOffset
  once : ∀ before pub mid again after approval t wall t' wall', events = before ++ pub::(mid ++ again::after) →
    Consumes E tasks pub approval t wall → ¬ Consumes E tasks again approval t' wall'

/-- No publication tries a consumed nonce in the time before the expiry that is as long as what
passed between the two readings, which the nonce is forgotten early by. -/
def OutsideGap (E : AgentEnv) (tasks : P → AgentTask) (events : List (AgentEvent P)) : Prop :=
  ∀ before pub mid again after approval t wall g grant nonces, events = before ++ pub::(mid ++ again::after) →
    Consumes E tasks pub approval t wall → again.op = .publishGrant g grant nonces →
    approval.nonce ∈ nonces.map Prod.fst →
    again.after.now+(wall-t) < fromSecs approval.expiresAtUnix.toNat ∨
      fromSecs approval.expiresAtUnix.toNat ≤ again.after.now+E.wallOffset

variable [DecidableEq P] {E : AgentEnv} {tasks : P → AgentTask} {idleTimeout : Duration} {now : Instant}
  {events before mid after : List (AgentEvent P)} {d : AgentConfig P} {pub again : AgentEvent P}
  {approval approval' : ApprovalContext} {t t' : Instant} {wall wall' : SystemTime}

/-- A nonce that is consumed again is past the deadline of its first approval. -/
theorem AgentRun.forgotten (hrun : AgentRun E tasks idleTimeout now events d)
    (hevents : events = before ++ pub::(mid ++ again::after)) (hpub : Consumes E tasks pub approval t wall)
    {g : GrantKey} {grant : GrantEntry} {nonces : List (Bytes × Instant)}
    (hagain : Publication again.op again.reply g grant nonces) (hnonce : approval.nonce ∈ nonces.map Prod.fst) :
    fromSecs approval.expiresAtUnix.toNat ≤ again.after.now+(wall-t) := by
  rw [← List.cons_append,← List.append_assoc] at hevents
  have hmem : again ∈ events := hevents ▸ List.mem_append_right _ (List.mem_cons_self ..)
  obtain ⟨u,hu,hstate,-⟩ := Run.split hrun hevents
  obtain ⟨_,_,_,_,_,deadline,hpublication,_,_,_,hfirst,hstamp⟩ := hpub
  obtain ⟨⟨_,deadline'⟩,hsecond,rfl⟩ := List.mem_map.mp hnonce
  obtain ⟨n₁,hn₁,hn,_,hunused⟩ := (Run.step hrun again hmem).effect.2.unused hagain
  obtain hused | hpast := (hstate ▸ AgentRun.inUse hu rfl hpublication hfirst).purge hn₁
  · rw [hunused _ hsecond] at hused
    cases hused
  · have hpast : (deadline : ℤ) ≤ again.after.now := Int.ofNat_le.mpr (hpast.trans hn)
    rw [hstamp.deadline] at hpast
    rw [← sub_le_iff_le_add,sub_sub_eq_add_sub,add_comm,← add_sub]
    exact hpast

theorem approval_singleUse (hrun : AgentRun E tasks idleTimeout now events d)
    (houtside : OutsideGap E tasks events) : SingleUse E tasks events := by
  have huntilExpiry : ∀ before pub mid again after approval t wall approval' t' wall',
      events = before ++ pub::(mid ++ again::after) → Consumes E tasks pub approval t wall →
      Consumes E tasks again approval' t' wall' → approval'.nonce = approval.nonce →
      fromSecs approval.expiresAtUnix.toNat ≤ again.after.now+E.wallOffset := by
    intro before pub mid again after approval t wall approval' t' wall' hevents hpub hagain hsame
    obtain ⟨g,grant,nonces,_,_,_,hpublication,_,_,_,hmem,_⟩ := hagain
    have hnonce : approval.nonce ∈ nonces.map Prod.fst := List.mem_map.mpr ⟨_,hmem,hsame⟩
    have hop : again.op = .publishGrant g grant nonces := congrArg Sigma.fst hpublication
    exact (houtside _ _ _ _ _ _ _ _ _ _ _ hevents hpub hop hnonce).resolve_left
      (not_lt.mpr (hrun.forgotten hevents hpub hpublication hnonce))
  refine ⟨huntilExpiry,fun before pub mid again after approval t wall t' wall' hevents hpub hagain => ?_⟩
  have hexpired := huntilExpiry _ _ _ _ _ _ _ _ _ _ _ hevents hpub hagain rfl
  have hmem : again ∈ events := by
    rw [hevents]
    exact List.mem_append_right _ (List.mem_cons_of_mem _ (List.mem_append_right _ (List.mem_cons_self ..)))
  obtain ⟨g,grant,nonces,_,_,deadline,hpublication,_,_,_,hnonce,hstamp⟩ := hagain
  obtain ⟨_,_,_,_,hprepared⟩ := hrun.prepared hmem hpublication
  obtain ⟨_,_,_,hlive,_⟩ := (Run.step hrun again hmem).effect.2.unused hpublication
  obtain ⟨lag,_,hend⟩ := hrun.deadline hmem hstamp
  have hlive : (again.after.now : ℤ) < deadline := Int.ofNat_lt.mpr (hlive.trans_le (hprepared.approvals _ hnonce))
  omega

end SingleUse

/-- Two frames with one approval, and no time between any two readings. -/
theorem approval_singleUse_replay : ∃ events d,
    AgentRun sampleEnv (fun _ : Bool => .frame [0]) (fromSecs 300) 0 events d ∧
    (∃ grant, d.state.state.grants ⟨"g1"⟩ = some grant) ∧
    SingleUse sampleEnv (fun _ => .frame [0]) events := by
  obtain ⟨events,d,hrun,hnow,hgrant,-⟩ := sampleReplay_run
  refine ⟨events,d,hrun,hgrant,approval_singleUse hrun ?_⟩
  intro before pub mid again after approval t wall g grant nonces hevents hpub hop hnonce
  obtain ⟨_,_,_,frame,request,_,_,htask,hparsed,⟨dek,hdek,happroval⟩,_,⟨_,hread⟩,_,_⟩ := hpub
  cases htask
  cases hparsed
  obtain rfl := List.mem_singleton.mp hdek
  obtain rfl := Except.ok.inj (happroval.symm.trans sampleApproval_parsed)
  have hmem : pub ∈ events := hevents ▸ List.mem_append_right _ (List.mem_cons_self ..)
  have hhistory := (hread.trans (List.suffix_cons _ _)).trans (Run.history_of_event hrun pub hmem)
  have hwall := (hrun.timed pub.process).2 (Int.sub wall 0)
    (List.mem_filterMap.mpr ⟨_,hhistory.subset (List.mem_cons_self ..),rfl⟩)
  rw [← List.cons_append,← List.append_assoc] at hevents
  have hagain : again.after.now ≤ d.state.now := Run.after_event (I := fun w : AgentWorld => again.after.now ≤ w.now)
    hrun hevents (Nat.le_refl _) fun e _ hstep hle => hle.trans hstep.effect.1
  rw [hnow] at hwall hagain
  have hstart : (again.after.now : ℤ) ≤ 0 := Int.ofNat_le.mpr hagain
  have hend : (0 : ℤ) < (fromSecs 100 : ℕ) := Int.ofNat_lt.mpr (by decide)
  have hwall : wall ≤ 0 := (sub_zero wall).symm.trans_le hwall
  have hlag : wall-t ≤ 0 := sub_nonpos.mpr (hwall.trans (Int.natCast_nonneg t))
  exact .inl (lt_of_le_of_lt (add_nonpos hstart hlag) hend)

/-! The grant of the sample, published once and again. -/

section Sample

variable {P : Type} {i : P} {a b : ℕ} {s t : AgentWorld}

theorem sampleConsumes (hb : b ≤ fromSecs 100) : Consumes sampleEnv (fun _ : P => .frame [0])
    ⟨i,sampleReadings a b,.publishGrant ⟨"g1"⟩ (sampleEntry a b) (sampleNonces a b),.ok (),s,t⟩
    ⟨List.replicate 16 1,100⟩ a (Int.ofNat b) := by
  refine ⟨_,_,_,[0],sampleGrant,_,rfl,rfl,rfl,⟨sampleDekInput,List.mem_singleton_self _,sampleApproval_parsed⟩,
    List.mem_singleton_self _,⟨_,List.suffix_refl _⟩,Int.ofNat_le.mpr hb,?_⟩
  push_cast [Nat.cast_sub hb]
  rfl

/-- A nonce is forgotten a second early, and its approval publishes a second grant in that time. -/
theorem approval_usedTwice : ¬ ∀ (P : Type) [DecidableEq P] (E : AgentEnv) (tasks : P → AgentTask)
    (idleTimeout : Duration) (now : Instant) (events : List (AgentEvent P)) (d : AgentConfig P),
    AgentRun E tasks idleTimeout now events d → SingleUse E tasks events := by
  intro hclaim
  have honce {events : List (AgentEvent Bool)} {d : AgentConfig Bool}
      (hrun : Run (AgentStep sampleEnv) sampleStart events d) :
      SingleUse sampleEnv (fun _ : Bool => .frame [0]) events :=
    hclaim _ _ _ (fromSecs 300) 0 _ d (by rwa [AgentRun,sampleStart_eq])
  have hrun : Run (AgentStep sampleEnv) sampleStart [] sampleStart := .nil
  -- One second passes between the readings of the first frame.
  have hfirst : (10000000000 : ℕ) ≤ 11000000000 ∧ 11000000000 < fromSecs 100 := by decide
  have hsecond : (98000000000 : ℕ) ≤ 98000000000 ∧ 98000000000 < fromSecs 100 := by decide
  obtain ⟨calls,d,hrun,hstate,-,hothers⟩ := sampleFrame_run hrun (i := false) (n := 12000000000) rfl rfl
    (by decide) hfirst.1 (by decide) (sampleReaches hfirst.1 hfirst.2)
  obtain ⟨calls',d,hrun,-,-,-⟩ := sampleFrame_run hrun (n := 99500000000) (hothers true (by decide)) hstate (by decide)
    hsecond.1 (by decide) (sampleReaches hsecond.1 hsecond.2)
  have hevents (pub again : AgentEvent Bool) :
      [] ++ calls ++ [pub] ++ calls' ++ [again] = calls ++ pub::(calls' ++ again::[]) := by
    simp only [List.nil_append,List.append_assoc,List.cons_append]
  exact (honce hrun).once _ _ _ _ _ _ _ _ _ _ (hevents _ _) (sampleConsumes hfirst.2.le)
    (sampleConsumes hsecond.2.le)

end Sample
end Avault.Agent
