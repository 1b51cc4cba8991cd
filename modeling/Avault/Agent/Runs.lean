import Avault.Agent.Guard

/-! Runs of the resident agent: frames handled at the same time, and the purges of the listener. -/
namespace Avault.Agent
open Foundation Crypto
open Foundation.Program (wp Ensures ensures_pure)

/-- What runs concurrently. -/
inductive AgentTask
  /-- A connection thread with the frame it has read. -/
  | frame (bytes : Bytes)
  /-- One purge by the listener. -/
  | purge

section Runs

variable (E : AgentEnv)

def AgentTask.program : AgentTask → Program AgentOp AgentOp.Reply (Result (Option AgentReply))
  | frame bytes => (do return some (← handleAgentFrameInner E bytes) : AgentM (Option AgentReply)).run
  | purge => (do agentPurge; return none : AgentM (Option AgentReply)).run

/-- What a task may call. -/
def TaskGuard : AgentTask → AgentCalls → AgentOp → Prop
  | .frame bytes,h,op => FrameGuard E bytes h op
  | .purge,_,op => op = .purge ∨ op = .cache .purge

abbrev AgentConfig (P : Type) : Type := Config P AgentOp AgentOp.Reply (Result (Option AgentReply)) AgentWorld

abbrev AgentEvent (P : Type) : Type := Event P AgentOp AgentOp.Reply AgentWorld

variable {P : Type} [DecidableEq P]

/-- All tasks at their start, in a fresh agent. -/
def agentStart (tasks : P → AgentTask) (idleTimeout : Duration) (now : Instant) : AgentConfig P :=
  Config.start (fun i => (tasks i).program E) ⟨now,AgentState.new idleTimeout now,⟨none,false⟩⟩

abbrev AgentRun (tasks : P → AgentTask) (idleTimeout : Duration) (now : Instant) :
    List (AgentEvent P) → AgentConfig P → Prop := Run (AgentStep E) (agentStart E tasks idleTimeout now)

variable {E} {tasks : P → AgentTask} {idleTimeout : Duration} {now : Instant} {events : List (AgentEvent P)}
  {d : AgentConfig P}

theorem task_guarded (task : AgentTask) : wp (.guarded (TaskGuard E task)) (task.program E)
    (fun _ _ => True) [] := by
  cases task with
  | frame bytes =>
    have hframe : Ensures (.guarded (FrameGuard E bytes))
        (do return some (← handleAgentFrameInner E bytes)) [] fun _ _ => True :=
      handleAgentFrameInner_guarded.bind (fun _ _ _ => ensures_pure.mpr trivial) fun _ _ _ => trivial
    exact hframe
  | purge => exact ⟨.inl rfl,fun _ => ⟨.inr rfl,fun _ => trivial⟩⟩

/-- Each call of a run was one that its task may make. -/
theorem AgentRun.guard (hrun : AgentRun E tasks idleTimeout now events d) :
    ∀ ev ∈ events, TaskGuard E (tasks ev.process) ev.history ev.op := by
  intro ev hev
  obtain ⟨next,hreaches⟩ := (Run.reaches hrun fun _ => rfl).2 ev hev
  exact hreaches.allowed (task_guarded _)

/-! What a call does to the grants, the nonces and the idle clock. -/

/-- A call that has nothing to do with the grants. -/
def Neutral : AgentOp → Prop
  | .publishGrant _ _ _ | .release _ | .getLiveGrant _ | .recordActivity | .purge => False
  | _ => True

/-- The state behind a call whose readings are between `n₀` and `n`. -/
inductive StateEffect (s : AgentState) (n₀ n : Instant) : AgentState → (op : AgentOp) → op.Reply → Prop
  | neutral {op} {r : op.Reply} : Neutral op → StateEffect s n₀ n s op r
  | published {scope grant nonces n₁} : n₀ ≤ n₁ → n₁ ≤ n → n < grant.expiresAt →
    (∀ nonce ∈ nonces, (s.purge n₁).usedGrantNonces nonce.1 = none) →
    StateEffect s n₀ n
      { s.purge n₁ with
        usedGrantNonces := extend (s.purge n₁).usedGrantNonces nonces
        lastActivity := n
        grants := Function.update (s.purge n₁).grants scope (some grant) }
      (.publishGrant scope grant nonces) (.ok ())
  | rejected {scope grant nonces n₁} {e : Error} : n₀ ≤ n₁ → n₁ ≤ n →
    StateEffect s n₀ n (s.purge n₁) (.publishGrant scope grant nonces) (.error e)
  | released {scope grant n₁ n₂} : n₀ ≤ n₁ → n₁ ≤ n₂ → n₂ ≤ n → (s.purge n₁).grants scope = some grant →
    StateEffect s n₀ n
      ({ s.purge n₁ with grants := Function.update (s.purge n₁).grants scope none }.recordActivity n₂ n)
      (.release scope) true
  | missed {scope n₁} : n₀ ≤ n₁ → n₁ ≤ n → (s.purge n₁).grants scope = none →
    StateEffect s n₀ n (s.purge n₁) (.release scope) false
  | active {n₁} : n₀ ≤ n₁ → n₁ ≤ n → StateEffect s n₀ n (s.recordActivity n₁ n) .recordActivity ()
  | purged : StateEffect s n₀ n (s.purge n) .purge ()
  | looked {scope} : StateEffect s n₀ n s (.getLiveGrant scope) (s.getLiveGrant scope n)

theorem AgentStep.effect {w w' : AgentWorld} {op : AgentOp} {r : op.Reply} (h : AgentStep E w op r w') :
    w.now ≤ w'.now ∧ StateEffect w.state w.now w'.now w'.state op r := by
  cases h with
  | @publishGrant scope grant nonces n₁ n₂ h₁ h₂ =>
    refine ⟨h₁.trans h₂,?_⟩
    obtain ⟨e,hpublish⟩ | ⟨hlive,hunused,hpublish⟩ := w.state.publishGrant_cases scope grant nonces n₁ n₂
    · rw [hpublish]
      exact .rejected h₁ h₂
    · rw [hpublish]
      exact .published h₁ h₂ hlive hunused
  | @release scope n₁ n₂ n₃ h₁ h₂ h₃ =>
    refine ⟨h₁.trans (h₂.trans h₃),?_⟩
    obtain ⟨hnone,hrelease⟩ | ⟨⟨grant,hgrant⟩,hrelease⟩ := w.state.release_cases scope n₁ n₂ n₃
    · rw [hrelease]
      exact .missed h₁ (h₂.trans h₃) hnone
    · rw [hrelease]
      exact .released h₁ h₂ h₃ hgrant
  | recordActivity h₁ h₂ => exact ⟨h₁.trans h₂,.active h₁ h₂⟩
  | purge hn => exact ⟨hn,.purged⟩
  | getLiveGrant hn => exact ⟨hn,.looked⟩
  | cache hstep => exact ⟨hstep.now_le,.neutral trivial⟩
  | openSealed | openWithDek => exact ⟨Nat.le_refl _,.neutral trivial⟩
  | instantNow hn | systemTimeNow hn | runChild hn | send hn | writeSecretFile hn | signDigest hn =>
    exact ⟨hn,.neutral trivial⟩

/-! What a task reads of the clocks. -/

/-- The time of a reading, on the monotonic clock. -/
def reading (E : AgentEnv) : (op : AgentOp) × op.Reply → Option ℤ
  | ⟨.instantNow,t⟩ => some (Int.ofNat t)
  | ⟨.systemTimeNow,wall⟩ => some (Int.sub wall E.wallOffset)
  | _ => none

theorem AgentStep.reading_eq {w w' : AgentWorld} {op : AgentOp} {r : op.Reply} (h : AgentStep E w op r w') {x : ℤ}
    (hx : reading E ⟨op,r⟩ = some x) : x = w'.now := by
  cases h with
  | instantNow => exact (Option.some.inj hx).symm
  | systemTimeNow => exact (Option.some.inj hx).symm.trans (add_sub_cancel_right _ _)
  | _ => cases hx

/-- The readings of each task are in order, and none is from the future. -/
theorem AgentRun.timed (hrun : AgentRun E tasks idleTimeout now events d) (i : P) :
    ((d.process i).history.filterMap (reading E)).Pairwise (· ≥ ·) ∧
      ∀ x ∈ (d.process i).history.filterMap (reading E), x ≤ d.state.now := by
  induction hrun with
  | nil => exact ⟨List.Pairwise.nil,fun _ hx => (List.not_mem_nil hx).elim⟩
  | @snoc events d j op next r w _ _ hstep ih =>
    have hn : (d.state.now : ℤ) ≤ w.now := Int.ofNat_le.mpr hstep.effect.1
    have hpast : ∀ x ∈ (d.process i).history.filterMap (reading E), x ≤ (w.now : ℤ) :=
      fun x hx => (ih.2 x hx).trans hn
    by_cases hij : i = j
    · subst hij
      simp only [Config.answer,Function.update_self]
      cases hx : reading E ⟨op,r⟩ with
      | none =>
        rw [List.filterMap_cons_none hx]
        exact ⟨ih.1,hpast⟩
      | some x =>
        obtain rfl := hstep.reading_eq hx
        rw [List.filterMap_cons_some hx]
        exact ⟨List.pairwise_cons.mpr ⟨hpast,ih.1⟩,List.forall_mem_cons.mpr ⟨le_refl _,hpast⟩⟩
    · simp only [Config.answer,Function.update_of_ne hij]
      exact ⟨ih.1,hpast⟩

end Runs
end Avault.Agent
