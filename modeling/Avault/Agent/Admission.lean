import Mathlib.Data.Set.Card

/-! Admission of connections. Every load, compare-exchange and decrement of the counter is one
step; between two steps of one party all others may make theirs. -/
namespace Avault.Agent

/-- How `run_agent_connection` ends in its worker. -/
inductive WorkerEnd
  | ok
  | error
  | panic
deriving DecidableEq

/-- Where a party is: in `try_admit`, in `dispatch_agent_connection` behind it, or in the worker. -/
inductive Phase
  | idle
  | loading
  /-- At the head of the loop, with the value read last. -/
  | exchanging (active : UInt64)
  | admitted
  /-- The permit is in the closure of the worker. -/
  | spawning
  | running
  | exited (how : WorkerEnd)
  | unstarted
  /-- `try_admit` has returned nothing. -/
  | busy
  | notStarted
  | ended
deriving DecidableEq

/-- A party and whether an `AgentPermit` of it is alive. -/
structure Party where
  phase : Phase
  permit : Bool

inductive AdmissionAction
  | accept
  | load
  | full
  | exchange
  | retry
  | spawn
  | start
  | startFailed
  | exit (how : WorkerEnd)
  | drop
deriving DecidableEq

/-- `AgentAdmission`, and the parties that share it. -/
structure AdmissionState (P : Type) where
  active : UInt64
  party : P → Party

section Step

variable {P : Type} [DecidableEq P]

def AdmissionState.move (s : AdmissionState P) (p : P) (phase : Phase) : AdmissionState P :=
  { s with party := Function.update s.party p { s.party p with phase := phase } }

/-- The successful exchange, which makes a permit. -/
def AdmissionState.exchanged (s : AdmissionState P) (p : P) (active : UInt64) : AdmissionState P :=
  ⟨active,Function.update s.party p ⟨.admitted,true⟩⟩

/-- `impl Drop for AgentPermit`. -/
def AdmissionState.release (s : AdmissionState P) (p : P) (phase : Phase) : AdmissionState P :=
  ⟨s.active - 1,Function.update s.party p ⟨phase,false⟩⟩

/-- The steps of the parties. Some run `dispatch_agent_connection`; the others only take a permit
with `try_admit` and drop it again. -/
inductive AdmissionStep (limit : UInt64) (dispatches : P → Bool) :
    AdmissionState P → P → AdmissionAction → AdmissionState P → Prop
  | accept {s p} : (s.party p).phase = .idle → AdmissionStep limit dispatches s p .accept (s.move p .loading)
  /-- `self.active.load`, before the loop. -/
  | load {s p} : (s.party p).phase = .loading →
    AdmissionStep limit dispatches s p .load (s.move p (.exchanging s.active))
  /-- `while active < self.limit` is over. -/
  | full {s p active} : (s.party p).phase = .exchanging active → ¬ active < limit →
    AdmissionStep limit dispatches s p .full (s.move p .busy)
  | exchange {s p active} : (s.party p).phase = .exchanging active → active < limit → s.active = active →
    AdmissionStep limit dispatches s p .exchange (s.exchanged p (active + 1))
  /-- The exchange fails and returns the value it found, which may be the expected one. -/
  | retry {s p active} : (s.party p).phase = .exchanging active → active < limit →
    AdmissionStep limit dispatches s p .retry (s.move p (.exchanging s.active))
  | spawn {s p} : (s.party p).phase = .admitted → dispatches p = true →
    AdmissionStep limit dispatches s p .spawn (s.move p .spawning)
  | start {s p} : (s.party p).phase = .spawning → AdmissionStep limit dispatches s p .start (s.move p .running)
  /-- `spawn` returns an error, with the closure still to be dropped. -/
  | startFailed {s p} : (s.party p).phase = .spawning →
    AdmissionStep limit dispatches s p .startFailed (s.move p .unstarted)
  | exit {s p} (how : WorkerEnd) : (s.party p).phase = .running →
    AdmissionStep limit dispatches s p (.exit how) (s.move p (.exited how))
  /-- The closure is dropped at its end, and a permit that was only taken by its owner. -/
  | dropWorker {s p how} : (s.party p).phase = .exited how →
    AdmissionStep limit dispatches s p .drop (s.release p .ended)
  | dropUnstarted {s p} : (s.party p).phase = .unstarted →
    AdmissionStep limit dispatches s p .drop (s.release p .notStarted)
  | dropPermit {s p} : (s.party p).phase = .admitted → dispatches p = false →
    AdmissionStep limit dispatches s p .drop (s.release p .ended)

/-- The runs from a new `AgentAdmission`, with their history. -/
inductive AdmissionRun (limit : UInt64) (dispatches : P → Bool) :
    List (P × AdmissionAction) → AdmissionState P → Prop
  | start : AdmissionRun limit dispatches [] ⟨0,fun _ => ⟨.idle,false⟩⟩
  | step {events s p action t} : AdmissionRun limit dispatches events s →
    AdmissionStep limit dispatches s p action t → AdmissionRun limit dispatches (events ++ [(p,action)]) t

end Step

/-- In these phases a permit is alive: with its owner, in the closure or in the worker. -/
def Phase.holds : Phase → Bool
  | admitted | spawning | running | exited _ | unstarted => true
  | idle | loading | exchanging _ | busy | notStarted | ended => false

section Exact

variable {P : Type} [DecidableEq P]

structure AdmissionExact (limit : UInt64) (dispatches : P → Bool) (events : List (P × AdmissionAction))
    (s : AdmissionState P) : Prop where
  /-- The counter is the number of live permits. -/
  live : {p | (s.party p).permit = true}.Finite ∧ s.active.toNat = {p | (s.party p).permit = true}.ncard
  bounded : s.active ≤ limit
  /-- No decrement wraps around. -/
  above : ∀ p t, AdmissionStep limit dispatches s p .drop t → t.active.toNat + 1 = s.active.toNat
  /-- Nobody is given two permits, or drops one twice. -/
  once : ∀ p, events.count (p,.exchange) ≤ 1 ∧
    events.count (p,.exchange) = events.count (p,.drop) + if (s.party p).permit then 1 else 0
  running : ∀ p, (s.party p).phase = .running → events.count (p,.start) = 1 ∧ (s.party p).permit = true
  served : ∀ p, dispatches p = true → (s.party p).phase = .ended →
    events.count (p,.start) = 1 ∧ (s.party p).permit = false
  refused : ∀ p, (s.party p).phase = .busy ∨ (s.party p).phase = .notStarted →
    events.count (p,.start) = 0 ∧ (s.party p).permit = false
  /-- A dispatch goes on until its worker has ended or the connection is refused. -/
  settled : ∀ p, dispatches p = true → (s.party p).phase ∈ [.idle,.busy,.notStarted,.ended] ∨
    ∃ action t, AdmissionStep limit dispatches s p action t
  /-- When all workers have ended, and no connection is between its admission and its worker. -/
  zero : (∀ p, (s.party p).phase.holds = false) → s.active = 0

end Exact

/-- The permits that were made for a party in this phase. -/
def Phase.made : Phase → ℕ
  | idle | loading | exchanging _ | busy => 0
  | admitted | spawning | running | exited _ | unstarted | notStarted | ended => 1

/-- The permits of it that were dropped. -/
def Phase.dropped : Phase → ℕ
  | notStarted | ended => 1
  | idle | loading | exchanging _ | busy | admitted | spawning | running | exited _ | unstarted => 0

/-- The workers that were started for it. -/
def Phase.started (dispatches : Bool) : Phase → ℕ
  | running | exited _ => 1
  | ended => if dispatches then 1 else 0
  | idle | loading | exchanging _ | busy | admitted | spawning | unstarted | notStarted => 0

theorem Phase.made_le (phase : Phase) : phase.made ≤ 1 := by cases phase <;> simp [made]

theorem Phase.made_eq (phase : Phase) : phase.made = phase.dropped + if phase.holds then 1 else 0 := by
  cases phase <;> rfl

/-- Phases that only a dispatch comes to. -/
def Phase.InDispatch : Phase → Prop
  | spawning | running | exited _ | unstarted | notStarted => True
  | _ => False

/-- A party is what its history says. -/
structure PartyHistory {P : Type} [DecidableEq P] (dispatches : P → Bool) (events : List (P × AdmissionAction))
    (party : Party) (p : P) : Prop where
  permit : party.permit = party.phase.holds
  made : events.count (p,.exchange) = party.phase.made
  dropped : events.count (p,.drop) = party.phase.dropped
  started : events.count (p,.start) = party.phase.started (dispatches p)
  dispatch : party.phase.InDispatch → dispatches p = true

section Run

variable {P : Type} [DecidableEq P] {limit : UInt64} {dispatches : P → Bool} {events : List (P × AdmissionAction)}
  {s t : AdmissionState P} {p : P} {action : AdmissionAction}

theorem AdmissionStep.other (h : AdmissionStep limit dispatches s p action t) {q : P} (hne : q ≠ p) :
    t.party q = s.party q := by
  cases h <;> exact Function.update_of_ne hne _ _

@[simp] theorem AdmissionState.move_party (s : AdmissionState P) (p : P) (phase : Phase) :
    (s.move p phase).party p = { s.party p with phase := phase } := Function.update_self ..

@[simp] theorem AdmissionState.move_active (s : AdmissionState P) (p : P) (phase : Phase) :
    (s.move p phase).active = s.active := rfl

@[simp] theorem AdmissionState.exchanged_party (s : AdmissionState P) (p : P) (active : UInt64) :
    (s.exchanged p active).party p = ⟨.admitted,true⟩ := Function.update_self ..

@[simp] theorem AdmissionState.release_party (s : AdmissionState P) (p : P) (phase : Phase) :
    (s.release p phase).party p = ⟨phase,false⟩ := Function.update_self ..

/-- What a step does to the counter, along with the permit of its party. -/
theorem AdmissionStep.active (h : AdmissionStep limit dispatches s p action t) :
    (action = .exchange ∧ s.active < limit ∧ t.active = s.active + 1 ∧ (s.party p).phase.holds = false ∧
      (t.party p).phase.holds = true) ∨
    (action = .drop ∧ t.active = s.active - 1 ∧ (s.party p).phase.holds = true ∧ (t.party p).phase.holds = false) ∨
    (action ≠ .exchange ∧ action ≠ .drop ∧ t.active = s.active ∧
      (t.party p).phase.holds = (s.party p).phase.holds) := by
  cases h with
  | exchange hphase hlt hsame =>
    obtain rfl := hsame
    exact .inl ⟨rfl,hlt,rfl,by simp [hphase,Phase.holds],by simp [Phase.holds]⟩
  | dropWorker hphase | dropUnstarted hphase | dropPermit hphase _ =>
    exact .inr (.inl ⟨rfl,rfl,by simp [hphase,Phase.holds],by simp [Phase.holds]⟩)
  | accept hphase | load hphase | full hphase _ | retry hphase _ | spawn hphase _ | start hphase
  | startFailed hphase | exit _ hphase =>
    exact .inr (.inr ⟨by simp,by simp,rfl,by simp [hphase,Phase.holds]⟩)

/-- One more event of a party. -/
theorem PartyHistory.advance {party party' : Party} (hp : PartyHistory dispatches events party p)
    (hpermit : party'.permit = party'.phase.holds)
    (hmade : party'.phase.made = party.phase.made + if action = .exchange then 1 else 0)
    (hdropped : party'.phase.dropped = party.phase.dropped + if action = .drop then 1 else 0)
    (hstarted : party'.phase.started (dispatches p) =
      party.phase.started (dispatches p) + if action = .start then 1 else 0)
    (hdispatch : party'.phase.InDispatch → dispatches p = true) :
    PartyHistory dispatches (events ++ [(p,action)]) party' p where
  permit := hpermit
  made := by simp [List.count_append,List.count_singleton,hp.made,hmade]
  dropped := by simp [List.count_append,List.count_singleton,hp.dropped,hdropped]
  started := by simp [List.count_append,List.count_singleton,hp.started,hstarted]
  dispatch := hdispatch

theorem AdmissionStep.history (h : AdmissionStep limit dispatches s p action t)
    (hp : PartyHistory dispatches events (s.party p) p) :
    PartyHistory dispatches (events ++ [(p,action)]) (t.party p) p := by
  have hpermit := hp.permit
  have hdispatch := hp.dispatch
  cases h with
  | accept hphase | load hphase | full hphase _ | exchange hphase _ _ | retry hphase _ | spawn hphase _
  | start hphase | startFailed hphase | exit _ hphase | dropWorker hphase | dropUnstarted hphase
  | dropPermit hphase _ =>
    rw [hphase] at hpermit hdispatch
    refine hp.advance ?_ ?_ ?_ ?_ ?_ <;>
      simp_all [Phase.holds,Phase.made,Phase.dropped,Phase.started,Phase.InDispatch]

theorem PartyHistory.other {party : Party} {q : P} (hq : PartyHistory dispatches events party q) (hne : q ≠ p) :
    PartyHistory dispatches (events ++ [(p,action)]) party q where
  permit := hq.permit
  made := by simp [List.count_append,hq.made,hne.symm]
  dropped := by simp [List.count_append,hq.dropped,hne.symm]
  started := by simp [List.count_append,hq.started,hne.symm]
  dispatch := hq.dispatch

/-- The parties with a live permit. -/
def AdmissionState.holders (s : AdmissionState P) : Set P := {p | (s.party p).permit = true}

structure AdmissionInv (limit : UInt64) (dispatches : P → Bool) (events : List (P × AdmissionAction))
    (s : AdmissionState P) : Prop where
  history : ∀ p, PartyHistory dispatches events (s.party p) p
  finite : s.holders.Finite
  live : s.active.toNat = s.holders.ncard
  bounded : s.active ≤ limit

/-- A live permit is one that the counter counts. -/
theorem AdmissionInv.positive (h : AdmissionInv limit dispatches events s) (hp : (s.party p).phase.holds = true) :
    1 ≤ s.active.toNat := by
  have hmem : p ∈ s.holders := (h.history p).permit.trans hp
  rw [h.live]
  exact (Set.ncard_pos h.finite).mpr ⟨p,hmem⟩

theorem AdmissionStep.release_toNat (h : AdmissionInv limit dispatches events s)
    (hp : (s.party p).phase.holds = true) : (s.active - 1).toNat = s.active.toNat - 1 :=
  UInt64.toNat_sub_of_le _ _ (UInt64.le_iff_toNat_le.mpr (h.positive hp))

theorem AdmissionInv.step (h : AdmissionInv limit dispatches events s)
    (hstep : AdmissionStep limit dispatches s p action t) :
    AdmissionInv limit dispatches (events ++ [(p,action)]) t := by
  have hhistory (q : P) : PartyHistory dispatches (events ++ [(p,action)]) (t.party q) q := by
    by_cases hq : q = p
    · subst hq
      exact hstep.history (h.history q)
    · rw [hstep.other hq]
      exact (h.history q).other hq
  have hholds (q : P) : q ∈ t.holders ↔ (t.party q).phase.holds = true := by
    rw [AdmissionState.holders,Set.mem_ofPred_eq,(hhistory q).permit]
  have hother {q : P} (hq : q ≠ p) : q ∈ t.holders ↔ q ∈ s.holders := by
    rw [AdmissionState.holders,AdmissionState.holders,Set.mem_ofPred_eq,Set.mem_ofPred_eq,hstep.other hq]
  have hpermit : p ∈ s.holders ↔ (s.party p).phase.holds = true := by
    rw [AdmissionState.holders,Set.mem_ofPred_eq,(h.history p).permit]
  obtain ⟨-,hlt,hactive,hbefore,hafter⟩ | ⟨-,hactive,hbefore,hafter⟩ | ⟨-,-,hactive,hsame⟩ := hstep.active
  · have hset : t.holders = insert p s.holders := by
      ext q
      by_cases hq : q = p
      · simp [hq,hholds,hafter]
      · simp [hq,hother hq]
    have hnew : p ∉ s.holders := by simp [hpermit,hbefore]
    have hlt := UInt64.lt_iff_toNat_lt.mp hlt
    have hlimit := limit.toNat_lt
    have hadd : (s.active + 1).toNat = s.active.toNat + 1 := by
      rw [UInt64.toNat_add]
      exact Nat.mod_eq_of_lt (lt_of_le_of_lt hlt hlimit)
    refine ⟨hhistory,hset ▸ h.finite.insert p,?_,?_⟩
    · rw [hactive,hadd,hset,Set.ncard_insert_of_notMem hnew h.finite,h.live]
    · rw [hactive,UInt64.le_iff_toNat_le,hadd]
      exact hlt
  · have hset : t.holders = s.holders \ {p} := by
      ext q
      by_cases hq : q = p
      · simp [hq,hholds,hafter]
      · simp [hq,hother hq]
    have hsub := AdmissionStep.release_toNat h hbefore
    refine ⟨hhistory,hset ▸ h.finite.sdiff,?_,?_⟩
    · rw [hactive,hsub,hset,Set.ncard_sdiff_singleton_of_mem (hpermit.mpr hbefore),h.live]
    · rw [hactive,UInt64.le_iff_toNat_le,hsub]
      exact (Nat.sub_le _ _).trans (UInt64.le_iff_toNat_le.mp h.bounded)
  · have hset : t.holders = s.holders := by
      ext q
      by_cases hq : q = p
      · rw [hq,hholds,hpermit,hsame]
      · exact hother hq
    exact ⟨hhistory,hset ▸ h.finite,by rw [hactive,hset,h.live],hactive ▸ h.bounded⟩

theorem AdmissionRun.inv (h : AdmissionRun limit dispatches events s) : AdmissionInv limit dispatches events s := by
  induction h with
  | start =>
    have hempty : (⟨0,fun _ => ⟨.idle,false⟩⟩ : AdmissionState P).holders = ∅ := by
      simp [AdmissionState.holders]
    refine ⟨fun p => ⟨rfl,rfl,rfl,rfl,False.elim⟩,?_,?_,UInt64.zero_le⟩
    · rw [hempty]
      exact Set.finite_empty
    · rw [hempty,Set.ncard_empty]
      rfl
  | step _ hstep ih => exact ih.step hstep

/-- A dispatch that is not over has a next step, whatever the others do. -/
theorem exists_step (hdispatch : dispatches p = true) :
    (s.party p).phase ∈ [.idle,.busy,.notStarted,.ended] ∨
      ∃ action t, AdmissionStep limit dispatches s p action t := by
  cases hphase : (s.party p).phase with
  | idle | busy | notStarted | ended => exact .inl (by simp)
  | loading => exact .inr ⟨_,_,.load hphase⟩
  | exchanging active =>
    by_cases hlt : active < limit
    · exact .inr ⟨_,_,.retry hphase hlt⟩
    · exact .inr ⟨_,_,.full hphase hlt⟩
  | admitted => exact .inr ⟨_,_,.spawn hphase hdispatch⟩
  | spawning => exact .inr ⟨_,_,.start hphase⟩
  | running => exact .inr ⟨_,_,.exit .ok hphase⟩
  | exited => exact .inr ⟨_,_,.dropWorker hphase⟩
  | unstarted => exact .inr ⟨_,_,.dropUnstarted hphase⟩

end Run

/-- The counter is exact in every state that any interleaving leads to. -/
theorem admission_exact {P : Type} [DecidableEq P] (limit : UInt64) (dispatches : P → Bool)
    (events : List (P × AdmissionAction)) (s : AdmissionState P) (h : AdmissionRun limit dispatches events s) :
    AdmissionExact limit dispatches events s := by
  have hinv := h.inv
  refine ⟨⟨hinv.finite,hinv.live⟩,hinv.bounded,fun p t hstep => ?_,fun p => ?_,fun p hphase => ?_,
    fun p hdispatch hphase => ?_,fun p hphase => ?_,fun p hdispatch => exists_step hdispatch,fun hall => ?_⟩
  · obtain ⟨hexchange,-⟩ | ⟨-,hactive,hbefore,-⟩ | ⟨-,hdrop,-⟩ := hstep.active
    · cases hexchange
    · have hpos := hinv.positive hbefore
      rw [hactive,AdmissionStep.release_toNat hinv hbefore]
      omega
    · exact (hdrop rfl).elim
  · obtain ⟨hpermit,hmade,hdropped,-,-⟩ := hinv.history p
    rw [hmade,hdropped,hpermit]
    exact ⟨(s.party p).phase.made_le,(s.party p).phase.made_eq⟩
  · obtain ⟨hpermit,-,-,hstarted,-⟩ := hinv.history p
    rw [hphase] at hpermit hstarted
    exact ⟨hstarted,hpermit⟩
  · obtain ⟨hpermit,-,-,hstarted,-⟩ := hinv.history p
    rw [hphase] at hpermit hstarted
    exact ⟨hstarted.trans (if_pos hdispatch),hpermit⟩
  · obtain ⟨hpermit,-,-,hstarted,-⟩ := hinv.history p
    obtain hphase | hphase := hphase <;>
    · rw [hphase] at hpermit hstarted
      exact ⟨hstarted,hpermit⟩
  · have hempty : s.holders = ∅ := by
      ext p
      simp [AdmissionState.holders,(hinv.history p).permit,hall p]
    refine UInt64.toNat_inj.mp ?_
    rw [hinv.live,hempty,Set.ncard_empty]
    rfl

/-- Two connections contend for the only permit: the one loses its exchange and is refused, and the worker of the
other one panics, which leaves the counter at zero. -/
theorem admission_exact_panic : ∃ events s, AdmissionRun 1 (fun _ : Bool => true) events s ∧
    (false,.retry) ∈ events ∧ (s.party false).phase = .busy ∧ (s.party true).phase = .ended ∧ s.active = 0 ∧
    AdmissionExact 1 (fun _ : Bool => true) events s := by
  have hrun : AdmissionRun 1 (fun _ : Bool => true) [] _ := .start
  have haccepted := (hrun.step (p := true) (.accept rfl)).step (p := false) (.accept rfl)
  have hloaded := (haccepted.step (p := true) (.load rfl)).step (p := false) (.load rfl)
  have hadmitted := hloaded.step (p := true) (.exchange rfl (by decide) rfl)
  have hretried := hadmitted.step (p := false) (.retry rfl (by decide))
  have hrefused := hretried.step (p := false) (.full rfl (by decide))
  have hspawning := hrefused.step (p := true) (.spawn rfl rfl)
  have hrunning := hspawning.step (p := true) (.start rfl)
  have hexited := hrunning.step (p := true) (.exit .panic rfl)
  have hended := hexited.step (p := true) (.dropWorker rfl)
  exact ⟨_,_,hended,by decide,rfl,rfl,by decide,admission_exact _ _ _ _ hended⟩

end Avault.Agent
