import Avault.Foundation.Parts
import Avault.Foundation.Serving

/-! Processes that share one lock. Where each of them gives the lock back that it has taken, none
has to wait for ever. -/
namespace Avault.Foundation
open Program

variable {P Op α β ε σ : Type} {Reply : Op → Type}

/-- A lock among calls that can always be made: `effect` is what a call on the lock makes of it,
taken or free, and only to take it may it have to be free. -/
structure OneLock (Op : Type) (Reply : Op → Type) (σ : Type) where
  step : σ → (op : Op) → Reply op → σ → Prop
  effect : Op → Option Bool
  held : σ → Bool
  held_of_step : ∀ {s op r t}, step s op r t → held t = (effect op).getD (held s)
  free_of_take : ∀ {s op r t}, step s op r t → effect op = some true → held s = false
  exists_step : ∀ s op, (effect op = some true → held s = false) → ∃ r t, step s op r t

namespace OneLock

variable (L : OneLock Op Reply σ)

/-- Whether a process has taken the lock and not given it back. -/
def holds : History Op Reply → Bool
  | [] => false
  | x::h => (L.effect x.1).getD (holds h)

/-- The lock is taken by who does not hold it, and given back by who does. -/
def calls : Transformer Op Reply Bool where
  pre op Q b := (∀ c, L.effect op = some c → c = !b) ∧ ∀ r, Q r ((L.effect op).getD b)
  mono h hP := ⟨hP.1,fun r => h r _ (hP.2 r)⟩

/-- The program ends without the lock. -/
def Ends (p : Program Op Reply α) (b : Bool) : Prop := wp L.calls p (fun _ b => b = false) b

def Balanced (x : Fallible Op Reply ε α) : Prop := L.Ends x.run false

section Balanced

variable {L}

theorem balanced_pure {a : α} : L.Balanced (pure a : Fallible Op Reply ε α) := rfl

theorem balanced_liftResult (r : Except ε α) : L.Balanced (liftResult r : Fallible Op Reply ε α) := rfl

theorem Balanced.bind {x : Fallible Op Reply ε α} {f : α → Fallible Op Reply ε β} (hx : L.Balanced x)
    (hf : ∀ a, L.Balanced (f a)) : L.Balanced (x >>= f) := by
  refine Ensures.bind (P := fun _ b => b = false) hx ?_ fun _ _ h => h
  rintro a _ rfl
  exact hf a

theorem balanced_call {op : Op} (hop : L.effect op = none) : L.Ends (call op : Program Op Reply _) false := by
  refine ⟨fun c hc => ?_,fun r => ?_⟩
  · rw [hop] at hc
    cases hc
  · rw [hop]
    rfl

theorem balanced_ask {op : Op} (hop : L.effect op = none) : L.Balanced (ask op : Fallible Op Reply ε _) := by
  refine ⟨fun c hc => ?_,fun r => ?_⟩
  · rw [hop] at hc
    cases hc
  · rw [hop]
    rfl

theorem Balanced.attempt {x : Fallible Op Reply ε α} (hx : L.Balanced x) : L.Balanced (attempt x) :=
  ensures_attempt.mpr hx

theorem Balanced.mapResult {f : Except ε α → Except ε β} {x : Fallible Op Reply ε α} (hx : L.Balanced x) :
    L.Balanced (mapResult f x) :=
  ensures_mapResult.mpr hx

theorem balanced_foldlM {f : β → α → Fallible Op Reply ε β} (hf : ∀ b a, L.Balanced (f b a)) (l : List α) (b : β) :
    L.Balanced (l.foldlM f b) := by
  induction l generalizing b with
  | nil => exact balanced_pure
  | cons a l ih =>
    rw [List.foldlM_cons]
    exact (hf b a).bind fun b' => ih b'

/-- A program that ends without the lock, before another one that does. -/
theorem Ends.bind {p : Program Op Reply α} {f : α → Program Op Reply β} {b : Bool} (hp : L.Ends p b)
    (hf : ∀ a, L.Ends (f a) false) : L.Ends (p >>= f) b := by
  unfold Ends
  rw [wp_bind]
  apply wp_mono _ hp
  rintro a _ rfl
  exact hf a

end Balanced

section Runs

/-- The lock is held just when a process holds it, and then by that one only. -/
structure Inv (d : Config P Op Reply α σ) : Prop where
  ends : ∀ i, L.Ends (d.process i).program (L.holds (d.process i).history)
  holder : L.held d.state = true → ∃ i, L.holds (d.process i).history = true
  held : ∀ i, L.holds (d.process i).history = true → L.held d.state = true
  one : ∀ i j, L.holds (d.process i).history = true → L.holds (d.process j).history = true → i = j

variable {L} {c d : Config P Op Reply α σ} {events : List (Event P Op Reply σ)} {i : P} {op : Op}
  {next : Reply op → Program Op Reply α} {r : Reply op} {t : σ}

theorem inv_start {program : P → Program Op Reply α} {s : σ} (hends : ∀ i, L.Ends (program i) false)
    (hfree : L.held s = false) : L.Inv (Config.start program s) := by
  refine ⟨hends,fun hheld => ?_,nofun,nofun⟩
  rw [show L.held (Config.start program s).state = false from hfree] at hheld
  cases hheld

/-- A process for which the lock is free, or that holds it, may make its next call. -/
theorem Inv.exists_step (hinv : L.Inv d) (hprogram : (d.process i).program = .request op next)
    (hfree : L.held d.state = true → L.holds (d.process i).history = true) : ∃ r t, L.step d.state op r t := by
  refine L.exists_step d.state op fun htake => ?_
  have hends := hinv.ends i
  rw [hprogram] at hends
  have hnot : L.holds (d.process i).history = false := by simpa using (hends.1 true htake).symm
  exact Bool.eq_false_iff.mpr fun hheld => Bool.false_ne_true (hnot.symm.trans (hfree hheld))

variable (L) in
/-- A process goes on, or waits for the lock, which another one holds that goes on. -/
def Progresses (d : Config P Op Reply α σ) (i : P) : Prop :=
  ∀ op next, (d.process i).program = .request op next → (∃ r t, L.step d.state op r t) ∨
    L.effect op = some true ∧ ∃ j op' next', j ≠ i ∧ L.holds (d.process j).history = true ∧
      (d.process j).program = .request op' next' ∧ ∃ r t, L.step d.state op' r t

theorem Inv.progresses (hinv : L.Inv d) (i : P) : L.Progresses d i := by
  intro op next hprogram
  by_cases hcan : ∃ r t, L.step d.state op r t
  · exact .inl hcan
  · have htake : L.effect op = some true ∧ ¬ L.held d.state = false := by
      by_contra hnot
      exact hcan (L.exists_step d.state op fun htake => by_contra fun hheld => hnot ⟨htake,hheld⟩)
    obtain ⟨j,hj⟩ := hinv.holder (by simpa using htake.2)
    have hji : j ≠ i := by
      rintro rfl
      exact hcan (hinv.exists_step hprogram fun _ => hj)
    refine .inr ⟨htake.1,?_⟩
    cases hother : (d.process j).program with
    | done a =>
      have hends := hinv.ends j
      rw [hother] at hends
      exact absurd (hj.symm.trans hends) Bool.false_ne_true.symm
    | request op' next' => exact ⟨j,op',next',hji,hj,hother,hinv.exists_step hother fun _ => hj⟩

variable [DecidableEq P]

/-- What one call makes of who holds the lock. -/
theorem holds_answer (j : P) : L.holds ((d.answer i op next r t).process j).history =
    if j = i then (L.effect op).getD (L.holds (d.process j).history) else L.holds (d.process j).history := by
  by_cases hji : j = i
  · subst hji
    simp only [Config.answer,Function.update_self,if_true]
    rfl
  · simp only [Config.answer,Function.update_of_ne hji,if_neg hji]

theorem Inv.step (hinv : L.Inv d) (hprogram : (d.process i).program = .request op next) (hstep : L.step d.state op r t) :
    L.Inv (d.answer i op next r t) := by
  have hends := hinv.ends i
  rw [hprogram] at hends
  obtain ⟨hcall,hnext⟩ := hends
  have hafter := L.held_of_step hstep
  have hends' (j : P) : L.Ends ((d.answer i op next r t).process j).program
      (L.holds ((d.answer i op next r t).process j).history) := by
    rw [holds_answer]
    by_cases hji : j = i
    · subst hji
      simp only [Config.answer,Function.update_self,if_true]
      exact hnext r
    · simp only [Config.answer,Function.update_of_ne hji,if_neg hji]
      exact hinv.ends j
  cases heffect : L.effect op with
  | none =>
    have hsame (j : P) : L.holds ((d.answer i op next r t).process j).history = L.holds (d.process j).history := by
      simp [holds_answer,heffect]
    have hstate : L.held (d.answer i op next r t).state = L.held d.state := by rw [heffect] at hafter; exact hafter
    refine ⟨hends',?_,?_,?_⟩
    · simpa only [hsame,hstate] using hinv.holder
    · simpa only [hsame,hstate] using hinv.held
    · simpa only [hsame] using hinv.one
  | some taken =>
    rw [heffect] at hafter
    cases taken with
    | true =>
      have hfree := L.free_of_take hstep heffect
      have hnone (j : P) : L.holds (d.process j).history = false := by
        cases hj : L.holds (d.process j).history with
        | false => rfl
        | true => exact (hinv.held j hj).symm.trans hfree
      have hi (j : P) : L.holds ((d.answer i op next r t).process j).history = true ↔ j = i := by
        simp [holds_answer,heffect,hnone]
      refine ⟨hends',fun _ => ⟨i,(hi i).mpr rfl⟩,fun _ _ => hafter,fun j k hj hk => ?_⟩
      exact ((hi j).mp hj).trans ((hi k).mp hk).symm
    | false =>
      have hmine : L.holds (d.process i).history = true := by simpa using (hcall false heffect).symm
      have hnone (j : P) : L.holds ((d.answer i op next r t).process j).history = false := by
        rw [holds_answer,heffect]
        by_cases hji : j = i
        · rw [if_pos hji]
          rfl
        · rw [if_neg hji]
          exact Bool.eq_false_iff.mpr fun hj => hji (hinv.one j i hj hmine)
      refine ⟨hends',fun hheld => ?_,fun j hj => ?_,fun j k hj _ => ?_⟩
      · exact absurd (hafter.symm.trans hheld) Bool.false_ne_true
      · exact absurd ((hnone j).symm.trans hj) Bool.false_ne_true
      · exact absurd ((hnone j).symm.trans hj) Bool.false_ne_true

/-- Two processes never hold the lock at once, and no process ends with it. -/
theorem Inv.run (hinv : L.Inv c) (hrun : Run L.step c events d) : L.Inv d := by
  induction hrun with
  | nil => exact hinv
  | snoc _ hprogram hstep ih => exact ih.step hprogram hstep

/-- A process for which the lock is free, or that holds it, can go on alone to where it is to stop. By
induction on what it has left. -/
theorem Inv.along (stop : Process Op Reply α → Prop) (hdone : ∀ h a, L.holds h = false → stop ⟨.done a,h⟩)
    (hinv : L.Inv d) (hrun : Run L.step c events d) {i : P}
    (hfree : L.held d.state = true → L.holds (d.process i).history = true) :
    ∃ more e, Run L.step c (events ++ more) e ∧ L.Inv e ∧ stop (e.process i) ∧
      (L.held e.state = true → L.holds (e.process i).history = true) ∧
      ∀ ev ∈ more, ev.process = i ∧ ∃ next, ¬ stop ⟨.request ev.op next,ev.history⟩ := by
  generalize hp : d.process i = process at hfree
  obtain ⟨p,h⟩ := process
  induction p generalizing d events h with
  | done a =>
    have hends := hinv.ends i
    rw [hp] at hends
    exact ⟨[],d,by rwa [List.append_nil],hinv,hp ▸ hdone h a hends,hp ▸ hfree,nofun⟩
  | request op next ih =>
    by_cases hstop : stop ⟨.request op next,h⟩
    · exact ⟨[],d,by rwa [List.append_nil],hinv,hp ▸ hstop,hp ▸ hfree,nofun⟩
    · have hprogram : (d.process i).program = .request op next := congrArg Process.program hp
      obtain ⟨r,t,hstep⟩ := hinv.exists_step hprogram (hp ▸ hfree)
      have hnext : (d.answer i op next r t).process i = ⟨next r,⟨op,r⟩::h⟩ := by
        simp only [Config.answer,Function.update_self,hp]
      have hfree' : L.held (d.answer i op next r t).state = true → L.holds (⟨op,r⟩::h) = true := by
        change L.held t = true → (L.effect op).getD (L.holds h) = true
        rw [L.held_of_step hstep]
        cases L.effect op with
        | none => exact hfree
        | some taken => exact id
      obtain ⟨more,e,he,hinv',hstopped,hheld,hmore⟩ := ih r (hinv.step hprogram hstep) (hrun.snoc hprogram hstep) _ hnext hfree'
      rw [List.append_assoc] at he
      refine ⟨_,e,he,hinv',hstopped,hheld,fun ev hev => ?_⟩
      obtain rfl | hev := List.mem_cons.mp hev
      · exact ⟨rfl,next,hp ▸ hstop⟩
      · exact hmore ev hev

/-- From wherever a run has come, each process can be brought through its calls of one kind, once who
holds the lock has given it back. -/
theorem Inv.exists_through (go : Op → Prop) (hinv : L.Inv d) (hrun : Run L.step c events d) (i : P) :
    ∃ more e, Run L.step c (events ++ more) e ∧ (∀ ev ∈ more, ev.process = i → go ev.op) ∧
      ∀ op next, (e.process i).program = .request op next → ¬ go op := by
  -- a process that can go on alone
  have hthrough {events : List (Event P Op Reply σ)} {d : Config P Op Reply α σ} (hinv : L.Inv d) (hrun : Run L.step c events d)
      (hfree : L.held d.state = true → L.holds (d.process i).history = true) :
      ∃ more e, Run L.step c (events ++ more) e ∧ (∀ ev ∈ more, go ev.op) ∧
        ∀ op next, (e.process i).program = .request op next → ¬ go op := by
    obtain ⟨more,e,he,-,hstop,-,hmore⟩ := Inv.along (fun x => ∀ op next, x.program = .request op next → ¬ go op)
      (fun _ _ _ => nofun) hinv hrun hfree
    refine ⟨more,e,he,fun ev hev => ?_,hstop⟩
    obtain ⟨-,next,hgo⟩ := hmore ev hev
    by_contra hnot
    exact hgo fun op next h => by
      obtain ⟨rfl,-⟩ := Program.request.inj h
      exact hnot
  by_cases hfree : L.held d.state = true → L.holds (d.process i).history = true
  · obtain ⟨more,e,he,hgo,hthrough⟩ := hthrough hinv hrun hfree
    exact ⟨more,e,he,fun ev hev _ => hgo ev hev,hthrough⟩
  · obtain ⟨hheld,hi⟩ := Classical.not_imp.mp hfree
    obtain ⟨j,hj⟩ := hinv.holder hheld
    obtain ⟨more,e,he,hinv',hback,hheld',hmore⟩ := Inv.along (fun x => L.holds x.history = false)
      (fun _ _ h => h) hinv hrun fun _ => hj
    have hnow : L.held e.state = true → L.holds (e.process i).history = true := fun hheld =>
      absurd (hback.symm.trans (hheld' hheld)) Bool.false_ne_true
    obtain ⟨more',e',he',hgo,hthrough⟩ := hthrough hinv' he hnow
    rw [List.append_assoc] at he'
    refine ⟨_,e',he',fun ev hev hprocess => ?_,hthrough⟩
    obtain hev | hev := List.mem_append.mp hev
    · obtain ⟨rfl,-⟩ := hmore ev hev
      exact absurd (hprocess ▸ hj) hi
    · exact hgo ev hev

end Runs

/-! Servers whose queries share one lock. -/

section Serving

variable [DecidableEq P] {Query : Type} {Own : P → Type} {OwnReply : ∀ i, Own i → Type} {τ : P → Type}
  (ownStep : ∀ i, τ i → (o : Own i) → OwnReply i o → τ i → Prop)

/-- The lock among the calls of servers, which have nothing to do with it on what is their own. -/
def serving (hown : ∀ i s o, ∃ r t, ownStep i s o r t) :
    OneLock (ServerOp Own Op) (ServerReply OwnReply Reply) ((∀ i, τ i) × σ) where
  step := ServingStep ownStep L.step
  effect := Sum.elim (fun _ => none) L.effect
  held s := L.held s.2
  held_of_step h := by
    cases h with
    | own => rfl
    | shared hstep => exact L.held_of_step hstep
  free_of_take h htake := by
    cases h with
    | own => cases htake
    | shared hstep => exact L.free_of_take hstep htake
  exists_step s op hfree := by
    cases op with
    | inl o =>
      obtain ⟨r,t,hstep⟩ := hown o.1 (s.1 o.1) o.2
      exact ⟨r,_,.own hstep⟩
    | inr op =>
      obtain ⟨r,t,hstep⟩ := L.exists_step s.2 op hfree
      exact ⟨r,_,.shared hstep⟩

variable {L ownStep} {hown : ∀ i s o, ∃ r t, ownStep i s o r t}

theorem ends_onShared {p : Program Op Reply β} {b : Bool} (hp : L.Ends p b) :
    (L.serving ownStep hown).Ends (Service.onShared p) b := by
  suffices hall : ∀ Q : β → Bool → Prop, wp L.calls p Q b → wp (L.serving ownStep hown).calls (Service.onShared p) Q b from
    hall _ hp
  clear hp
  intro Q hp
  induction p generalizing b with
  | done a => exact hp
  | request op next ih => exact ⟨hp.1,fun r => ih r (hp.2 r)⟩

/-- A server whose queries all give the lock back. -/
theorem ends_serve {S : Service P Own OwnReply Query Op Reply β} (hS : ∀ q, L.Ends (S.program q) false) {i : P}
    (p : Program (Own i) (OwnReply i) α) : (L.serving ownStep hown).Ends (S.serve i p) false := by
  induction p with
  | done a => rfl
  | request o next ih =>
    cases ho : S.query i o with
    | none =>
      rw [Service.serve_own ho]
      exact ⟨nofun,ih⟩
    | some query =>
      rw [Service.serve_query ho]
      exact (ends_onShared (hS query.1)).bind fun b => ih (query.2 b)

end Serving
end OneLock
end Avault.Foundation
