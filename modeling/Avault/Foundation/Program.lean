import Mathlib.Logic.Basic
import Mathlib.Tactic.Basic

/-! Programs as trees of requests. A program says which calls it makes and what it does with
each reply; what a call does to the world is given separately, as a step relation, so that one
program can be run with and without faults, alone and next to others. -/
namespace Avault.Foundation

inductive Program (Op : Type) (Reply : Op → Type) (α : Type) : Type
  | done (a : α)
  | request (op : Op) (next : Reply op → Program Op Reply α)

namespace Program

variable {Op : Type} {Reply : Op → Type} {α β σ ε : Type}

protected def bind : Program Op Reply α → (α → Program Op Reply β) → Program Op Reply β
  | done a,f => f a
  | request op next,f => request op fun r => (next r).bind f

instance : Monad (Program Op Reply) where
  pure := done
  bind := Program.bind

@[simp] theorem pure_eq (a : α) : (pure a : Program Op Reply α) = done a := rfl
@[simp] theorem done_bind (a : α) (f : α → Program Op Reply β) : done a >>= f = f a := rfl
@[simp] theorem request_bind (op : Op) (next : Reply op → Program Op Reply α)
    (f : α → Program Op Reply β) : request op next >>= f = request op fun r => next r >>= f := rfl

instance : LawfulMonad (Program Op Reply) :=
  have bind_done {α : Type} (p : Program Op Reply α) : p >>= done = p := by
    induction p with
    | done a => rfl
    | request op next ih => rw [request_bind,funext ih]
  have bind_assoc {α β γ : Type} (p : Program Op Reply α) (f : α → Program Op Reply β)
      (g : β → Program Op Reply γ) : p >>= f >>= g = p >>= fun a => f a >>= g := by
    induction p with
    | done a => rfl
    | request op next ih => simp only [request_bind,ih]
  LawfulMonad.mk' _ bind_done (fun _ _ => rfl) bind_assoc

/-- One call, answered by its reply. -/
def call (op : Op) : Program Op Reply (Reply op) := request op done

section Exec

variable (step : σ → (op : Op) → Reply op → σ → Prop)

/-- The runs of a program on its own: from a state to a value and a state. -/
def Exec : Program Op Reply α → σ → α → σ → Prop
  | done a,s,b,t => b = a ∧ t = s
  | request op next,s,b,t => ∃ r u, step s op r u ∧ Exec (next r) u b t

@[simp] theorem exec_done {a b : α} {s t : σ} :
    Exec step (done a : Program Op Reply α) s b t ↔ b = a ∧ t = s := Iff.rfl

@[simp] theorem exec_request {op : Op} {next : Reply op → Program Op Reply α} {s t : σ} {b : α} :
    Exec step (request op next) s b t ↔ ∃ r u, step s op r u ∧ Exec step (next r) u b t := Iff.rfl

variable {step}

/-- A run stays a run where more steps are possible. -/
theorem Exec.mono {step' : σ → (op : Op) → Reply op → σ → Prop}
    (h : ∀ s op r t, step s op r t → step' s op r t) {p : Program Op Reply α} {s t : σ} {b : α}
    (hp : Exec step p s b t) : Exec step' p s b t := by
  induction p generalizing s with
  | done a => exact hp
  | request op next ih =>
    obtain ⟨r,u,hstep,hnext⟩ := hp
    exact ⟨r,u,h _ _ _ _ hstep,ih r hnext⟩

end Exec

section Run

variable (perform : (op : Op) → σ → Reply op × σ)

/-- The run of a program in a world where every call has one outcome. -/
def run : Program Op Reply α → σ → α × σ
  | done a,s => (a,s)
  | request op next,s => run (next (perform op s).1) (perform op s).2

@[simp] theorem run_done (a : α) (s : σ) : run perform (done a : Program Op Reply α) s = (a,s) := rfl
@[simp] theorem run_request (op : Op) (next : Reply op → Program Op Reply α) (s : σ) :
    run perform (request op next) s = run perform (next (perform op s).1) (perform op s).2 := rfl

theorem exec_perform {p : Program Op Reply α} {s t : σ} {a : α} :
    Exec (fun s op r t => perform op s = (r,t)) p s a t ↔ run perform p s = (a,t) := by
  induction p generalizing s with
  | done b => simp [eq_comm]
  | request op next ih =>
    simp only [exec_request,run_request,ih]
    constructor
    · rintro ⟨r,u,hstep,hnext⟩
      rw [hstep]
      exact hnext
    · intro h
      exact ⟨_,_,rfl,h⟩

end Run

/-! Conditions on a program, worked out backwards through its calls. -/

/-- What must hold before a call for a condition on its reply and the state behind it. -/
structure Transformer (Op : Type) (Reply : Op → Type) (σ : Type) where
  pre : (op : Op) → (Reply op → σ → Prop) → σ → Prop
  mono : ∀ {op : Op} {P Q : Reply op → σ → Prop} {s : σ}, (∀ r t, P r t → Q r t) →
    pre op P s → pre op Q s

/-- The condition holds after every step of a relation. -/
def Transformer.after (step : σ → (op : Op) → Reply op → σ → Prop) : Transformer Op Reply σ where
  pre op Q s := ∀ r t, step s op r t → Q r t
  mono h hP r t hstep := h r t (hP r t hstep)

/-- The condition holds after the one outcome of each call. -/
def Transformer.outcome (perform : (op : Op) → σ → Reply op × σ) : Transformer Op Reply σ where
  pre op Q s := Q (perform op s).1 (perform op s).2
  mono h hP := h _ _ hP

section Wp

variable (T : Transformer Op Reply σ)

def wp : Program Op Reply α → (α → σ → Prop) → σ → Prop
  | done a,Q => Q a
  | request op next,Q => T.pre op fun r => wp (next r) Q

@[simp] theorem wp_done (a : α) (Q : α → σ → Prop) :
    wp T (done a : Program Op Reply α) Q = Q a := rfl
@[simp] theorem wp_request (op : Op) (next : Reply op → Program Op Reply α) (Q : α → σ → Prop) :
    wp T (request op next) Q = T.pre op fun r => wp T (next r) Q := rfl

theorem wp_bind (p : Program Op Reply α) (f : α → Program Op Reply β) (Q : β → σ → Prop) :
    wp T (p >>= f) Q = wp T p fun a => wp T (f a) Q := by
  induction p with
  | done a => rfl
  | request op next ih =>
    simp only [request_bind,wp_request]
    congr 1
    funext r
    exact ih r

variable {T}

theorem wp_mono {p : Program Op Reply α} {P Q : α → σ → Prop} {s : σ}
    (h : ∀ a t, P a t → Q a t) (hp : wp T p P s) : wp T p Q s := by
  induction p generalizing s with
  | done a => exact h a s hp
  | request op next ih => exact T.mono (fun r t => ih r) hp

theorem wp_after {step : σ → (op : Op) → Reply op → σ → Prop} {p : Program Op Reply α}
    {Q : α → σ → Prop} {s : σ} :
    wp (.after step) p Q s ↔ ∀ a t, Exec step p s a t → Q a t := by
  induction p generalizing s with
  | done a => simp
  | request op next ih =>
    constructor
    · rintro h a t ⟨r,u,hstep,hnext⟩
      exact (ih r).mp (h r u hstep) a t hnext
    · intro h r u hstep
      exact (ih r).mpr fun a t hnext => h a t ⟨r,u,hstep,hnext⟩

theorem wp_outcome {perform : (op : Op) → σ → Reply op × σ} {p : Program Op Reply α}
    {Q : α → σ → Prop} {s : σ} :
    wp (.outcome perform) p Q s ↔ Q (run perform p s).1 (run perform p s).2 := by
  induction p generalizing s with
  | done a => rfl
  | request op next ih => exact ih _

end Wp

/-! Programs that may end in an error. -/

abbrev Fallible (Op : Type) (Reply : Op → Type) (ε α : Type) := ExceptT ε (Program Op Reply) α

/-- A call that cannot fail. -/
def ask (op : Op) : Fallible Op Reply ε (Reply op) := ExceptT.lift (call op)

/-- The outcome of a program as a value, to be matched on. -/
def attempt (x : Fallible Op Reply ε α) : Fallible Op Reply ε (Except ε α) :=
  ExceptT.lift x.run

/-- The outcome of a program, changed by a function. -/
def mapResult (f : Except ε α → Except ε β) (x : Fallible Op Reply ε α) : Fallible Op Reply ε β :=
  ExceptT.mk (do return f (← x.run))

/-- A pure step of a program. -/
def liftResult (r : Except ε α) : Fallible Op Reply ε α := ExceptT.mk (done r)

@[simp] theorem liftResult_ok_bind {a : α} {f : α → Fallible Op Reply ε β} :
    (liftResult (.ok a) >>= f) = f a := rfl

section Ensures

variable (T : Transformer Op Reply σ)

/-- From the state, the program ends as the postcondition says. -/
def Ensures (x : Fallible Op Reply ε α) (s : σ) (Q : Except ε α → σ → Prop) : Prop :=
  wp T x.run Q s

variable {T}

theorem Ensures.mono {x : Fallible Op Reply ε α} {s : σ} {P Q : Except ε α → σ → Prop}
    (hx : Ensures T x s P) (h : ∀ r t, P r t → Q r t) : Ensures T x s Q :=
  wp_mono h hx

@[simp] theorem ensures_pure {a : α} {s : σ} {Q : Except ε α → σ → Prop} :
    Ensures T (pure a) s Q ↔ Q (.ok a) s := Iff.rfl

@[simp] theorem ensures_throw {e : ε} {s : σ} {Q : Except ε α → σ → Prop} :
    Ensures T (throw e) s Q ↔ Q (.error e) s := Iff.rfl

theorem ensures_ite {c : Prop} [Decidable c] {x y : Fallible Op Reply ε α} {s : σ}
    {Q : Except ε α → σ → Prop} :
    Ensures T (if c then x else y) s Q ↔ (c → Ensures T x s Q) ∧ (¬ c → Ensures T y s Q) := by
  by_cases h : c <;> simp [h]

/-- What holds after the rest of a program that only goes on after a success. -/
def Then (T : Transformer Op Reply σ) (f : α → Fallible Op Reply ε β)
    (Q : Except ε β → σ → Prop) : Except ε α → σ → Prop
  | .ok a,t => Ensures T (f a) t Q
  | .error e,t => Q (.error e) t

@[simp] theorem then_ok {f : α → Fallible Op Reply ε β} {Q : Except ε β → σ → Prop} {a : α} {t : σ} :
    Then T f Q (.ok a) t ↔ Ensures T (f a) t Q := Iff.rfl
@[simp] theorem then_error {f : α → Fallible Op Reply ε β} {Q : Except ε β → σ → Prop} {e : ε}
    {t : σ} : Then T f Q (.error e) t ↔ Q (.error e) t := Iff.rfl

theorem ensures_bind {x : Fallible Op Reply ε α} {f : α → Fallible Op Reply ε β} {s : σ}
    {Q : Except ε β → σ → Prop} :
    Ensures T (x >>= f) s Q ↔ Ensures T x s (Then T f Q) := by
  have hrun : (x >>= f).run = x.run >>= ExceptT.bindCont f := rfl
  have hthen : (fun r => wp T (ExceptT.bindCont f r) Q) = Then T f Q := by
    funext r
    cases r <;> rfl
  unfold Ensures
  rw [hrun,wp_bind,hthen]

theorem ensures_bind_assoc {γ : Type} {x : Fallible Op Reply ε α} {f : α → Fallible Op Reply ε β}
    {g : β → Fallible Op Reply ε γ} {s : σ} {Q : Except ε γ → σ → Prop} :
    Ensures T (x >>= fun a => f a >>= g) s Q ↔ Ensures T (x >>= f >>= g) s Q := by
  have hthen : Then T (fun a => f a >>= g) Q = Then T f (Then T g Q) := by
    funext r t
    cases r with
    | ok a => exact propext ensures_bind
    | error e => rfl
  rw [ensures_bind,ensures_bind,ensures_bind,hthen]

/-- A bind that only maps the result. -/
theorem ensures_map {x : Fallible Op Reply ε α} {f : α → β} {s : σ} {Q : Except ε β → σ → Prop} :
    Ensures T (x >>= fun a => pure (f a)) s Q ↔ Ensures T x s fun r t => Q (r.map f) t := by
  have hthen : Then T (fun a => pure (f a)) Q = fun r t => Q (r.map f) t := by
    funext r t
    cases r <;> rfl
  rw [ensures_bind,hthen]

/-- A bind from what its first part ensures. -/
theorem Ensures.bind {x : Fallible Op Reply ε α} {f : α → Fallible Op Reply ε β} {s : σ}
    {P : Except ε α → σ → Prop} {Q : Except ε β → σ → Prop} (hx : Ensures T x s P)
    (hok : ∀ a t, P (.ok a) t → Ensures T (f a) t Q) (herr : ∀ e t, P (.error e) t → Q (.error e) t) :
    Ensures T (x >>= f) s Q := by
  rw [ensures_bind]
  refine hx.mono fun r t hP => ?_
  cases r with
  | ok a => exact hok a t hP
  | error e => exact herr e t hP

theorem ensures_ask {op : Op} {s : σ} {Q : Except ε (Reply op) → σ → Prop} :
    Ensures T (ask op) s Q ↔ T.pre op (fun r => Q (.ok r)) s := Iff.rfl

@[simp] theorem ensures_liftResult {r : Except ε α} {s : σ} {Q : Except ε α → σ → Prop} :
    Ensures T (liftResult r) s Q ↔ Q r s := Iff.rfl

/-- A pure step that the program goes on from. -/
theorem ensures_check {r : Except ε α} {f : α → Fallible Op Reply ε β} {s : σ} {Q : Except ε β → σ → Prop} :
    Ensures T (liftResult r >>= f) s Q ↔
      (∀ a, r = .ok a → Ensures T (f a) s Q) ∧ ∀ e, r = .error e → Q (.error e) s := by
  rw [ensures_bind,ensures_liftResult]
  cases r with
  | ok a => exact ⟨fun h => ⟨fun _ ha => Except.ok.inj ha ▸ h,nofun⟩,fun h => h.1 a rfl⟩
  | error e => exact ⟨fun h => ⟨nofun,fun _ he => Except.error.inj he ▸ h⟩,fun h => h.2 e rfl⟩

@[simp] theorem ensures_attempt {x : Fallible Op Reply ε α} {s : σ}
    {Q : Except ε (Except ε α) → σ → Prop} :
    Ensures T (attempt x) s Q ↔ Ensures T x s fun r t => Q (.ok r) t := by
  have hrun : (attempt x).run = x.run >>= fun r => done (.ok r) := rfl
  unfold Ensures
  rw [hrun,wp_bind]
  rfl

@[simp] theorem ensures_mapResult {f : Except ε α → Except ε β} {x : Fallible Op Reply ε α} {s : σ}
    {Q : Except ε β → σ → Prop} :
    Ensures T (mapResult f x) s Q ↔ Ensures T x s fun r t => Q (f r) t := by
  have hrun : (mapResult f x).run = x.run >>= fun r => done (f r) := rfl
  unfold Ensures
  rw [hrun,wp_bind]
  rfl

/-- A loop keeps a condition on the items it has dealt with. -/
theorem ensures_foldlM {f : β → α → Fallible Op Reply ε β} {l : List α} {b : β} {s : σ}
    {I : List α → β → σ → Prop} {Q : Except ε β → σ → Prop} (hstart : I [] b s)
    (hstep : ∀ seen a rest, l = seen ++ a::rest → ∀ b s, I seen b s → Ensures T (f b a) s fun r t =>
      (∀ b', r = .ok b' → I (seen ++ [a]) b' t) ∧ ∀ e, r = .error e → Q (.error e) t)
    (hdone : ∀ b s, I l b s → Q (.ok b) s) : Ensures T (l.foldlM f b) s Q := by
  suffices hrest : ∀ rest seen, l = seen ++ rest → ∀ b s, I seen b s →
      Ensures T (rest.foldlM f b) s Q from hrest l [] rfl b s hstart
  intro rest
  induction rest with
  | nil =>
    intro seen hl b s hI
    rw [List.append_nil] at hl
    subst hl
    exact hdone b s hI
  | cons a rest ih =>
    intro seen hl b s hI
    rw [List.foldlM_cons]
    refine (hstep seen a rest hl b s hI).bind (fun b' t h => ?_) fun e t h => h.2 e rfl
    exact ih (seen ++ [a]) (by simp [hl]) b' t (h.1 b' rfl)

/-- What a program ensures holds of its every run. -/
theorem Ensures.of_exec {step : σ → (op : Op) → Reply op → σ → Prop} {x : Fallible Op Reply ε α}
    {s t : σ} {Q : Except ε α → σ → Prop} {r : Except ε α} (hx : Ensures (.after step) x s Q)
    (hexec : Exec step x.run s r t) : Q r t :=
  wp_after.mp hx r t hexec

end Ensures

/-! The states of a run between its calls, in any of which the process may be stopped. -/

section Moments

/-- The states that a program passes. -/
inductive Passes (step : σ → (op : Op) → Reply op → σ → Prop) : Program Op Reply α → σ → σ → Prop
  | now {p s} : Passes step p s s
  | later {op next s r t u} : step s op r t → Passes step (next r) t u → Passes step (request op next) s u

/-- The condition holds after every step of a relation, and so does an invariant. -/
def Transformer.keeping (step : σ → (op : Op) → Reply op → σ → Prop) (I : σ → Prop) : Transformer Op Reply σ where
  pre op Q s := ∀ r t, step s op r t → I t ∧ Q r t
  mono h hP r t hstep := ⟨(hP r t hstep).1,h r t (hP r t hstep).2⟩

variable {step : σ → (op : Op) → Reply op → σ → Prop} {I : σ → Prop} {p : Program Op Reply α} {s t u : σ}
  {Q : α → σ → Prop} {a : α}

theorem Passes.keeps (hpasses : Passes step p s u) (hp : wp (.keeping step I) p Q s) (hs : I s) : I u := by
  induction hpasses with
  | now => exact hs
  | later hstep _ ih =>
    obtain ⟨ht,hnext⟩ := hp _ _ hstep
    exact ih hnext ht

theorem wp_keeping_exec (hp : wp (.keeping step I) p Q s) (hexec : Exec step p s a t) : Q a t := by
  induction p generalizing s with
  | done b =>
    obtain ⟨rfl,rfl⟩ := hexec
    exact hp
  | request op next ih =>
    obtain ⟨r,v,hstep,hnext⟩ := hexec
    exact ih r (hp r v hstep).2 hnext

end Moments
end Program
end Avault.Foundation
