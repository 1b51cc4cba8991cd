import Avault.Foundation.Program

/-! Programs that can end in one way only, and leave the state as it is. -/
namespace Avault.Foundation
namespace Program

variable {Op : Type} {Reply : Op → Type} {α β σ ε : Type}

/-- The program runs, and every run of it ends in this value. -/
def Yields (step : σ → (op : Op) → Reply op → σ → Prop) (p : Program Op Reply α) (s : σ) (a : α) : Prop :=
  ∀ b t, Exec step p s b t ↔ b = a ∧ t = s

variable {step : σ → (op : Op) → Reply op → σ → Prop} {s : σ}

theorem exec_bind {p : Program Op Reply α} {f : α → Program Op Reply β} {b : β} {t : σ} :
    Exec step (p >>= f) s b t ↔ ∃ a u, Exec step p s a u ∧ Exec step (f a) u b t := by
  induction p generalizing s with
  | done a =>
    rw [done_bind]
    constructor
    · exact fun h => ⟨a,s,⟨rfl,rfl⟩,h⟩
    · rintro ⟨_,_,⟨rfl,rfl⟩,h⟩
      exact h
  | request op next ih =>
    simp only [request_bind,exec_request,ih]
    constructor
    · rintro ⟨r,u,hstep,a,v,hfirst,hnext⟩
      exact ⟨a,v,⟨r,u,hstep,hfirst⟩,hnext⟩
    · rintro ⟨a,v,⟨r,u,hstep,hfirst⟩,hnext⟩
      exact ⟨r,u,hstep,a,v,hfirst,hnext⟩

/-- Where every call has an outcome, every program has a run. -/
theorem exists_exec (hstep : ∀ s op, ∃ r t, step s op r t) (p : Program Op Reply α) (s : σ) :
    ∃ a t, Exec step p s a t := by
  induction p generalizing s with
  | done a => exact ⟨a,s,rfl,rfl⟩
  | request op next ih =>
    obtain ⟨r,u,hcall⟩ := hstep s op
    obtain ⟨a,t,hnext⟩ := ih r u
    exact ⟨a,t,r,u,hcall,hnext⟩

theorem Yields.eq {p : Program Op Reply α} {a b : α} {t : σ} (hp : Yields step p s a) (h : Exec step p s b t) :
    b = a := ((hp b t).mp h).1

theorem yields_done (a : α) : Yields step (done a) s a := fun _ _ => Iff.rfl

theorem yields_call {op : Op} {r : Reply op} (h : ∀ r' t, step s op r' t ↔ r' = r ∧ t = s) :
    Yields step (call op) s r := by
  intro b t
  constructor
  · rintro ⟨r',u,hstep,rfl,rfl⟩
    exact (h _ _).mp hstep
  · rintro ⟨rfl,rfl⟩
    exact ⟨_,_,(h _ _).mpr ⟨rfl,rfl⟩,rfl,rfl⟩

theorem Yields.bind {p : Program Op Reply α} {f : α → Program Op Reply β} {a : α} {b : β} (hp : Yields step p s a)
    (hf : Yields step (f a) s b) : Yields step (p >>= f) s b := by
  intro c t
  rw [exec_bind]
  constructor
  · rintro ⟨a',u,hfirst,hnext⟩
    obtain ⟨rfl,rfl⟩ := (hp _ _).mp hfirst
    exact (hf _ _).mp hnext
  · exact fun h => ⟨a,s,(hp _ _).mpr ⟨rfl,rfl⟩,(hf _ _).mpr h⟩

section Fallible

variable {x : Fallible Op Reply ε α} {r : Except ε α}

theorem yields_liftResult (r : Except ε α) : Yields step (liftResult r : Fallible Op Reply ε α).run s r :=
  yields_done r

theorem Yields.mapResult {f : Except ε α → Except ε β} (hx : Yields step x.run s r) :
    Yields step (mapResult f x).run s (f r) := Yields.bind hx (yields_done _)

/-- A program yields what its parts do, put together in the same way. -/
theorem Yields.andThen {f : α → Fallible Op Reply ε β} {g : α → Except ε β} (hx : Yields step x.run s r)
    (hf : ∀ a, r = .ok a → Yields step (f a).run s (g a)) : Yields step (x >>= f).run s (r >>= g) := by
  refine Yields.bind hx ?_
  cases r with
  | error e => exact yields_done _
  | ok a => exact hf a rfl

theorem yields_foldlM {f : β → α → Fallible Op Reply ε β} {g : β → α → Except ε β}
    (hf : ∀ b a, Yields step (f b a).run s (g b a)) (l : List α) (b : β) :
    Yields step (l.foldlM f b).run s (l.foldlM g b) := by
  induction l generalizing b with
  | nil => exact yields_done _
  | cons a l ih => exact (hf b a).andThen fun b' _ => ih b'

end Fallible
end Program
end Avault.Foundation
