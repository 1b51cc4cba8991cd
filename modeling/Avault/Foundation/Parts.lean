import Avault.Foundation.Program

/-! Parts of programs: calls that are made as other calls, and a condition that every part keeps. -/
namespace Avault.Foundation
namespace Program

variable {Op Op' : Type} {Reply : Op → Type} {Reply' : Op' → Type} {α β σ ε : Type}

section Embed

variable (f : Op → Op') (reply : ∀ op, Reply' (f op) → Reply op)

/-- The program with each of its calls made as another one. -/
def embed : Program Op Reply α → Program Op' Reply' α
  | done a => done a
  | request op next => request (f op) fun r => embed (next (reply op r))

/-- What must hold before a call, where it is made as another one. -/
def Transformer.comap (T : Transformer Op' Reply' σ) : Transformer Op Reply σ where
  pre op Q := T.pre (f op) fun r => Q (reply op r)
  mono h hP := T.mono (fun r => h (reply _ r)) hP

variable {f reply}

theorem wp_embed {T : Transformer Op' Reply' σ} {p : Program Op Reply α} {Q : α → σ → Prop} :
    wp T (p.embed f reply) Q = wp (T.comap f reply) p Q := by
  induction p with
  | done a => rfl
  | request op next ih =>
    change T.pre (f op) (fun r => wp T ((next (reply op r)).embed f reply) Q) = _
    simp only [ih]
    rfl

theorem ensures_embed {T : Transformer Op' Reply' σ} {x : Fallible Op Reply ε α} {s : σ} {Q : Except ε α → σ → Prop} :
    Ensures T (ExceptT.mk (x.run.embed f reply)) s Q ↔ Ensures (T.comap f reply) x s Q :=
  iff_of_eq (congrFun wp_embed s)

end Embed

/-- What is known in any case, and what of the value if there is one. -/
structure Gives (A : σ → Prop) (B : α → σ → Prop) (r : Except ε α) (s : σ) : Prop where
  known : A s
  value : ∀ a, r = .ok a → B a s

section Gives

variable {T : Transformer Op Reply σ} {s : σ} {A A' : σ → Prop} {B B' : α → σ → Prop} {C : β → σ → Prop}

theorem gives_ok {a : α} (hs : A s) (ha : B a s) : Gives A B (.ok a : Except ε α) s := by
  refine ⟨hs,fun _ h => ?_⟩
  cases h
  exact ha

theorem gives_error {e : ε} (hs : A s) : Gives A B (.error e) s := by
  refine ⟨hs,fun _ h => ?_⟩
  cases h

theorem gives_bind {x : Fallible Op Reply ε α} {f : α → Fallible Op Reply ε β} (hx : Ensures T x s (Gives A B))
    (hf : ∀ a t, A t → B a t → Ensures T (f a) t (Gives A C)) : Ensures T (x >>= f) s (Gives A C) :=
  hx.bind (fun a t h => hf a t h.known (h.value a rfl)) fun _ _ h => gives_error h.known

/-- A change of the outcome that makes no new value. -/
theorem gives_mapResult {f : Except ε α → Except ε α} (hf : ∀ r a, f r = .ok a → r = .ok a) {x : Fallible Op Reply ε α}
    (hx : Ensures T x s (Gives A B)) : Ensures T (mapResult f x) s (Gives A B) :=
  ensures_mapResult.mpr (hx.mono fun r _ h => ⟨h.known,fun a ha => h.value a (hf r a ha)⟩)

end Gives
end Program
end Avault.Foundation
