import Avault.Foundation.Interleaving
import Avault.Foundation.Parts

/-! Where the calls of a process come from: what its earlier calls show, which no later call takes back. -/
namespace Avault.Foundation
open Program

variable {Op Op' α β ε : Type} {Reply : Op → Type} {Reply' : Op' → Type}

/-- The calls that were made since, and what they show of the value if there is one. -/
def Grows (s : History Op Reply) (B : α → History Op Reply → Prop) : Except ε α → History Op Reply → Prop :=
  Gives (s <:+ ·) B

section Rules

variable {T : Transformer Op' Reply' (History Op Reply)} {s t : History Op Reply} {A B : α → History Op Reply → Prop}
  {C : β → History Op Reply → Prop}

theorem grows_reply {x : (op : Op) × Reply op} {r : Except ε α} (h : ∀ a, r = .ok a → B a (x::s)) :
    Grows s B r (x::s) := ⟨List.suffix_cons x s,h⟩

theorem grows_ok {a : α} (h : B a s) : Grows s B (.ok a : Except ε α) s := gives_ok (List.suffix_refl s) h

theorem grows_error {e : ε} : Grows s B (.error e : Except ε α) s := gives_error (List.suffix_refl s)

theorem Grows.weaken {r : Except ε α} (h : Grows s A r t) (hAB : ∀ a, A a t → B a t) : Grows s B r t :=
  ⟨h.known,fun a ha => hAB a (h.value a ha)⟩

theorem Grows.earlier {u : History Op Reply} {r : Except ε α} (h : Grows t B r u) (hst : s <:+ t) : Grows s B r u :=
  ⟨hst.trans h.known,h.value⟩

theorem grows_pure {a : α} (h : B a s) : Ensures T (pure a : Fallible Op' Reply' ε α) s (Grows s B) := grows_ok h

theorem grows_bind {x : Fallible Op' Reply' ε α} {f : α → Fallible Op' Reply' ε β} (hx : Ensures T x s (Grows s B))
    (hf : ∀ a t, s <:+ t → B a t → Ensures T (f a) t (Grows t C)) : Ensures T (x >>= f) s (Grows s C) := by
  refine hx.bind (fun a t h => ?_) fun e t h => gives_error h.known
  exact (hf a t h.known (h.value a rfl)).mono fun r u hu => hu.earlier h.known

/-- A pure step. -/
theorem grows_check {r : Except ε α} {f : α → Fallible Op' Reply' ε β}
    (hf : ∀ a, r = .ok a → Ensures T (f a) s (Grows s C)) : Ensures T (liftResult r >>= f) s (Grows s C) :=
  ensures_check.mpr ⟨hf,fun _ _ => grows_error⟩

theorem grows_liftResult {r : Except ε α} (h : ∀ a, r = .ok a → B a s) :
    Ensures T (liftResult r) s (Grows s B) := ⟨List.suffix_refl s,h⟩

theorem grows_mapResult {f : Except ε α → Except ε α} (hf : ∀ r a, f r = .ok a → r = .ok a) {x : Fallible Op' Reply' ε α}
    (hx : Ensures T x s (Grows s B)) : Ensures T (mapResult f x) s (Grows s B) := gives_mapResult hf hx

/-- A loop keeps what the calls show of the value it builds, as this is never taken back. -/
theorem grows_foldlM {f : β → α → Fallible Op' Reply' ε β} {l : List α} {b : β} (hstart : C b s)
    (hstep : ∀ a ∈ l, ∀ b t, C b t → Ensures T (f b a) t (Grows t C)) : Ensures T (l.foldlM f b) s (Grows s C) := by
  refine ensures_foldlM (I := fun _ b t => s <:+ t ∧ C b t) ⟨List.suffix_refl s,hstart⟩ ?_ fun b t h => ⟨h.1,fun _ hb => ?_⟩
  · intro seen a rest hl b t h
    have ha : a ∈ l := hl ▸ List.mem_append_right _ List.mem_cons_self
    refine (hstep a ha b t h.2).mono fun r u hu => ⟨fun b' hb' => ?_,fun e he => ?_⟩
    · exact ⟨h.1.trans hu.known,hu.value b' hb'⟩
    · subst he
      exact gives_error (h.1.trans hu.known)
  · cases hb
    exact h.2

variable {guard : History Op Reply → Op → Prop}

theorem grows_ask {op : Op} (hop : guard s op) :
    Ensures (.guarded guard) (ask op : Fallible Op Reply ε (Reply op)) s (Grows s fun r t => ⟨op,r⟩ ∈ t) := by
  refine ⟨hop,fun r => grows_reply fun a ha => ?_⟩
  cases ha
  exact List.mem_cons_self

end Rules

/-- Something that a history shows, and every longer one too. -/
def Lasts (B : History Op Reply → Prop) : Prop := ∀ {s t}, s <:+ t → B s → B t

section Trace

variable {P σ : Type} [DecidableEq P] {step : σ → (op : Op) → Reply op → σ → Prop} {guard : P → History Op Reply → Op → Prop}
  {Q : α → History Op Reply → Prop} {c d : Config P Op Reply α σ} {events : List (Event P Op Reply σ)}

/-- In a run of many processes, each call comes from where the program of its process takes it from. -/
theorem Run.origin (hrun : Run step c events d) (hstart : ∀ i, (c.process i).history = [])
    (hprogram : ∀ i, wp (.guarded (guard i)) (c.process i).program Q []) : ∀ ev ∈ events, guard ev.process ev.history ev.op := by
  intro ev hev
  obtain ⟨next,hreaches⟩ := (hrun.reaches hstart).2 ev hev
  exact hreaches.allowed (hprogram ev.process)

end Trace
end Avault.Foundation
