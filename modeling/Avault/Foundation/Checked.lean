import Avault.Foundation.Bytes

/-! Computations on machine words and slices. Where the program would stop with a panic, or go on for
ever, they end in a fault; an error is a result like any other. -/
namespace Avault.Foundation

inductive Fault
  /-- An index or a range outside of a slice. -/
  | index
  /-- A sum or a difference outside of its type. -/
  | overflow
  /-- A loop that needs more turns than it was given. -/
  | turns
deriving DecidableEq, Repr

abbrev Checked (ε α : Type) := ExceptT ε (Except Fault) α

namespace Checked

variable {ε α β : Type}

def fault (f : Fault) : Checked ε α := ExceptT.mk (.error f)

def lift (r : Except ε α) : Checked ε α := ExceptT.mk (.ok r)

/-- The sum of two words of a type with so many values. -/
def add (size a b : ℕ) : Checked ε ℕ := if a + b < size then return a + b else fault .overflow

def sub (a b : ℕ) : Checked ε ℕ := if b ≤ a then return a - b else fault .overflow

/-- A shift drops the bits that leave the word. -/
def shiftLeft (size a n : ℕ) : ℕ := (a <<< n) % size

/-- `slice[i]`. -/
def elem (slice : List α) (i : ℕ) : Checked ε α :=
  match slice[i]? with
  | some a => return a
  | none => fault .index

/-- `&slice[start..]`. -/
def suffix (slice : List α) (start : ℕ) : Checked ε (List α) :=
  if start ≤ slice.length then return slice.drop start else fault .index

/-- `&slice[start..stop]`. -/
def range (slice : List α) (start stop : ℕ) : Checked ε (List α) :=
  if start ≤ stop ∧ stop ≤ slice.length then return (slice.drop start).take (stop - start) else fault .index

/-- There is no fault, and this is the result. -/
def Clean (x : Checked ε α) (r : Except ε α) : Prop := x.run = .ok r

variable {x : Checked ε α} {r : Except ε α} {a b size : ℕ} {slice : List α} {i start stop : ℕ}

theorem clean_lift (r : Except ε α) : Clean (lift r) r := rfl

theorem clean_pure (a : α) : Clean (pure a : Checked ε α) (.ok a) := rfl

theorem Clean.bind {f : α → Checked ε β} {g : α → Except ε β} (hx : Clean x r) (hf : ∀ a, r = .ok a → Clean (f a) (g a)) :
    Clean (x >>= f) (r >>= g) := by
  change (x.run >>= ExceptT.bindCont f) = .ok (r >>= g)
  rw [show x.run = .ok r from hx]
  cases r with
  | error e => rfl
  | ok a => exact hf a rfl

/-- After a step whose result is another one in a different form. -/
theorem Clean.mapBind {γ : Type} {s : Except ε γ} {k : γ → α} {f : α → Checked ε β} {g : γ → Except ε β}
    (hx : Clean x (s.map k)) (hf : ∀ c, s = .ok c → Clean (f (k c)) (g c)) : Clean (x >>= f) (s >>= g) := by
  cases s with
  | error e => exact Clean.bind (g := fun _ => .error e) hx fun _ ha => by cases ha
  | ok c => exact Clean.bind (g := fun _ => g c) hx fun a ha => Except.ok.inj ha ▸ hf c rfl

/-- After a step that only has one outcome. -/
theorem Clean.next {f : α → Checked ε β} {a : α} {s : Except ε β} (hx : Clean x (.ok a)) (hf : Clean (f a) s) :
    Clean (x >>= f) s :=
  Clean.bind (g := fun _ => s) hx fun _ ha => Except.ok.inj ha ▸ hf

theorem Clean.eq (hx : Clean x r) {s : Except ε α} (hrs : r = s) : Clean x s := hrs ▸ hx

theorem clean_add (h : a + b < size) : Clean (add size a b : Checked ε ℕ) (.ok (a + b)) := by
  rw [add,if_pos h]
  rfl

theorem clean_sub (h : b ≤ a) : Clean (sub a b : Checked ε ℕ) (.ok (a - b)) := by
  rw [sub,if_pos h]
  rfl

theorem clean_elem (h : i < slice.length) : Clean (elem slice i : Checked ε α) (.ok slice[i]) := by
  rw [elem,List.getElem?_eq_getElem h]
  rfl

theorem clean_suffix (h : start ≤ slice.length) : Clean (suffix slice start : Checked ε (List α)) (.ok (slice.drop start)) := by
  rw [suffix,if_pos h]
  rfl

theorem clean_range (hstart : start ≤ stop) (hstop : stop ≤ slice.length) :
    Clean (range slice start stop : Checked ε (List α)) (.ok ((slice.drop start).take (stop - start))) := by
  rw [range,if_pos ⟨hstart,hstop⟩]
  rfl

end Checked
end Avault.Foundation
