import Mathlib.Data.List.Basic

/-! Prefix-free codes as relations between values and words. A relation is used
because one value may have several words, as a JSON string has. -/
namespace Avault.Foundation

variable {α β : Type*}

/-- A word of the code at the front of a text determines its value and where it ends. -/
def PrefixFree (code : α → List β → Prop) : Prop :=
  ∀ ⦃x y a b r s⦄, code x a → code y b → a ++ r = b ++ s → x = y ∧ a = b ∧ r = s

/-- The words of a list of values, one after the other and with nothing between them. -/
inductive Sequence (code : α → List β → Prop) : List α → List β → Prop
  | nil : Sequence code [] []
  | cons {x a xs w} : code x a → Sequence code xs w → Sequence code (x::xs) (a ++ w)

/-- Words that avoid a stop symbol end where it first stands. -/
theorem append_stop_inj {c : β} {a b s t : List β} (ha : c ∉ a) (hb : c ∉ b)
    (h : a ++ c::s = b ++ c::t) : a = b ∧ s = t := by
  induction a generalizing b with
  | nil =>
    cases b with
    | nil => exact ⟨rfl,(List.cons.inj h).2⟩
    | cons y b => exact absurd (List.mem_cons.mpr (.inl (List.cons.inj h).1)) hb
  | cons x a ih =>
    cases b with
    | nil => exact absurd (List.mem_cons.mpr (.inl (List.cons.inj h).1.symm)) ha
    | cons y b =>
      obtain ⟨rfl,hrest⟩ := List.cons.inj h
      obtain ⟨rfl,hst⟩ := ih (List.not_mem_of_not_mem_cons ha) (List.not_mem_of_not_mem_cons hb) hrest
      exact ⟨rfl,hst⟩

namespace PrefixFree

variable {code : α → List β → Prop}

/-- A sequence can be cut before a stop mark that no word of the code begins with. -/
theorem sequence_terminated (h : PrefixFree code) {stop : List β}
    (hstop : ∀ x a r s, code x a → a ++ r ≠ stop ++ s) {xs ys v w r s}
    (hv : Sequence code xs v) (hw : Sequence code ys w)
    (heq : v ++ (stop ++ r) = w ++ (stop ++ s)) : xs = ys ∧ v = w ∧ r = s := by
  induction hv generalizing ys w with
  | nil =>
    cases hw with
    | nil => exact ⟨rfl,rfl,List.append_cancel_left heq⟩
    | cons hy _ =>
      rw [List.nil_append,List.append_assoc] at heq
      exact absurd heq.symm (hstop _ _ _ _ hy)
  | cons hx _ ih =>
    cases hw with
    | nil =>
      rw [List.nil_append,List.append_assoc] at heq
      exact absurd heq (hstop _ _ _ _ hx)
    | cons hy hys =>
      rw [List.append_assoc,List.append_assoc] at heq
      obtain ⟨rfl,rfl,hrest⟩ := h hx hy heq
      obtain ⟨rfl,rfl,rfl⟩ := ih hys hrest
      exact ⟨rfl,rfl,rfl⟩

/-- A sequence of known length needs no mark of its end. -/
theorem sequence_counted (h : PrefixFree code) {xs ys v w r s} (hv : Sequence code xs v)
    (hw : Sequence code ys w) (hlen : xs.length = ys.length) (heq : v ++ r = w ++ s) :
    xs = ys ∧ v = w ∧ r = s := by
  induction hv generalizing ys w with
  | nil =>
    cases hw with
    | nil => exact ⟨rfl,rfl,heq⟩
    | cons hy _ => cases hlen
  | cons hx _ ih =>
    cases hw with
    | nil => cases hlen
    | cons hy hys =>
      rw [List.append_assoc,List.append_assoc] at heq
      obtain ⟨rfl,rfl,hrest⟩ := h hx hy heq
      obtain ⟨rfl,rfl,rfl⟩ := ih hys (Nat.succ.inj hlen) hrest
      exact ⟨rfl,rfl,rfl⟩

/-- Nothing marks the end of the sequence here, so no word of the code may be empty. -/
theorem sequence_injective (h : PrefixFree code) (hne : ∀ x, ¬ code x []) {xs ys w}
    (hx : Sequence code xs w) (hy : Sequence code ys w) : xs = ys := by
  induction hx generalizing ys with
  | nil =>
    generalize hw : ([] : List β) = w at hy
    cases hy with
    | nil => rfl
    | cons hc _ =>
      obtain ⟨rfl,_⟩ := List.append_eq_nil_iff.mp hw.symm
      exact absurd hc (hne _)
  | @cons x a xs v hc _ ih =>
    generalize hw : a ++ v = w at hy
    cases hy with
    | nil =>
      obtain ⟨rfl,_⟩ := List.append_eq_nil_iff.mp hw
      exact absurd hc (hne _)
    | cons hd hys =>
      obtain ⟨rfl,_,rfl⟩ := h hc hd hw
      rw [ih hys]

/-- A sequence that goes on where the other one ends has no more words than that one, unless words are empty. -/
theorem sequence_cut (h : PrefixFree code) (hne : ∀ x, ¬ code x []) {xs ys v w r} (hv : Sequence code xs v)
    (hw : Sequence code ys w) (hlen : ys.length ≤ xs.length) (heq : v ++ r = w) : xs = ys ∧ r = [] := by
  induction hv generalizing ys w with
  | nil =>
    cases hw with
    | nil => exact ⟨rfl,heq⟩
    | cons => cases hlen
  | cons hx _ ih =>
    cases hw with
    | nil =>
      obtain ⟨hword,-⟩ := List.append_eq_nil_iff.mp heq
      obtain ⟨rfl,-⟩ := List.append_eq_nil_iff.mp hword
      exact absurd hx (hne _)
    | cons hy hys =>
      rw [List.append_assoc] at heq
      obtain ⟨rfl,-,hrest⟩ := h hx hy heq
      obtain ⟨rfl,hr⟩ := ih hys (Nat.le_of_succ_le_succ hlen) hrest
      exact ⟨rfl,hr⟩

end PrefixFree
end Avault.Foundation
