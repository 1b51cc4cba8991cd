import Mathlib.Data.List.Infix
import Mathlib.Data.Nat.Notation
import Mathlib.Algebra.BigOperators.Group.List.Basic
import Mathlib.Tactic.Ring

/-! Leftmost non-overlapping occurrences of a needle in a list, what is left between them, and
when a marker put in their place makes no new occurrence of a needle. -/
namespace Avault.Foundation.Replace

variable {α : Type*}

/-- The stretches of a list between the leftmost non-overlapping occurrences of a needle. -/
inductive Leftmost (needle : List α) : List α → List (List α) → Prop
  | last {rest} : ¬ needle <:+: rest → Leftmost needle rest [rest]
  | next {before rest stretches} :
    (∀ i < before.length, ¬ needle <+: (before ++ needle ++ rest).drop i) →
    Leftmost needle rest stretches → Leftmost needle (before ++ needle ++ rest) (before::stretches)

variable {needle marker body : List α} {stretches : List (List α)}

namespace Leftmost

theorem ne_nil (h : Leftmost needle body stretches) : stretches ≠ [] := by
  cases h <;> exact List.cons_ne_nil _ _

theorem intercalate (h : Leftmost needle body stretches) : needle.intercalate stretches = body := by
  induction h with
  | last _ => exact List.intercalate_singleton
  | next _ hrest ih => rw [List.intercalate_cons_of_ne_nil hrest.ne_nil,ih]

theorem mem_isInfix (h : Leftmost needle body stretches) : ∀ s ∈ stretches, s <:+: body := by
  induction h with
  | last _ =>
    intro s hs
    rw [List.mem_singleton.mp hs]
  | @next before rest stretches _ _ ih =>
    intro s hs
    obtain rfl | hs := List.mem_cons.mp hs
    · exact ((List.prefix_append s needle).trans (List.prefix_append _ rest)).isInfix
    · exact (ih s hs).trans (List.suffix_append _ rest).isInfix

/-- No stretch holds the needle. -/
theorem not_occurs (hneedle : needle ≠ []) (h : Leftmost needle body stretches) :
    ∀ s ∈ stretches, ¬ needle <:+: s := by
  induction h with
  | last hrest =>
    intro s hs
    rwa [List.mem_singleton.mp hs]
  | @next before rest stretches hbefore _ ih =>
    intro s hs
    obtain rfl | hs := List.mem_cons.mp hs
    · rintro ⟨a,b,hab⟩
      have hpos : 0 < needle.length := List.length_pos_iff.mpr hneedle
      have hlength := congrArg List.length hab
      simp only [List.length_append] at hlength
      refine hbefore a.length (by omega) ?_
      rw [← hab,List.append_assoc,List.append_assoc,List.append_assoc,List.drop_left]
      exact List.prefix_append _ _
    · exact ih s hs

end Leftmost

theorem length_intercalate (sep : List α) (hne : stretches ≠ []) : (sep.intercalate stretches).length =
    (stretches.map List.length).sum + (stretches.length-1)*sep.length := by
  induction stretches with
  | nil => exact absurd rfl hne
  | cons s stretches ih =>
    by_cases hrest : stretches = []
    · subst hrest
      simp
    · have hpos : 0 < stretches.length := List.length_pos_iff.mpr hrest
      obtain ⟨n,hn⟩ := Nat.exists_eq_succ_of_ne_zero hpos.ne'
      rw [List.intercalate_cons_of_ne_nil hrest,List.length_append,List.length_append,ih hrest,hn]
      simp only [List.map_cons,List.sum_cons,List.length_cons,hn,Nat.succ_eq_add_one,Nat.add_sub_cancel]
      ring

/-- A needle that neither lies in the marker, nor around it, nor across one of its ends. -/
structure Separated (needle marker : List α) : Prop where
  ne_nil : needle ≠ []
  not_inside : ¬ needle <:+: marker
  not_around : ¬ marker <:+: needle
  not_behind : ∀ i < needle.length, 0 < i → ¬ needle.take i <:+ marker
  not_before : ∀ i < needle.length, 0 < i → ¬ needle.drop i <+: marker

/-- An occurrence of a separated needle lies on one side of the marker. -/
theorem Separated.occurs_append {a b : List α} (h : Separated needle marker)
    (hoccurs : needle <:+: a ++ marker ++ b) : needle <:+: a ∨ needle <:+: b := by
  obtain ⟨s,t,hst⟩ := hoccurs
  rw [List.append_assoc,List.append_assoc] at hst
  obtain ⟨u,rfl,hu⟩ | ⟨u,rfl,hu⟩ := List.append_eq_append_iff.mp hst
  · -- it begins in front of the marker
    obtain ⟨v,rfl,-⟩ | ⟨v,rfl,hv⟩ := List.append_eq_append_iff.mp hu
    · exact .inl ⟨s,v,List.append_assoc ..⟩
    obtain ⟨w,rfl,-⟩ | ⟨w,rfl,-⟩ := List.append_eq_append_iff.mp hv
    · exact absurd ⟨u,w,List.append_assoc ..⟩ h.not_around
    by_cases hu : u = []
    · subst hu
      exact absurd ⟨[],w,rfl⟩ h.not_inside
    by_cases hv : v = []
    · subst hv
      exact .inl ⟨s,[],by simp⟩
    · have hpos := List.length_pos_iff.mpr hv
      refine absurd ?_ (h.not_before u.length ?_ (List.length_pos_iff.mpr hu))
      · rw [List.drop_left]
        exact List.prefix_append v w
      · rw [List.length_append]
        omega
  · -- it begins in the marker or behind it
    obtain ⟨v,rfl,rfl⟩ | ⟨v,rfl,hv⟩ := List.append_eq_append_iff.mp hu
    · exact .inr ⟨v,t,List.append_assoc ..⟩
    obtain ⟨w,rfl,-⟩ | ⟨w,rfl,rfl⟩ := List.append_eq_append_iff.mp hv
    · exact absurd ⟨u,w,List.append_assoc ..⟩ h.not_inside
    by_cases hv : v = []
    · subst hv
      exact .inr ⟨[],t,rfl⟩
    by_cases hw : w = []
    · subst hw
      exact absurd ⟨u,[],by simp⟩ h.not_inside
    · have hpos := List.length_pos_iff.mpr hw
      refine absurd ?_ (h.not_behind v.length ?_ (List.length_pos_iff.mpr hv))
      · rw [List.take_left]
        exact List.suffix_append u v
      · rw [List.length_append]
        omega

/-- Between markers, a separated needle only occurs where a stretch holds it. -/
theorem Separated.occurs_intercalate (h : Separated needle marker)
    (hoccurs : needle <:+: marker.intercalate stretches) : ∃ s ∈ stretches, needle <:+: s := by
  induction stretches with
  | nil => exact absurd (List.infix_nil.mp hoccurs) h.ne_nil
  | cons s stretches ih =>
    by_cases hrest : stretches = []
    · subst hrest
      rw [List.intercalate_singleton] at hoccurs
      exact ⟨s,List.mem_cons_self,hoccurs⟩
    · rw [List.intercalate_cons_of_ne_nil hrest] at hoccurs
      obtain hs | hoccurs := h.occurs_append hoccurs
      · exact ⟨s,List.mem_cons_self,hs⟩
      · obtain ⟨s',hs',hoccurs⟩ := ih hoccurs
        exact ⟨s',List.mem_cons_of_mem s hs',hoccurs⟩

/-- A list that does not hold the needle does not hold it after a replacement either. -/
theorem Separated.not_occurs_replaced {other : List α} (h : Separated needle marker)
    (hbody : ¬ needle <:+: body) (hleftmost : Leftmost other body stretches) :
    ¬ needle <:+: marker.intercalate stretches := by
  intro hoccurs
  obtain ⟨s,hs,hneedle⟩ := h.occurs_intercalate hoccurs
  exact hbody (hneedle.trans (hleftmost.mem_isInfix s hs))

end Avault.Foundation.Replace
