import Avault.Foundation.Program
import Mathlib.Data.Nat.Notation

/-! Programs with one call made to fail, chosen by how many calls that can fail come before. -/
namespace Avault.Foundation
open Program

variable {Op σ ε α β : Type} {Reply : Op → Type}

/-- A world, with the number of calls that still succeed before the fault. -/
structure Faulty (σ : Type) where
  world : σ
  left : Option ℕ

section Perform

variable (perform : (op : Op) → σ → Reply op × σ) (failure : (op : Op) → Option (Reply op))

/-- The outcome of a call, or its failure where the fault strikes. -/
def performFaulty (op : Op) (s : Faulty σ) : Reply op × Faulty σ :=
  match failure op,s.left with
  | some r,some 0 => (r,⟨s.world,none⟩)
  | some _,some (n+1) => ((perform op s.world).1,⟨(perform op s.world).2,some n⟩)
  | _,left => ((perform op s.world).1,⟨(perform op s.world).2,left⟩)

/-- The run of a program whose call number `n`, counted from zero, fails. -/
def runFault (n : ℕ) (p : Program Op Reply α) (s : σ) : α × σ :=
  ((run (performFaulty perform failure) p ⟨s,some n⟩).1,
    (run (performFaulty perform failure) p ⟨s,some n⟩).2.world)

end Perform

abbrev Program.Transformer.faulty (perform : (op : Op) → σ → Reply op × σ)
    (failure : (op : Op) → Option (Reply op)) : Transformer Op Reply (Faulty σ) :=
  .outcome (performFaulty perform failure)

section Faulty

variable {perform : (op : Op) → σ → Reply op × σ} {failure : (op : Op) → Option (Reply op)}

theorem performFaulty_none {op : Op} {w : σ} :
    performFaulty perform failure op ⟨w,none⟩ = ((perform op w).1,⟨(perform op w).2,none⟩) := by
  unfold performFaulty
  cases failure op <;> rfl

theorem performFaulty_zero {op : Op} {w : σ} {r : Reply op} (h : failure op = some r) :
    performFaulty perform failure op ⟨w,some 0⟩ = (r,⟨w,none⟩) := by
  simp only [performFaulty,h]

theorem performFaulty_succ {op : Op} {w : σ} {r : Reply op} {n : ℕ} (h : failure op = some r) :
    performFaulty perform failure op ⟨w,some (n+1)⟩ = ((perform op w).1,⟨(perform op w).2,some n⟩) := by
  simp only [performFaulty,h]

theorem performFaulty_sure {op : Op} {s : Faulty σ} (h : failure op = none) :
    performFaulty perform failure op s = ((perform op s.world).1,⟨(perform op s.world).2,s.left⟩) := by
  simp only [performFaulty,h]

/-- A program with one fault ends as without one, as long as the fault has not struck, and as
with any failures after that. -/
theorem wp_faulty {clean faults : σ → (op : Op) → Reply op → σ → Prop}
    (hclean : ∀ op w, clean w op (perform op w).1 (perform op w).2)
    (hperform : ∀ op w, faults w op (perform op w).1 (perform op w).2)
    (hfailure : ∀ op w r, failure op = some r → faults w op r w) {p : Program Op Reply α}
    {P Q : α → σ → Prop} {s : Faulty σ} (hP : wp (.after clean) p P s.world)
    (hQ : wp (.after faults) p Q s.world) :
    wp (.faulty perform failure) p
      (fun a t => P a t.world ∧ t.left.isSome = s.left.isSome ∨
        Q a t.world ∧ t.left = none ∧ s.left.isSome = true) s := by
  have hnone {p : Program Op Reply α} {w : σ} (h : wp (.after faults) p Q w) :
      wp (.faulty perform failure) p (fun a t => Q a t.world ∧ t.left = none) ⟨w,none⟩ := by
    induction p generalizing w with
    | done a => exact ⟨h,rfl⟩
    | request op next ih =>
      simp only [wp_request,Transformer.outcome,performFaulty_none]
      exact ih _ (h _ _ (hperform op w))
  induction p generalizing s with
  | done a => exact .inl ⟨hP,rfl⟩
  | request op next ih =>
    obtain ⟨w,left⟩ := s
    have hnext : wp (.faulty perform failure) (next (perform op w).1) (fun a t =>
        P a t.world ∧ t.left.isSome = left.isSome ∨ Q a t.world ∧ t.left = none ∧ left.isSome = true)
        ⟨(perform op w).2,left⟩ :=
      ih _ (s := ⟨(perform op w).2,left⟩) (hP _ _ (hclean op w)) (hQ _ _ (hperform op w))
    cases hfail : failure op with
    | none =>
      simp only [wp_request,Transformer.outcome,performFaulty_sure hfail]
      exact hnext
    | some r =>
      match left with
      | none =>
        simp only [wp_request,Transformer.outcome,performFaulty_none]
        exact hnext
      | some 0 =>
        simp only [wp_request,Transformer.outcome,performFaulty_zero hfail]
        exact wp_mono (fun a t h => .inr ⟨h.1,h.2,rfl⟩) (hnone (hQ _ _ (hfailure op w r hfail)))
      | some (n+1) =>
        simp only [wp_request,Transformer.outcome,performFaulty_succ hfail]
        exact ih (s := ⟨(perform op w).2,some n⟩) _ (hP _ _ (hclean op w)) (hQ _ _ (hperform op w))

/-! Programs that make a fixed number of calls, whatever their replies. -/

/-- How such a program of `m` calls ends in `a`. A call that is soft fails without notice, any
other ends the program; `P n` holds of the world after `n` calls. -/
inductive StraightOutcome (a : α) (m : ℕ) (soft : List ℕ) (P : ℕ → σ → Prop) :
    Option ℕ → Except ε α → Faulty σ → Prop
  | clean {w} : P m w → StraightOutcome a m soft P none (.ok a) ⟨w,none⟩
  | ahead {n w} : P m w → StraightOutcome a m soft P (some (m+n)) (.ok a) ⟨w,some n⟩
  | unnoticed {n w} : n ∈ soft → P m w → StraightOutcome a m soft P (some n) (.ok a) ⟨w,none⟩
  | struck {n e w} : n < m → n ∉ soft → P n w →
    StraightOutcome a m soft P (some n) (.error e) ⟨w,none⟩

variable (perform failure) in
structure Straight (x : Fallible Op Reply ε α) (w : σ) (a : α) (m : ℕ) (soft : List ℕ)
    (P : ℕ → σ → Prop) : Prop where
  soft_lt : ∀ n ∈ soft, n < m
  ends : ∀ left, Ensures (.faulty perform failure) x ⟨w,left⟩ (StraightOutcome a m soft P left)

variable {x : Fallible Op Reply ε α} {f : α → Fallible Op Reply ε β} {w : σ} {a : α} {b : β}
  {m k : ℕ} {soft soft' : List ℕ} {P P' : ℕ → σ → Prop}

theorem Straight.pure (h : P 0 w) : Straight perform failure (pure a : Fallible Op Reply ε α) w a 0 [] P := by
  refine ⟨nofun,fun left => ?_⟩
  cases left with
  | none => exact ensures_pure.mpr (.clean h)
  | some n =>
    have hahead : StraightOutcome a 0 [] P (some (0+n)) (.ok a : Except ε α) ⟨w,some n⟩ := .ahead h
    rw [Nat.zero_add] at hahead
    exact ensures_pure.mpr hahead

/-- The calls of the second part are counted on from those of the first. -/
theorem Straight.bind (hx : Straight perform failure x w a m soft P)
    (hf : ∀ t, P m t → Straight perform failure (f a) t b k soft' P') (hsoft : ∀ n ∈ soft', n < k) :
    Straight perform failure (x >>= f) w b (m+k) (soft ++ soft'.map (m+·))
      fun n t => if n < m then P n t else P' (n-m) t := by
  have hpast (n : ℕ) : ¬ m+n < m := by omega
  have hdone {n : ℕ} {t : σ} (h : P' n t) : if m+n < m then P (m+n) t else P' (m+n-m) t := by
    rw [if_neg (hpast n),Nat.add_sub_cancel_left]
    exact h
  refine ⟨fun n hn => ?_,fun left => ensures_bind.mpr (Ensures.mono (hx.ends left) ?_)⟩
  · obtain hn | hn := List.mem_append.mp hn
    · exact Nat.lt_of_lt_of_le (hx.soft_lt n hn) (Nat.le_add_right m k)
    · obtain ⟨l,hl,rfl⟩ := List.mem_map.mp hn
      exact Nat.add_lt_add_left (hsoft l hl) m
  intro r t h
  cases h with
  | @clean t ht =>
    apply Ensures.mono ((hf t ht).ends none)
    intro r u h
    cases h with
    | clean hu => exact .clean (hdone hu)
  | @ahead n t ht =>
    apply Ensures.mono ((hf t ht).ends (some n))
    intro r u h
    cases h with
    | ahead hu =>
      rw [← Nat.add_assoc]
      exact .ahead (hdone hu)
    | unnoticed hn hu =>
      exact .unnoticed (List.mem_append_right soft (List.mem_map_of_mem hn)) (hdone hu)
    | struck hn hs hu =>
      refine .struck (Nat.add_lt_add_left hn m) (fun h => ?_) (hdone hu)
      obtain h | h := List.mem_append.mp h
      · exact hpast n (hx.soft_lt _ h)
      · obtain ⟨l,hl,heq⟩ := List.mem_map.mp h
        exact hs (Nat.add_left_cancel heq ▸ hl)
  | @unnoticed n t hn ht =>
    apply Ensures.mono ((hf t ht).ends none)
    intro r u h
    cases h with
    | clean hu => exact .unnoticed (List.mem_append_left _ hn) (hdone hu)
  | @struck n e t hn hs ht =>
    refine .struck (Nat.lt_of_lt_of_le hn (Nat.le_add_right m k)) (fun h => ?_) (by rwa [if_pos hn])
    obtain h | h := List.mem_append.mp h
    · exact hs h
    · obtain ⟨l,_,rfl⟩ := List.mem_map.mp h
      exact hpast l hn

theorem Straight.mono (hx : Straight perform failure x w a m soft P)
    (hP : ∀ n t, n ≤ m → P n t → P' n t) : Straight perform failure x w a m soft P' := by
  refine ⟨hx.soft_lt,fun left => Ensures.mono (hx.ends left) fun r t h => ?_⟩
  cases h with
  | clean ht => exact .clean (hP m _ (Nat.le_refl m) ht)
  | ahead ht => exact .ahead (hP m _ (Nat.le_refl m) ht)
  | unnoticed hn ht => exact .unnoticed hn (hP m _ (Nat.le_refl m) ht)
  | struck hn hs ht => exact .struck hn hs (hP _ _ (Nat.le_of_lt hn) ht)

/-- A change of the errors alone. -/
theorem Straight.mapResult {g : Except ε α → Except ε α} (hok : ∀ a, g (.ok a) = .ok a)
    (herr : ∀ e, ∃ e', g (.error e) = .error e') (hx : Straight perform failure x w a m soft P) :
    Straight perform failure (mapResult g x) w a m soft P := by
  refine ⟨hx.soft_lt,fun left => ensures_mapResult.mpr (Ensures.mono (hx.ends left) fun r t h => ?_)⟩
  cases h with
  | clean ht =>
    rw [hok]
    exact .clean ht
  | ahead ht =>
    rw [hok]
    exact .ahead ht
  | unnoticed hn ht =>
    rw [hok]
    exact .unnoticed hn ht
  | @struck n e t hn hs ht =>
    obtain ⟨e',h⟩ := herr e
    rw [h]
    exact .struck hn hs ht

end Faulty
end Avault.Foundation
