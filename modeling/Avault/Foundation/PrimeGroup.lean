import Mathlib.Data.ZMod.Basic

/-! Groups of prime order with a generator, whose points have a coordinate that does not tell a
point from its negation, and a parity that does. -/
namespace Avault.Foundation

structure PrimeGroup (n : ℕ) (Point X : Type) [AddCommGroup Point] where
  prime : n.Prime
  generator : Point
  order : addOrderOf generator = n
  generates : ∀ P : Point, ∃ k : ℕ, P = k • generator
  x : Point → X
  yIsOdd : Point → Bool
  x_neg : ∀ P : Point, P ≠ 0 → x (-P) = x P
  yIsOdd_neg : ∀ P : Point, P ≠ 0 → yIsOdd (-P) = !yIsOdd P

namespace PrimeGroup

variable {n : ℕ} {Point X : Type} [AddCommGroup Point] (C : PrimeGroup n Point X)

/-- The multiple of the generator by a scalar. -/
def mul (a : ZMod n) : Point := a.val • C.generator

include C in
theorem neZero : NeZero n := ⟨C.prime.ne_zero⟩

theorem mul_natCast (k : ℕ) : C.mul k = k • C.generator := by
  have := C.neZero
  have hmod := mod_addOrderOf_nsmul C.generator k
  rw [C.order] at hmod
  rw [mul,ZMod.val_natCast,hmod]

include C in
theorem natCast_val (a : ZMod n) : (a.val : ZMod n) = a := by
  have := C.neZero
  exact ZMod.natCast_zmod_val a

theorem mul_add (a b : ZMod n) : C.mul (a + b) = C.mul a + C.mul b := by
  rw [← C.natCast_val a,← C.natCast_val b,← Nat.cast_add,C.mul_natCast,C.mul_natCast,C.mul_natCast,add_nsmul]

@[simp] theorem mul_zero : C.mul 0 = 0 := by
  rw [← Nat.cast_zero,C.mul_natCast,zero_nsmul]

theorem mul_neg (a : ZMod n) : C.mul (-a) = -C.mul a := by
  refine (neg_eq_of_add_eq_zero_right ?_).symm
  rw [← C.mul_add,add_neg_cancel,C.mul_zero]

theorem mul_mul (a b : ZMod n) : C.mul (a * b) = a.val • C.mul b := by
  rw [← C.natCast_val a,← C.natCast_val b,← Nat.cast_mul,C.mul_natCast,C.mul_natCast,C.natCast_val,mul_nsmul']

theorem mul_eq_zero {a : ZMod n} : C.mul a = 0 ↔ a = 0 := by
  have := C.neZero
  constructor
  · intro h
    have hdvd := addOrderOf_dvd_of_nsmul_eq_zero h
    rw [C.order] at hdvd
    exact (ZMod.val_eq_zero a).mp (Nat.eq_zero_of_dvd_of_lt hdvd (ZMod.val_lt a))
  · rintro rfl
    exact C.mul_zero

/-- The one of a scalar and its negation whose point has an even `y`. -/
def normalize (a : ZMod n) : ZMod n := if C.yIsOdd (C.mul a) then -a else a

variable {a : ZMod n}

theorem x_mul_neg (ha : a ≠ 0) : C.x (C.mul (-a)) = C.x (C.mul a) := by
  rw [C.mul_neg]
  exact C.x_neg _ fun h => ha (C.mul_eq_zero.mp h)

theorem x_mul_normalize (ha : a ≠ 0) : C.x (C.mul (C.normalize a)) = C.x (C.mul a) := by
  unfold normalize
  split
  · exact C.x_mul_neg ha
  · rfl

theorem yIsOdd_mul_neg (ha : a ≠ 0) : C.yIsOdd (C.mul (-a)) = !C.yIsOdd (C.mul a) := by
  rw [C.mul_neg]
  exact C.yIsOdd_neg _ fun h => ha (C.mul_eq_zero.mp h)

theorem yIsOdd_mul_normalize (ha : a ≠ 0) : C.yIsOdd (C.mul (C.normalize a)) = false := by
  have hodd := C.yIsOdd_mul_neg ha
  unfold normalize
  cases h : C.yIsOdd (C.mul a) <;> simp [h,hodd]

theorem normalize_ne_zero (ha : a ≠ 0) : C.normalize a ≠ 0 := by
  unfold normalize
  split
  · exact neg_ne_zero.mpr ha
  · exact ha

theorem normalize_neg (ha : a ≠ 0) : C.normalize (-a) = C.normalize a := by
  unfold normalize
  rw [C.yIsOdd_mul_neg ha]
  cases C.yIsOdd (C.mul a) <;> simp

end PrimeGroup
end Avault.Foundation
