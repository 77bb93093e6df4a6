import Mathlib.Algebra.Ring.Parity
import Orchestration.Proofs.Binary64.Order

/-!
# Powers by repeated squaring are monotone in the exponent

The powers of two exponents in a row are products of different squares in a different order, and
rounding makes multiplication neither associative nor distributive. All the same, when the binary
expansions are read from the lowest bit on, the product collected for the smaller exponent never
passes the square that the other one still has to take.
-/

namespace Orchestration.Binary64

theorem timesPow_zero (acc x : Binary64) : timesPow acc x 0 = acc := by
  rw [timesPow]
  rfl

theorem timesPow_even (acc x : Binary64) (k : Nat) :
    timesPow acc x (2 * k) = timesPow acc (x.times x) k := by
  rw [timesPow]
  have hodd : ¬ 2 * k % 2 = 1 := by omega
  have hhalf : 2 * k / 2 = k := by omega
  rw [hhalf, if_neg hodd]
  split
  · rename_i hzero
    rw [hzero, timesPow_zero]
  · rfl

theorem timesPow_odd (acc x : Binary64) (k : Nat) :
    timesPow acc x (2 * k + 1) = timesPow (acc.times x) (x.times x) k := by
  rw [timesPow]
  have hodd : (2 * k + 1) % 2 = 1 := by omega
  have hhalf : (2 * k + 1) / 2 = k := by omega
  rw [hhalf, if_pos hodd]
  split
  · rename_i hzero
    rw [hzero, timesPow_zero]
  · rfl

/-! ## Relations that products keep -/

section Related

variable {R : Binary64 → Binary64 → Prop}
  (hmul : ∀ {a b c d}, R a b → R c d → R (a.times c) (b.times d))

include hmul

/-- Powers keep the relation of what they are collected in. -/
theorem timesPow_related {a b x : Binary64} (hx : R x x) (h : R a b) (k : Nat) :
    R (timesPow a x k) (timesPow b x k) := by
  induction k using Nat.strongRecOn generalizing a b x with
  | _ k ih =>
    obtain ⟨j, rfl | rfl⟩ := k.even_or_odd'
    · rcases Nat.eq_zero_or_pos j with rfl | hj
      · simpa [timesPow_zero] using h
      · rw [timesPow_even, timesPow_even]
        exact ih j (by omega) (hmul hx hx) h
    · rw [timesPow_odd, timesPow_odd]
      exact ih j (by omega) (hmul hx hx) (hmul h hx)

/-- What is related to the base, times some power, is related to the next power. -/
theorem timesPow_succ_related {a x : Binary64} (hx : R x x) (h : R a x) (k : Nat) :
    R (timesPow a x k) (timesPow one x (k + 1)) := by
  induction k using Nat.strongRecOn generalizing a x with
  | _ k ih =>
    obtain ⟨j, rfl | rfl⟩ := k.even_or_odd'
    · -- Both exponents have the same bits but the lowest.
      rw [timesPow_even, timesPow_odd, one_times]
      exact timesPow_related hmul (hmul hx hx) h j
    · -- The lowest bits are a one and a carry, so the square of the base is what is ahead.
      rw [timesPow_odd, show 2 * j + 1 + 1 = 2 * (j + 1) by omega, timesPow_even]
      exact ih j (by omega) (hmul hx hx) (hmul h hx)

theorem pow_succ_related {x : Binary64} (hone : R one x) (hx : R x x) (k : Nat) :
    R (x.pow k) (x.pow (k + 1)) :=
  timesPow_succ_related hmul hx hone k

end Related

/-! ## Powers of numbers from one on -/

/-- Both numbers are at least one, and the second is not below the first. -/
def Rises (x y : Binary64) : Prop :=
  ∃ a b, x.LiesAt a ∧ y.LiesAt b ∧ unitsPerOne ≤ a ∧ a ≤ b

theorem Rises.times {x y x' y' : Binary64} (h : Rises x y) (h' : Rises x' y') :
    Rises (x.times x') (y.times y') := by
  obtain ⟨a, b, hx, hy, hone, hle⟩ := h
  obtain ⟨a', b', hx', hy', hone', hle'⟩ := h'
  have hpos := Magnitude.unitsPerOne_pos
  refine ⟨_, _, hx.times hx' (by omega) (by omega), hy.times hy' (by omega) (by omega), ?_,
    productPlace_mono hle hle'⟩
  rw [← productPlace_one_one]
  exact productPlace_mono hone hone'

/-- From one on, a power is at least one and not below the power before. -/
theorem rises_pow {x : Binary64} (h : one.atMost x = true) (k : Nat) :
    Rises (x.pow k) (x.pow (k + 1)) := by
  obtain ⟨a, hx, hle⟩ := exists_liesAt_of_atMost liesAt_one h
  exact pow_succ_related Rises.times ⟨_, a, liesAt_one, hx, Nat.le_refl _, hle⟩
    ⟨a, a, hx, hx, hle, Nat.le_refl _⟩ k

/-! ## Powers of numbers up to one -/

/-- Both numbers are at most one and not negative, and the second is not above the first. -/
def Falls (x y : Binary64) : Prop :=
  ∃ a b, x.LiesAt a ∧ y.LiesAt b ∧ b ≤ a ∧ a ≤ unitsPerOne

theorem Falls.times {x y x' y' : Binary64} (h : Falls x y) (h' : Falls x' y') :
    Falls (x.times x') (y.times y') := by
  obtain ⟨a, b, hx, hy, hle, hone⟩ := h
  obtain ⟨a', b', hx', hy', hle', hone'⟩ := h'
  have hbound := unitsPerOne_lt_bound
  refine ⟨_, _, hx.times hx' (by omega) (by omega), hy.times hy' (by omega) (by omega),
    productPlace_mono hle hle', ?_⟩
  rw [← productPlace_one_one]
  exact productPlace_mono hone hone'

/-- From zero to one, a power is at most one and not above the power before. -/
theorem falls_pow {x : Binary64} (hzero : zero.atMost x = true) (hone : x.atMost one = true)
    (k : Nat) : Falls (x.pow k) (x.pow (k + 1)) := by
  obtain ⟨a, hx, -⟩ := exists_liesAt_of_atMost liesAt_zero hzero
  have hle : a ≤ unitsPerOne := (hx.atMost_iff liesAt_one).mp hone
  exact pow_succ_related Falls.times ⟨_, a, liesAt_one, hx, hle, Nat.le_refl _⟩
    ⟨a, a, hx, hx, Nat.le_refl _, hle⟩ k

end Orchestration.Binary64
