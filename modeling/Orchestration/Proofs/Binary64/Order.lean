import Mathlib.Tactic.Linarith
import Orchestration.Proofs.Binary64.Shortest

/-!
# Rounding keeps the order

What is at most as large before rounding is so after it, across powers of two as well as between
them, and what has at most 53 significant bits stays as it is. So the product of two numbers that are
not negative never falls when one of them rises.
-/

namespace Orchestration

/-! ## Rounding -/

theorem div_le_roundHalfEven (num den : Nat) : num / den ≤ roundHalfEven num den := by
  unfold roundHalfEven
  dsimp only
  split <;> omega

theorem roundHalfEven_mono {num num' : Nat} (den : Nat) (h : num ≤ num') :
    roundHalfEven num den ≤ roundHalfEven num' den := by
  rcases Nat.lt_or_eq_of_le (Nat.div_le_div_right (c := den) h) with hlt | heq
  · have hlow := roundHalfEven_le num den
    have hhigh := div_le_roundHalfEven num' den
    omega
  · have hrem : num % den ≤ num' % den := by
      have hnum := Nat.div_add_mod num den
      have hnum' := Nat.div_add_mod num' den
      rw [heq] at hnum
      omega
    unfold roundHalfEven
    rw [heq]
    dsimp only
    split <;> split <;> omega

/-- The rounded quotient is off by half at most. -/
theorem roundHalfEven_near (num : Nat) {den : Nat} (hden : 0 < den) :
    2 * (roundHalfEven num den * den) ≤ 2 * num + den ∧
      2 * num ≤ 2 * (roundHalfEven num den * den) + den := by
  have hnum := Nat.div_add_mod num den
  have hrem := Nat.mod_lt num hden
  rw [Nat.mul_comm] at hnum
  unfold roundHalfEven
  dsimp only
  split
  · omega
  · rw [Nat.add_mul]
    omega

theorem droppedBits_le {units e : Nat} (h : units < 2 ^ (e + fractionBits + 1)) :
    droppedBits units ≤ e := by
  unfold droppedBits
  by_cases hzero : units = 0
  · simp [hzero]
  · have hlog := (Nat.log2_lt hzero).mpr h
    omega

/-- Below a power of two nothing is rounded to more than that. -/
theorem roundUnits_le_pow {num den e : Nat} (h : num / den < 2 ^ e) :
    roundUnits num den ≤ 2 ^ e := by
  obtain ⟨j, hj⟩ : ∃ j, e = droppedBits (num / den) + j := by
    have hdropped : droppedBits (num / den) ≤ e := by
      refine droppedBits_le (Nat.lt_of_lt_of_le h (Nat.pow_le_pow_right Nat.two_pos ?_))
      omega
    exact Nat.exists_eq_add_of_le hdropped
  unfold roundUnits
  simp only [Nat.pow_eq]
  rw [hj, Nat.pow_add] at h ⊢
  rw [Nat.mul_comm (2 ^ droppedBits (num / den))]
  refine Nat.mul_le_mul_right _ (Nat.le_trans (roundHalfEven_le _ _) ?_)
  rw [← Nat.div_div_eq_div_mul]
  exact Nat.div_lt_of_lt_mul h

/-- What has reached a power of two is not rounded to less than that. -/
theorem pow_le_roundUnits {num den : Nat} (h : num / den ≠ 0) :
    2 ^ (num / den).log2 ≤ roundUnits num den := by
  have hle : 2 ^ (num / den).log2 ≤ num / den := Nat.log2_self_le h
  obtain ⟨j, hj⟩ : ∃ j, (num / den).log2 = droppedBits (num / den) + j :=
    ⟨(num / den).log2 - droppedBits (num / den), by unfold droppedBits; omega⟩
  unfold roundUnits
  rw [hj, Nat.pow_add] at hle ⊢
  generalize droppedBits (num / den) = d at *
  rw [Nat.mul_comm (2 ^ d)]
  refine Nat.mul_le_mul_right _ (Nat.le_trans ?_ (div_le_roundHalfEven _ _))
  rw [← Nat.div_div_eq_div_mul]
  exact (Nat.le_div_iff_mul_le (Nat.two_pow_pos d)).mpr (by rwa [Nat.mul_comm])

theorem roundUnits_mono {num num' : Nat} (den : Nat) (h : num ≤ num') :
    roundUnits num den ≤ roundUnits num' den := by
  have hle : num / den ≤ num' / den := Nat.div_le_div_right h
  by_cases hsame : droppedBits (num / den) = droppedBits (num' / den)
  · unfold roundUnits
    rw [hsame]
    exact Nat.mul_le_mul_right _ (roundHalfEven_mono _ h)
  · -- Between the two quotients lies the power of two at which the larger one's bits start.
    have hne : num' / den ≠ 0 := by
      intro hzero
      have hzero' : num / den = 0 := Nat.le_zero.mp (hzero ▸ hle)
      exact hsame (by rw [hzero, hzero'])
    have hlog : (num / den).log2 < (num' / den).log2 := by
      have hmono : (num / den).log2 ≤ (num' / den).log2 := by
        by_cases hzero : num / den = 0
        · simp [hzero]
        · exact (Nat.le_log2 hne).mpr (Nat.le_trans (Nat.log2_self_le hzero) hle)
      unfold droppedBits at hsame
      omega
    have hlt : num / den < 2 ^ (num' / den).log2 :=
      Nat.lt_of_lt_of_le Nat.lt_log2_self (Nat.pow_le_pow_right Nat.two_pos hlog)
    exact Nat.le_trans (roundUnits_le_pow hlt) (pow_le_roundUnits hne)

/-- What is representable is not rounded. -/
theorem roundUnits_mul_eq {units den : Nat} (hden : 0 < den) (hdvd : lastBit units ∣ units) :
    roundUnits (units * den) den = units := by
  have hreach : 0 < reachBelow units * lastBit units * den :=
    Nat.mul_pos (Nat.mul_pos (reachBelow_pos units) (lastBit_pos units)) hden
  have hbit : 0 < 2 * lastBit units * den :=
    Nat.mul_pos (Nat.mul_pos Nat.two_pos (lastBit_pos units)) hden
  have hprod : 4 * units * den = 4 * (units * den) := Nat.mul_assoc _ _ _
  refine roundUnits_eq hden hdvd (by omega) ?_ (.inr ⟨by omega, ?_⟩) <;>
    · rw [Nat.add_mul]
      omega

/-- The rounded quotient is off by half of the last of 53 bits at most. -/
theorem roundUnits_near {num den e : Nat} (hden : 0 < den)
    (h : num < den * 2 ^ (e + fractionBits + 1)) :
    2 * (roundUnits num den * den) ≤ 2 * num + den * 2 ^ e ∧
      2 * num ≤ 2 * (roundUnits num den * den) + den * 2 ^ e := by
  have hstep : den * 2 ^ droppedBits (num / den) ≤ den * 2 ^ e :=
    Nat.mul_le_mul_left den
      (Nat.pow_le_pow_right Nat.two_pos (droppedBits_le (Nat.div_lt_of_lt_mul h)))
  have hnear := roundHalfEven_near num
    (Nat.mul_pos hden (Nat.two_pow_pos (droppedBits (num / den))))
  have hprod : roundUnits num den * den =
      roundHalfEven num (den * 2 ^ droppedBits (num / den)) *
        (den * 2 ^ droppedBits (num / den)) := by
    unfold roundUnits
    simp only [Nat.pow_eq]
    ring
  rw [hprod]
  omega

/-! ## Places -/

theorem unitsPerOne_lt_bound : unitsPerOne < unitsBound := by decide +kernel

theorem Magnitude.units_one : one.units = unitsPerOne := by decide +kernel

theorem representable_unitsPerOne : Representable unitsPerOne := by
  rw [← Magnitude.units_one]
  exact Magnitude.one.representable

/-- The place of the product of two numbers that are not negative, by their places. -/
def productPlace (a b : Nat) : Nat :=
  if unitsBound ≤ a ∨ unitsBound ≤ b then unitsBound
  else min unitsBound (roundUnits (a * b) unitsPerOne)

theorem productPlace_le (a b : Nat) : productPlace a b ≤ unitsBound := by
  unfold productPlace
  split
  · exact Nat.le_refl _
  · exact Nat.min_le_left _ _

theorem productPlace_mono {a a' b b' : Nat} (ha : a ≤ a') (hb : b ≤ b') :
    productPlace a b ≤ productPlace a' b' := by
  by_cases hlarge : unitsBound ≤ a' ∨ unitsBound ≤ b'
  · rw [productPlace.eq_def a' b', if_pos hlarge]
    exact productPlace_le a b
  · have hround := roundUnits_mono unitsPerOne (Nat.mul_le_mul ha hb)
    unfold productPlace
    rw [if_neg hlarge, if_neg (by omega)]
    omega

/-- A number stays as it is when it is multiplied by one. -/
theorem productPlace_one {units : Nat} (h : Representable units) :
    productPlace unitsPerOne units = units := by
  have hone := unitsPerOne_lt_bound
  have hlt := h.1
  unfold productPlace
  rw [if_neg (by omega), Nat.mul_comm, roundUnits_mul_eq Magnitude.unitsPerOne_pos h.2]
  omega

theorem productPlace_one_one : productPlace unitsPerOne unitsPerOne = unitsPerOne :=
  productPlace_one representable_unitsPerOne

namespace Binary64

/-- The number is so many units and not negative; infinity is as many as no finite number. -/
def LiesAt (x : Binary64) (n : Nat) : Prop := x.place? = some (n : Int)

theorem liesAt_finite (m : Magnitude) : (finite false m).LiesAt m.units := rfl

theorem liesAt_infinite : (infinite false).LiesAt unitsBound := rfl

theorem liesAt_one : one.LiesAt unitsPerOne := by
  rw [← Magnitude.units_one]
  exact liesAt_finite .one

theorem liesAt_zero : zero.LiesAt 0 := rfl

theorem LiesAt.unique {x : Binary64} {m n : Nat} (h : x.LiesAt m) (h' : x.LiesAt n) : m = n :=
  Int.ofNat.inj (Option.some.inj (h.symm.trans h'))

theorem LiesAt.infinite_or_finite {x : Binary64} {n : Nat} (h : x.LiesAt n) :
    (x = infinite false ∧ n = unitsBound) ∨
      ∃ s m, x = finite s m ∧ m.units = n ∧ (s = true → n = 0) := by
  unfold LiesAt at h
  cases x with
  | nan => cases h
  | infinite s =>
    have hbound : 0 < unitsBound := Nat.lt_trans Magnitude.unitsPerOne_pos unitsPerOne_lt_bound
    cases s with
    | true =>
      simp only [place?, if_true, Option.some.injEq] at h
      omega
    | false => exact .inl ⟨rfl, (Int.ofNat.inj (Option.some.inj h)).symm⟩
  | finite s m =>
    refine .inr ⟨s, m, rfl, ?_⟩
    cases s with
    | true =>
      simp only [place?, if_true, Option.some.injEq] at h
      omega
    | false =>
      simp only [place?, Bool.false_eq_true, if_false, Option.some.injEq] at h
      exact ⟨by omega, by simp⟩

/-- A number below infinity is finite. -/
theorem LiesAt.exists_finite {x : Binary64} {n : Nat} (h : x.LiesAt n) (hn : n < unitsBound) :
    ∃ s m, x = finite s m ∧ m.units = n ∧ (s = true → n = 0) :=
  h.infinite_or_finite.resolve_left fun h => Nat.lt_irrefl _ (h.2 ▸ hn)

theorem LiesAt.isFinite_iff {x : Binary64} {n : Nat} (h : x.LiesAt n) :
    x.isFinite = true ↔ n < unitsBound := by
  obtain ⟨rfl, hn⟩ | ⟨s, m, rfl, rfl, -⟩ := h.infinite_or_finite
  · simp [isFinite, hn]
  · simpa [isFinite] using m.representable.1

theorem LiesAt.atMost_iff {x y : Binary64} {m n : Nat} (hx : x.LiesAt m) (hy : y.LiesAt n) :
    x.atMost y = true ↔ m ≤ n := by
  unfold atMost
  rw [show x.place? = _ from hx, show y.place? = _ from hy]
  simp

/-- What a number that is not negative is below lies somewhere. -/
theorem exists_liesAt_of_atMost {x y : Binary64} {m : Nat} (hx : x.LiesAt m)
    (h : x.atMost y = true) : ∃ n, y.LiesAt n ∧ m ≤ n := by
  unfold atMost at h
  rw [show x.place? = _ from hx] at h
  cases hy : y.place? with
  | none => simp [hy] at h
  | some n =>
    have hle : (m : Int) ≤ n := by simpa [hy] using h
    obtain ⟨k, rfl⟩ := Int.eq_ofNat_of_zero_le (Int.le_trans (Int.natCast_nonneg m) hle)
    exact ⟨k, hy, by omega⟩

/-! ## Products -/

theorem liesAt_roundedUnits {negative : Bool} {num den : Nat}
    (h : negative = true → roundUnits num den = 0) :
    (roundedUnits negative num den).LiesAt (min unitsBound (roundUnits num den)) := by
  have hbound : 0 < unitsBound := Nat.lt_trans Magnitude.unitsPerOne_pos unitsPerOne_lt_bound
  unfold roundedUnits Magnitude.round? LiesAt
  by_cases hlt : roundUnits num den < unitsBound
  · rw [dif_pos hlt, Nat.min_eq_right (Nat.le_of_lt hlt)]
    cases negative with
    | false => rfl
    | true => simp [place?, h rfl]
  · rw [dif_neg hlt, Nat.min_eq_left (Nat.le_of_not_lt hlt)]
    cases negative with
    | false => rfl
    | true => exact absurd (h rfl ▸ hbound) hlt

theorem times_finite (s t : Bool) (m n : Magnitude) :
    (finite s m).times (finite t n) = roundedUnits (s ^^ t) (m.units * n.units) unitsPerOne := by
  simp only [times]

theorem times_comm (x y : Binary64) : x.times y = y.times x := by
  cases x <;> cases y <;> simp only [times, Bool.xor_comm, Nat.mul_comm]

/-- The product of two numbers that are not negative is one, unless zero meets infinity. -/
theorem LiesAt.times {x y : Binary64} {a b : Nat} (hx : x.LiesAt a) (hy : y.LiesAt b)
    (hxy : b = unitsBound → 0 < a) (hyx : a = unitsBound → 0 < b) :
    (x.times y).LiesAt (productPlace a b) := by
  obtain ⟨rfl, ha⟩ | ⟨s, m, rfl, rfl, hs⟩ := hx.infinite_or_finite
  · rw [productPlace, if_pos (.inl (Nat.le_of_eq ha.symm))]
    obtain ⟨rfl, -⟩ | ⟨t, n, rfl, rfl, ht⟩ := hy.infinite_or_finite
    · exact liesAt_infinite
    · have hpos : n.units ≠ 0 := Nat.ne_of_gt (hyx ha)
      obtain rfl : t = false := Bool.eq_false_iff.mpr fun h => hpos (ht h)
      simp only [Binary64.times, if_neg hpos]
      exact liesAt_infinite
  · obtain ⟨rfl, hb⟩ | ⟨t, n, rfl, rfl, ht⟩ := hy.infinite_or_finite
    · have hpos : m.units ≠ 0 := Nat.ne_of_gt (hxy hb)
      obtain rfl : s = false := Bool.eq_false_iff.mpr fun h => hpos (hs h)
      rw [productPlace, if_pos (.inr (Nat.le_of_eq hb.symm))]
      simp only [Binary64.times, if_neg hpos]
      exact liesAt_infinite
    · have hm := m.representable.1
      have hn := n.representable.1
      rw [productPlace, if_neg (by omega)]
      simp only [Binary64.times]
      refine liesAt_roundedUnits fun hst => ?_
      -- Only a zero has a sign here, and then the product is zero.
      have hzero : m.units * n.units = 0 := by
        cases s with
        | true => rw [hs rfl, Nat.zero_mul]
        | false =>
          cases t with
          | true => rw [ht rfl, Nat.mul_zero]
          | false => cases hst
      rw [hzero]
      simpa using roundUnits_mul_eq Magnitude.unitsPerOne_pos (Nat.dvd_zero (lastBit 0))

theorem one_times (x : Binary64) : one.times x = x := by
  have hone : Magnitude.one.units ≠ 0 := by
    rw [Magnitude.units_one]
    exact Nat.ne_of_gt Magnitude.unitsPerOne_pos
  cases x with
  | nan => rfl
  | infinite s =>
    simp only [one, times, if_neg hone]
    cases s <;> rfl
  | finite s m =>
    have hround : roundUnits (Magnitude.one.units * m.units) unitsPerOne = m.units := by
      rw [Magnitude.units_one, Nat.mul_comm]
      exact roundUnits_mul_eq Magnitude.unitsPerOne_pos m.representable.2
    simp only [one, times, m.roundedUnits_eq _ hround]
    cases s <;> rfl

end Binary64

end Orchestration
