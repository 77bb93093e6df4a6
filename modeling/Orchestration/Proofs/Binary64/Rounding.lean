import Mathlib.Tactic.Linarith
import Mathlib.Tactic.Ring
import Orchestration.Binary64.Decimal

/-!
# What rounds to a magnitude

Every quotient in the neighbourhood of a magnitude rounds to it.
-/

namespace Orchestration

theorem roundHalfEven_eq {num den k : Nat} (hden : 0 < den)
    (hlow : 2 * (k * den) ≤ 2 * num + den) (hhigh : 2 * num ≤ 2 * (k * den) + den)
    (htie : k % 2 = 0 ∨ (2 * (k * den) < 2 * num + den ∧ 2 * num < 2 * (k * den) + den)) :
    roundHalfEven num den = k := by
  have hnum : den * (num / den) + num % den = num := Nat.div_add_mod num den
  have hrem : num % den < den := Nat.mod_lt num hden
  unfold roundHalfEven
  generalize num / den = whole at hnum ⊢
  generalize num % den = rem at hnum hrem ⊢
  rw [Nat.mul_comm] at hnum
  have above : whole ≤ k := by
    refine Nat.le_of_not_lt fun hlt => ?_
    have : (k + 1) * den ≤ whole * den := Nat.mul_le_mul_right den hlt
    rw [Nat.add_mul] at this
    omega
  have below : k ≤ whole + 1 := by
    refine Nat.le_of_not_lt fun hlt => ?_
    have : (whole + 2) * den ≤ k * den := Nat.mul_le_mul_right den hlt
    rw [Nat.add_mul] at this
    omega
  rcases Nat.lt_or_ge whole k with hlt | hge
  · obtain rfl : k = whole + 1 := by omega
    rw [Nat.add_mul] at hlow hhigh htie
    rw [if_neg (by omega)]
  · obtain rfl : whole = k := by omega
    rw [if_pos (by omega)]

theorem roundUnits_eq_mul {num den k shift : Nat} (hden : 0 < den)
    (hshift : droppedBits (num / den) = shift)
    (hlow : 2 * (k * (den * 2 ^ shift)) ≤ 2 * num + den * 2 ^ shift)
    (hhigh : 2 * num ≤ 2 * (k * (den * 2 ^ shift)) + den * 2 ^ shift)
    (htie : k % 2 = 0 ∨ (2 * (k * (den * 2 ^ shift)) < 2 * num + den * 2 ^ shift ∧
      2 * num < 2 * (k * (den * 2 ^ shift)) + den * 2 ^ shift)) :
    roundUnits num den = k * 2 ^ shift := by
  unfold roundUnits
  rw [hshift]
  have hpos : 0 < den * 2 ^ shift := Nat.mul_pos hden (Nat.two_pow_pos shift)
  exact congrArg (· * 2 ^ shift) (roundHalfEven_eq hpos hlow hhigh htie)

/-- The last significant bit of a magnitude, in units. -/
def lastBit (units : Nat) : Nat := 2 ^ droppedBits units

theorem lastBit_pos (units : Nat) : 0 < lastBit units := Nat.two_pow_pos _

theorem lastBit_dvd_bound (units : Nat) : lastBit units ∣ 2 ^ (units.log2 + 1) :=
  Nat.pow_dvd_pow 2 (by unfold droppedBits; omega)

/-- A magnitude lies at least one last bit below the next power of two. -/
theorem add_lastBit_le {units : Nat} (hdvd : lastBit units ∣ units) :
    units + lastBit units ≤ 2 ^ (units.log2 + 1) := by
  refine Nat.le_of_lt_add_of_dvd ?_ (Nat.dvd_add hdvd (Nat.dvd_refl _)) (lastBit_dvd_bound units)
  have : units < 2 ^ (units.log2 + 1) := Nat.lt_log2_self
  omega

theorem lastBit_eq_one {units : Nat} (h : units.log2 ≤ fractionBits) : lastBit units = 1 := by
  simp [lastBit, droppedBits, Nat.sub_eq_zero_of_le h]

theorem lastBit_mul_pow {units : Nat} (h : fractionBits ≤ units.log2) :
    2 ^ fractionBits * lastBit units = 2 ^ units.log2 := by
  rw [lastBit, droppedBits, ← Nat.pow_add, Nat.add_sub_cancel' h]

/-- Half of the distance to the neighbour below, in quarters of a unit and of the last bit. -/
def reachBelow (units : Nat) : Nat :=
  if units = 2 ^ units.log2 ∧ 1 < lastBit units then 1 else 2

theorem reachBelow_le (units : Nat) : reachBelow units ≤ 2 := by
  unfold reachBelow
  split <;> omega

theorem reachBelow_pos (units : Nat) : 0 < reachBelow units := by
  unfold reachBelow
  split <;> omega

theorem droppedBits_eq_of_log2 {a b : Nat} (h : a.log2 = b.log2) : droppedBits a = droppedBits b := by
  rw [droppedBits, droppedBits, h]

/-- The last bit of a quotient just above a magnitude is that of the magnitude. -/
theorem droppedBits_div_of_le {units num den : Nat} (hden : 0 < den)
    (hdvd : lastBit units ∣ units) (hle : lastBit units = 1 ∨ 2 ^ units.log2 ≤ num / den)
    (hhigh : 4 * num ≤ (4 * units + 2 * lastBit units) * den) :
    droppedBits (num / den) = droppedBits units := by
  have hlt : num / den < 2 ^ (units.log2 + 1) := by
    refine Nat.lt_of_lt_of_le ((Nat.div_lt_iff_lt_mul hden).2 ?_) (add_lastBit_le hdvd)
    have := Nat.mul_pos (lastBit_pos units) hden
    nlinarith
  rcases Nat.eq_zero_or_pos (num / den) with hz | hq
  · rcases hle with hone | hle
    · have : droppedBits units = 0 := by simpa [lastBit] using hone
      rw [hz, this]
      rfl
    · exact absurd (hz ▸ hle) (Nat.not_le_of_lt (Nat.two_pow_pos _))
  have hlog : (num / den).log2 < units.log2 + 1 := (Nat.log2_lt (Nat.ne_of_gt hq)).2 hlt
  rcases hle with hone | hle
  · have : droppedBits units = 0 := by simpa [lastBit] using hone
    unfold droppedBits at this ⊢
    omega
  · have : units.log2 ≤ (num / den).log2 := (Nat.le_log2 (Nat.ne_of_gt hq)).2 hle
    exact droppedBits_eq_of_log2 (by omega)

/-- Only a power of two is reached from below its power of two. -/
theorem eq_pow_of_div_lt {units num den : Nat} (hden : 0 < den) (hdvd : lastBit units ∣ units)
    (hlast : 1 < lastBit units) (hlt : num / den < 2 ^ units.log2)
    (hlow : 4 * units * den ≤ 4 * num + 2 * lastBit units * den) : units = 2 ^ units.log2 := by
  have hdropped : droppedBits units ≠ 0 := fun h => by simp [lastBit, h] at hlast
  have hne : units ≠ 0 := by
    rintro rfl
    exact hdropped rfl
  have hself : 2 ^ units.log2 ≤ units := Nat.log2_self_le hne
  refine Nat.le_antisymm (Nat.le_of_lt_add_of_dvd ?_ hdvd ?_) hself
  · refine Nat.lt_of_not_le fun hge => ?_
    have hnum : num < 2 ^ units.log2 * den := (Nat.div_lt_iff_lt_mul hden).1 hlt
    have := Nat.mul_le_mul_right den hge
    have := Nat.mul_pos (lastBit_pos units) hden
    rw [Nat.add_mul] at *
    nlinarith
  · exact Nat.pow_dvd_pow 2 (Nat.sub_le _ _)

/-- Below a power of two the last bit is half as large. -/
theorem droppedBits_div_of_lt {units num den : Nat} (hden : 0 < den)
    (hpow : units = 2 ^ units.log2) (hlast : 1 < lastBit units)
    (hlt : num / den < 2 ^ units.log2) (hlow : 4 * units * den ≤ 4 * num + lastBit units * den) :
    droppedBits (num / den) + 1 = droppedBits units := by
  have hdropped : droppedBits units ≠ 0 := fun h => by simp [lastBit, h] at hlast
  have hexp : fractionBits < units.log2 := by
    unfold droppedBits at hdropped
    omega
  obtain ⟨e, he⟩ : ∃ e, units.log2 = e + 1 := ⟨units.log2 - 1, by omega⟩
  have hunits : units = 2 * 2 ^ e := by rw [hpow, he, Nat.pow_succ, Nat.mul_comm]
  have hbit : lastBit units ≤ 2 ^ e := by
    refine Nat.pow_le_pow_right Nat.two_pos ?_
    unfold droppedBits fractionBits
    omega
  have hge : 2 ^ e ≤ num / den := by
    refine (Nat.le_div_iff_mul_le hden).2 ?_
    have hprod : 4 * units * den = 8 * (2 ^ e * den) := by
      conv_lhs => rw [hunits]
      ring
    have := Nat.mul_le_mul_right den hbit
    omega
  have hq : num / den ≠ 0 := Nat.ne_of_gt (Nat.lt_of_lt_of_le (Nat.two_pow_pos e) hge)
  have h1 : e ≤ (num / den).log2 := (Nat.le_log2 hq).2 hge
  have h2 : (num / den).log2 < e + 1 := (Nat.log2_lt hq).2 (he ▸ hlt)
  unfold droppedBits fractionBits at *
  omega

theorem div_lastBit_mul {units : Nat} (hdvd : lastBit units ∣ units) (den : Nat) :
    units / lastBit units * (den * lastBit units) = units * den := by
  rw [Nat.mul_comm den, ← Nat.mul_assoc, Nat.div_mul_cancel hdvd]

/-- A quotient in the neighbourhood of a magnitude, with the same last bit, rounds to it. -/
theorem roundUnits_of_droppedBits_eq {units num den : Nat} (hden : 0 < den)
    (hdvd : lastBit units ∣ units) (hsame : droppedBits (num / den) = droppedBits units)
    (hlow : 4 * units * den ≤ 4 * num + 2 * lastBit units * den)
    (hhigh : 4 * num ≤ (4 * units + 2 * lastBit units) * den)
    (hends : units / lastBit units % 2 = 0 ∨
      (4 * units * den < 4 * num + 2 * lastBit units * den ∧
        4 * num < (4 * units + 2 * lastBit units) * den)) :
    roundUnits num den = units := by
  have hprod := div_lastBit_mul hdvd den
  refine (roundUnits_eq_mul hden hsame ?_ ?_ ?_).trans (Nat.div_mul_cancel hdvd)
  · rw [← lastBit, hprod]
    nlinarith
  · rw [← lastBit, hprod]
    nlinarith
  · rw [← lastBit, hprod]
    refine hends.imp id fun h => ⟨?_, ?_⟩
    · nlinarith [h.1]
    · nlinarith [h.2]

/-- A quotient just below a magnitude that is a power of two rounds to it. -/
theorem roundUnits_of_div_lt {units num den : Nat} (hden : 0 < den) (hdvd : lastBit units ∣ units)
    (hpow : units = 2 ^ units.log2) (hlast : 1 < lastBit units)
    (hlt : num / den < 2 ^ units.log2) (hlow : 4 * units * den ≤ 4 * num + lastBit units * den) :
    roundUnits num den = units := by
  have hshift := droppedBits_div_of_lt hden hpow hlast hlt hlow
  have hhalf : lastBit units = 2 ^ droppedBits (num / den) * 2 := by
    rw [lastBit, ← hshift, Nat.pow_succ]
  have hden' : lastBit units * den = 2 * (den * 2 ^ droppedBits (num / den)) := by
    rw [hhalf]
    ring
  have hprod : units / lastBit units * 2 * (den * 2 ^ droppedBits (num / den)) = units * den := by
    rw [← div_lastBit_mul hdvd den, hhalf]
    ring
  have hnum : num < units * den := (Nat.div_lt_iff_lt_mul hden).1 (hpow ▸ hlt)
  have hunits : units / lastBit units * 2 * 2 ^ droppedBits (num / den) = units := by
    rw [Nat.mul_assoc, Nat.mul_comm 2, ← hhalf, Nat.div_mul_cancel hdvd]
  refine (roundUnits_eq_mul hden rfl ?_ ?_ (.inl (Nat.mul_mod_left _ 2))).trans hunits
  · rw [hprod]
    nlinarith
  · rw [hprod]
    omega

/-- What lies in the neighbourhood of a magnitude rounds to it. -/
theorem roundUnits_eq {units num den : Nat} (hden : 0 < den) (hdvd : lastBit units ∣ units)
    (hlow : 4 * units * den ≤ 4 * num + reachBelow units * lastBit units * den)
    (hhigh : 4 * num ≤ (4 * units + 2 * lastBit units) * den)
    (hends : units / lastBit units % 2 = 0 ∨
      (4 * units * den < 4 * num + reachBelow units * lastBit units * den ∧
        4 * num < (4 * units + 2 * lastBit units) * den)) :
    roundUnits num den = units := by
  have hreach : reachBelow units * lastBit units * den ≤ 2 * lastBit units * den :=
    Nat.mul_le_mul_right den (Nat.mul_le_mul_right _ (reachBelow_le units))
  by_cases hle : lastBit units = 1 ∨ 2 ^ units.log2 ≤ num / den
  · refine roundUnits_of_droppedBits_eq hden hdvd (droppedBits_div_of_le hden hdvd hle hhigh)
      (by omega) hhigh (hends.imp id fun h => ⟨by omega, h.2⟩)
  · obtain ⟨hne, hlt⟩ := not_or.1 hle
    have hlast : 1 < lastBit units := by
      have := lastBit_pos units
      omega
    have hpow := eq_pow_of_div_lt hden hdvd hlast (Nat.lt_of_not_le hlt) (by omega)
    have hbelow : reachBelow units = 1 := if_pos ⟨hpow, hlast⟩
    rw [hbelow, Nat.one_mul] at hlow
    exact roundUnits_of_div_lt hden hdvd hpow hlast (Nat.lt_of_not_le hlt) hlow

end Orchestration
