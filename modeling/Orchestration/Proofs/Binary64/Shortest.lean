import Orchestration.Proofs.Binary64.Rounding
import Orchestration.Proofs.Text.Digits

/-!
# The fewest digits read back

Whatever decimal number lies in the neighbourhood of a magnitude is read as that magnitude. Seventeen
digits always lead into the neighbourhood, so the fewest digits of a number read back as the number.
-/

namespace Orchestration.Magnitude

variable (m : Magnitude)

private theorem pow_ten_pos (k : Nat) : 0 < Nat.pow 10 k := Nat.pow_pos (by decide)

private theorem pow_two_pos' (k : Nat) : 0 < Nat.pow 2 k := Nat.two_pow_pos k

theorem scale_pos : 0 < Nat.pow 10 decimalScale := pow_ten_pos _

theorem unitsPerOne_pos : 0 < unitsPerOne := by
  unfold unitsPerOne
  exact pow_two_pos' oneExponent

theorem neighbourhood_eq : m.neighbourhood =
    ⟨(4 * m.units - reachBelow m.units * lastBit m.units) * Nat.pow 10 decimalScale,
      (4 * m.units + 2 * lastBit m.units) * Nat.pow 10 decimalScale,
      m.units / lastBit m.units % 2 = 0⟩ :=
  rfl

theorem Neighbourhood.contains_iff (n : Neighbourhood) (place : Nat) :
    n.contains place ↔ n.low ≤ place ∧ place ≤ n.high ∧
      (n.closed ∨ (n.low < place ∧ place < n.high)) := by
  unfold contains
  cases n.closed
  · simp
    omega
  · simp

theorem lastBit_le {units : Nat} (hpos : 0 < units) (hdvd : lastBit units ∣ units) :
    lastBit units ≤ units :=
  Nat.le_of_dvd hpos hdvd

/-- A quotient at a place of the neighbourhood of a magnitude rounds to it. -/
theorem roundUnits_of_contains {num den place : Nat} (hden : 0 < den)
    (hplace : place * den = 4 * num * Nat.pow 10 decimalScale)
    (h : m.neighbourhood.contains place) : roundUnits num den = m.units := by
  rw [Neighbourhood.contains_iff, neighbourhood_eq] at h
  obtain ⟨hlow, hhigh, hends⟩ := h
  simp only [decide_eq_true_eq] at hlow hhigh hends
  have hscale := scale_pos
  generalize Nat.pow 10 decimalScale = scale at *
  have hlow_iff {x : Nat} : x * scale ≤ place ↔ x * den ≤ 4 * num := by
    rw [← Nat.mul_le_mul_right_iff hden, hplace, Nat.mul_right_comm x,
      Nat.mul_le_mul_right_iff hscale]
  have hhigh_iff {x : Nat} : place ≤ x * scale ↔ 4 * num ≤ x * den := by
    rw [← Nat.mul_le_mul_right_iff hden, hplace, Nat.mul_right_comm x,
      Nat.mul_le_mul_right_iff hscale]
  rw [hlow_iff, Nat.sub_mul] at hlow
  rw [hhigh_iff] at hhigh
  refine roundUnits_eq hden m.representable.2 (by omega) hhigh (hends.imp id fun h => ?_)
  obtain ⟨h1, h2⟩ := h
  rw [← Nat.not_le, hhigh_iff, Nat.not_le, Nat.sub_mul] at h1
  rw [← Nat.not_le, hlow_iff, Nat.not_le] at h2
  exact ⟨by omega, h2⟩

/-! ## Reading a decimal number -/

theorem eq_of_units {m n : Magnitude} (h : m.units = n.units) : m = n := by
  cases m
  cases n
  cases h
  rfl

theorem round?_eq {num den : Nat} (h : roundUnits num den = m.units) : round? num den = some m := by
  have hlt : roundUnits num den < unitsBound := by
    rw [h]
    exact m.representable.1
  unfold round?
  rw [dif_pos hlt]
  exact congrArg some (eq_of_units h)

theorem roundedUnits_eq (negative : Bool) {num den : Nat} (h : roundUnits num den = m.units) :
    Binary64.roundedUnits negative num den = .finite negative m := by
  unfold Binary64.roundedUnits
  rw [m.round?_eq h]

theorem ofRatio_of_contains (negative : Bool) {num den place : Nat} (hden : 0 < den)
    (hplace : place * den = 4 * (num * unitsPerOne) * Nat.pow 10 decimalScale)
    (h : m.neighbourhood.contains place) : Binary64.ofRatio negative num den = .finite negative m := by
  unfold Binary64.ofRatio
  exact m.roundedUnits_eq negative (m.roundUnits_of_contains hden hplace h)

/-! ## Places of decimal numbers -/

/-- The exponents of decimal numbers that have a place. -/
def InScale (d : Decimal) : Prop := 0 ≤ d.exponent + decimalScale

variable {m}

theorem lt_of_contains (hpos : 0 < m.units) {place : Nat} (h : m.neighbourhood.contains place) :
    0 < place ∧ place < 8 * unitsBound * Nat.pow 10 decimalScale := by
  have hbit := lastBit_le hpos m.representable.2
  have hbound := m.representable.1
  rw [Neighbourhood.contains_iff, neighbourhood_eq] at h
  obtain ⟨hlow, hhigh, -⟩ := h
  have hscale := scale_pos
  constructor
  · refine Nat.lt_of_lt_of_le (Nat.mul_pos ?_ hscale) hlow
    have := Nat.mul_le_mul_right (lastBit m.units) (reachBelow_le m.units)
    omega
  · refine Nat.lt_of_le_of_lt hhigh (Nat.mul_lt_mul_of_pos_right ?_ hscale)
    omega

/-- The largest place of the scale lies beyond all neighbourhoods. -/
theorem bound_le_scale :
    8 * unitsBound * Nat.pow 10 decimalScale ≤ Nat.pow 10 (2 * decimalScale) * (4 * unitsPerOne) := by
  decide +kernel

theorem pow_ten_add (k l : Nat) : Nat.pow 10 (k + l) = Nat.pow 10 k * Nat.pow 10 l :=
  Nat.pow_add 10 k l

private theorem pow_ten_le {k l : Nat} (h : k ≤ l) : Nat.pow 10 k ≤ Nat.pow 10 l :=
  Nat.pow_le_pow_right (by decide) h

theorem length_add_exponent_le (hpos : 0 < m.units) {d : Decimal} (hd : InScale d)
    (h : m.neighbourhood.contains (decimalPlace d)) (hdigits : 0 < d.digits) :
    (Nat.toDigits 10 d.digits).length + d.exponent ≤ decimalScale := by
  refine Int.not_lt.1 fun hlt => Nat.not_le_of_lt (lt_of_contains hpos h).2 ?_
  have hlen := Text.pow_length_toDigits_le hdigits
  refine Nat.le_trans bound_le_scale (Nat.mul_le_mul_right _ ?_)
  unfold InScale at hd
  refine Nat.le_trans (pow_ten_le (l := ((Nat.toDigits 10 d.digits).length - 1) +
    (d.exponent + decimalScale).toNat) (by omega)) ?_
  rw [pow_ten_add]
  exact Nat.mul_le_mul_right _ hlen

theorem digits_pos_of_contains (hpos : 0 < m.units) {d : Decimal}
    (h : m.neighbourhood.contains (decimalPlace d)) : 0 < d.digits := by
  refine Nat.pos_of_ne_zero fun h0 => ?_
  have := (lt_of_contains hpos h).1
  rw [decimalPlace, h0, Nat.zero_mul, Nat.zero_mul] at this
  exact Nat.lt_irrefl _ this

/-- A decimal number in a neighbourhood is read as its magnitude. -/
theorem ofDecimal_of_contains (hpos : 0 < m.units) (negative : Bool) {d : Decimal}
    (hd : InScale d) (h : m.neighbourhood.contains (decimalPlace d)) :
    Binary64.ofDecimal negative d = .finite negative m := by
  have hdigits := digits_pos_of_contains hpos h
  have hlen := length_add_exponent_le hpos hd h hdigits
  have hscale : (decimalScale : Int) = 400 := rfl
  have hpos' : 0 < (Nat.toDigits 10 d.digits).length := Nat.length_toDigits_pos
  unfold InScale at hd
  unfold Binary64.ofDecimal
  rw [if_neg (Nat.ne_of_gt hdigits)]
  dsimp only
  rw [if_neg (by omega), if_neg (by omega)]
  split
  · rename_i hexp
    refine m.ofRatio_of_contains negative Nat.one_pos ?_ h
    rw [decimalPlace, Int.toNat_add hexp (by omega), Int.toNat_natCast, pow_ten_add]
    ring
  · refine m.ofRatio_of_contains negative (pow_ten_pos _) ?_ h
    rw [decimalPlace]
    have hsum : Nat.pow 10 (d.exponent + decimalScale).toNat * Nat.pow 10 (-d.exponent).toNat =
        Nat.pow 10 decimalScale := by
      rw [← pow_ten_add]
      congr 1
      omega
    rw [← hsum]
    ring

/-! ## Zeros that do not count -/

/-- Two decimal numbers on the scale that are equal as numbers. -/
def SameNumber (d e : Decimal) : Prop := InScale e ∧ decimalPlace e = decimalPlace d

theorem decimalPlace_mul_ten (digits : Nat) {exponent : Int} (h : 0 ≤ exponent + decimalScale) :
    decimalPlace ⟨digits, exponent + 1⟩ = decimalPlace ⟨digits * 10, exponent⟩ := by
  have : (exponent + 1 + decimalScale).toNat = (exponent + decimalScale).toNat + 1 := by omega
  unfold decimalPlace
  rw [this, pow_ten_add]
  change digits * (_ * 10) * _ = digits * 10 * _ * _
  ring

theorem trimmed_same (fuel : Nat) {d : Decimal} (hd : InScale d) : SameNumber d (trimmed fuel d) := by
  induction fuel generalizing d with
  | zero => exact ⟨hd, rfl⟩
  | succ fuel ih =>
    rw [trimmed]
    split
    · rename_i h
      unfold InScale at hd
      obtain ⟨hs, hp⟩ := @ih ⟨d.digits / 10, d.exponent + 1⟩ (by unfold InScale; dsimp only; omega)
      refine ⟨hs, hp.trans ?_⟩
      rw [decimalPlace_mul_ten _ hd, Nat.div_mul_cancel (Nat.dvd_of_mod_eq_zero h.2)]
    · exact ⟨hd, rfl⟩

/-! ## Seventeen digits suffice -/

theorem seventeen_le_scale : Nat.pow 10 17 * unitsPerOne ≤ Nat.pow 10 decimalScale := by
  decide +kernel

/-- The leading power of ten is at most the magnitude, and well inside the scale. -/
theorem leadingExponent_spec (hpos : 0 < m.units) :
    17 ≤ m.leadingExponent + decimalScale ∧
      Nat.pow 10 (m.leadingExponent + decimalScale).toNat * unitsPerOne ≤
        m.units * Nat.pow 10 decimalScale := by
  have hlarge : Nat.pow 10 17 ≤ m.units * Nat.pow 10 decimalScale / unitsPerOne :=
    (Nat.le_div_iff_mul_le unitsPerOne_pos).2
      (Nat.le_trans seventeen_le_scale (Nat.le_mul_of_pos_left _ hpos))
  have hself := Nat.div_mul_le_self (m.units * Nat.pow 10 decimalScale) unitsPerOne
  unfold leadingExponent
  dsimp only
  generalize m.units * Nat.pow 10 decimalScale / unitsPerOne = scaled at hlarge hself ⊢
  have hlen := Text.pow_length_toDigits_le (Nat.lt_of_lt_of_le (pow_ten_pos 17) hlarge)
  have hlong : 17 < (Nat.toDigits 10 scaled).length := by
    refine Nat.lt_of_not_le fun hle => Nat.not_le_of_lt ?_ hlarge
    exact (Nat.length_toDigits_le_iff (by decide) (by decide)).1 hle
  have hexp : (((Nat.toDigits 10 scaled).length : Int) - 1 - decimalScale + decimalScale).toNat =
      (Nat.toDigits 10 scaled).length - 1 := by omega
  refine ⟨by omega, ?_⟩
  rw [hexp]
  exact Nat.le_trans (Nat.mul_le_mul_right _ hlen) hself

theorem isSome_onGrid?_of_fits {exponent : Int}
    (h : m.neighbourhood.contains (decimalPlace (m.gridNeighbours exponent).1) ∨
      m.neighbourhood.contains (decimalPlace (m.gridNeighbours exponent).2)) :
    (m.onGrid? exponent).isSome := by
  unfold onGrid?
  dsimp only
  split
  · rfl
  · rename_i hbelow
    rw [if_pos]
    · rfl
    · rcases h with h | h
      · simp only [h, Bool.true_and] at hbelow
        revert hbelow
        cases m.neighbourhood.contains (decimalPlace (m.gridNeighbours exponent).2) <;> simp
      · exact h

theorem onGrid?_spec {exponent : Int} {d : Decimal} (h : m.onGrid? exponent = some d) :
    d.exponent = exponent ∧ m.neighbourhood.contains (decimalPlace d) := by
  unfold onGrid? at h
  dsimp only at h
  split at h
  · rename_i hbelow
    obtain rfl := Option.some.inj h
    rw [Bool.and_eq_true] at hbelow
    exact ⟨rfl, hbelow.1⟩
  · split at h
    · rename_i habove
      obtain rfl := Option.some.inj h
      exact ⟨rfl, habove⟩
    · cases h

/-- The distance between the points of a grid, as places. -/
def gridStep (exponent : Int) : Nat :=
  Nat.pow 10 (exponent + decimalScale).toNat * (4 * unitsPerOne)

theorem gridNeighbours_around (exponent : Int) :
    decimalPlace (m.gridNeighbours exponent).1 ≤ 4 * m.units * Nat.pow 10 decimalScale ∧
      4 * m.units * Nat.pow 10 decimalScale ≤ decimalPlace (m.gridNeighbours exponent).2 ∧
        decimalPlace (m.gridNeighbours exponent).2 =
          decimalPlace (m.gridNeighbours exponent).1 + gridStep exponent := by
  unfold gridNeighbours decimalPlace gridStep
  dsimp only
  generalize hstep : Nat.pow 10 (exponent + decimalScale).toNat = step
  have hpos : 0 < unitsPerOne * step := Nat.mul_pos unitsPerOne_pos (hstep ▸ pow_ten_pos _)
  have hplace {k : Nat} : k * step * (4 * unitsPerOne) = 4 * (k * (unitsPerOne * step)) := by ring
  rw [hplace, hplace, Nat.mul_assoc 4]
  generalize hwhole : m.units * Nat.pow 10 decimalScale / (unitsPerOne * step) = whole
  have hlow : whole * (unitsPerOne * step) ≤ m.units * Nat.pow 10 decimalScale :=
    hwhole ▸ Nat.div_mul_le_self _ _
  have hhigh : m.units * Nat.pow 10 decimalScale < (whole + 1) * (unitsPerOne * step) :=
    (Nat.div_lt_iff_lt_mul hpos).1 (by omega)
  refine ⟨Nat.mul_le_mul_left 4 hlow, Nat.mul_le_mul_left 4 (Nat.le_of_lt hhigh), ?_⟩
  ring

/-- A magnitude has at most 53 bits; a power of two with a smaller neighbourhood below has one. -/
theorem units_of_lastBit (units : Nat) :
    (reachBelow units = 2 ∧ units ≤ 2 ^ (fractionBits + 1) * lastBit units) ∨
      (reachBelow units = 1 ∧ units = 2 ^ fractionBits * lastBit units) := by
  unfold reachBelow
  split
  · rename_i h
    refine .inr ⟨rfl, ?_⟩
    have hlog : fractionBits ≤ units.log2 := by
      refine Nat.le_of_not_lt fun hlt => ?_
      rw [lastBit_eq_one (Nat.le_of_lt hlt)] at h
      exact Nat.lt_irrefl 1 h.2
    rw [lastBit_mul_pow hlog]
    exact h.1
  · refine .inl ⟨rfl, ?_⟩
    have hlt : units < 2 ^ (units.log2 + 1) := Nat.lt_log2_self
    refine Nat.le_trans (Nat.le_of_lt hlt) ?_
    rw [lastBit, ← Nat.pow_add]
    refine Nat.pow_le_pow_right Nat.two_pos ?_
    unfold droppedBits
    omega

/-- The grid of seventeen digits is finer than the neighbourhood. -/
theorem gridStep_lt (hpos : 0 < m.units) :
    gridStep (m.leadingExponent - 16) <
      (2 + reachBelow m.units) * lastBit m.units * Nat.pow 10 decimalScale := by
  obtain ⟨hexp, hlead⟩ := leadingExponent_spec hpos
  have hsplit : Nat.pow 10 (m.leadingExponent + decimalScale).toNat =
      10 ^ 16 * Nat.pow 10 (m.leadingExponent - 16 + decimalScale).toNat := by
    rw [← Nat.pow_eq, ← pow_ten_add]
    congr 1
    omega
  have hstep : 10 ^ 16 * gridStep (m.leadingExponent - 16) ≤
      4 * (m.units * Nat.pow 10 decimalScale) := by
    refine Nat.le_trans (Nat.le_of_eq ?_) (Nat.mul_le_mul_left 4 hlead)
    rw [hsplit, gridStep]
    ring
  have hbit : 0 < lastBit m.units * Nat.pow 10 decimalScale :=
    Nat.mul_pos (lastBit_pos _) scale_pos
  rw [Nat.mul_assoc]
  have hbits : fractionBits = 52 := rfl
  rcases units_of_lastBit m.units with ⟨hreach, hunits⟩ | ⟨hreach, hunits⟩
  · have := Nat.mul_le_mul_right (Nat.pow 10 decimalScale) hunits
    rw [Nat.mul_assoc, hbits] at this
    rw [hreach]
    omega
  · have : m.units * Nat.pow 10 decimalScale =
        2 ^ 52 * (lastBit m.units * Nat.pow 10 decimalScale) := by
      rw [← Nat.mul_assoc, ← hbits, ← hunits]
    rw [hreach]
    omega

/-- Between neighbours so close together one lies in the neighbourhood. -/
theorem isSome_onGrid? (hpos : 0 < m.units) : (m.onGrid? (m.leadingExponent - 16)).isSome := by
  obtain ⟨hbelow, habove, hstep⟩ := m.gridNeighbours_around (m.leadingExponent - 16)
  have hlt := gridStep_lt hpos
  have hreach : reachBelow m.units * lastBit m.units * Nat.pow 10 decimalScale ≤
      4 * m.units * Nat.pow 10 decimalScale := by
    refine Nat.mul_le_mul_right _ ?_
    have := Nat.mul_le_mul_right (lastBit m.units) (reachBelow_le m.units)
    have := lastBit_le hpos m.representable.2
    omega
  have hlow : 0 < reachBelow m.units * lastBit m.units * Nat.pow 10 decimalScale :=
    Nat.mul_pos (Nat.mul_pos (reachBelow_pos _) (lastBit_pos _)) scale_pos
  have hhigh : 0 < 2 * lastBit m.units * Nat.pow 10 decimalScale :=
    Nat.mul_pos (Nat.mul_pos Nat.two_pos (lastBit_pos _)) scale_pos
  refine isSome_onGrid?_of_fits ?_
  rw [Neighbourhood.contains_iff, Neighbourhood.contains_iff, neighbourhood_eq]
  dsimp only
  rw [Nat.sub_mul, Nat.add_mul]
  rw [Nat.add_mul, Nat.add_mul] at hlt
  omega

/-- The fewest digits of a magnitude lie in its neighbourhood. -/
theorem shortest_spec (hpos : 0 < m.units) :
    InScale m.shortest ∧ m.neighbourhood.contains (decimalPlace m.shortest) := by
  obtain ⟨hexp, -⟩ := leadingExponent_spec hpos
  unfold shortest
  rw [if_neg (Nat.ne_of_gt hpos)]
  dsimp only
  generalize hgrids : ((List.range 17).map fun (n : Nat) => m.leadingExponent - n) = grids
  have hmem : m.leadingExponent - 16 ∈ grids := by
    rw [← hgrids]
    exact List.mem_map.2 ⟨16, by decide, rfl⟩
  have hfound : (grids.findSome? m.onGrid?).isSome :=
    List.findSome?_isSome_iff.2 ⟨_, hmem, isSome_onGrid? hpos⟩
  obtain ⟨d, hd⟩ := Option.isSome_iff_exists.1 hfound
  obtain ⟨exponent, hgrid, hon⟩ := List.exists_of_findSome?_eq_some hd
  obtain ⟨rfl, hin⟩ := onGrid?_spec hon
  have hscale : InScale d := by
    rw [← hgrids] at hgrid
    obtain ⟨n, hn, heq⟩ := List.mem_map.1 hgrid
    have := List.mem_range.1 hn
    unfold InScale
    omega
  rw [hd, Option.getD_some]
  obtain ⟨hs, hp⟩ := trimmed_same 18 hscale
  rw [← hp] at hin
  exact ⟨hs, hin⟩

end Orchestration.Magnitude
