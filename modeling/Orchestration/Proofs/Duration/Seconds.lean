import Orchestration.Duration.Scaling
import Orchestration.Proofs.Binary64.Order

/-!
# Durations in floating point seconds

A duration is never more than `2 ^ 64` seconds, though the longest ones are rounded up to that, and
every number of seconds below that is a duration again. Up to ten seconds the way there and back
leaves the duration as it was.
-/

namespace Orchestration

/-- `2 ^ 64` seconds, in units. -/
def secondsBound : Nat := UInt64.size * unitsPerOne

theorem secondsBound_eq : secondsBound = 2 ^ (1137 + 1) := by decide +kernel

theorem secondsBound_lt : secondsBound + unitsPerOne < unitsBound := by decide +kernel

theorem Binary64.exists_roundedUnits (negative : Bool) {num den : Nat}
    (h : roundUnits num den < unitsBound) :
    ∃ m, roundedUnits negative num den = .finite negative m ∧ m.units = roundUnits num den := by
  unfold roundedUnits Magnitude.round?
  rw [dif_pos h]
  exact ⟨_, rfl, rfl⟩

theorem Binary64.exists_ofRatio (negative : Bool) {num den : Nat}
    (h : roundUnits (num * unitsPerOne) den < unitsBound) :
    ∃ m, ofRatio negative num den = .finite negative m ∧
      m.units = roundUnits (num * unitsPerOne) den :=
  exists_roundedUnits negative h

theorem Representable.roundUnits_one {units : Nat} (h : Representable units) :
    roundUnits units 1 = units := by
  simpa only [Nat.mul_one] using roundUnits_mul_eq Nat.one_pos h.2

/-- A magnitude below a power of two is at least one last bit below it. -/
theorem Representable.add_pow_le {units e : Nat} (h : Representable units) (he : fractionBits ≤ e)
    (hlt : units < 2 ^ (e + 1)) : units + 2 ^ (e - fractionBits) ≤ 2 ^ (e + 1) := by
  have hdouble : 2 ^ (e + 1) = 2 ^ e + 2 ^ e := by rw [Nat.pow_succ, Nat.mul_two]
  have hbit : 2 ^ (e - fractionBits) ≤ 2 ^ e :=
    Nat.pow_le_pow_right Nat.two_pos (Nat.sub_le _ _)
  by_cases hlow : units < 2 ^ e
  · omega
  · have hne : units ≠ 0 := Nat.ne_of_gt (Nat.lt_of_lt_of_le (Nat.two_pow_pos e) (by omega))
    have hge : e ≤ units.log2 := (Nat.le_log2 hne).mpr (Nat.le_of_not_lt hlow)
    have hlog : units.log2 < e + 1 := (Nat.log2_lt hne).mpr hlt
    obtain rfl : units.log2 = e := by omega
    exact add_lastBit_le h.2

namespace Duration

/-! ## To seconds -/

/-- Whole seconds, rounded, in units. -/
def wholeUnits (d : Duration) : Nat := roundUnits (d.seconds * unitsPerOne) 1

/-- The fraction of a second, rounded, in units. -/
def fractionUnits (d : Duration) : Nat := roundUnits (d.fraction * unitsPerOne) nanosPerSecond

/-- The duration in seconds, in units. -/
def secondsUnits (d : Duration) : Nat := roundUnits (d.wholeUnits + d.fractionUnits) 1

theorem seconds_lt (d : Duration) : d.seconds < UInt64.size :=
  (Nat.div_lt_iff_lt_mul (by decide)).mpr d.nanos_lt

theorem fraction_lt (d : Duration) : d.fraction < nanosPerSecond := Nat.mod_lt _ (by decide)

theorem wholeUnits_le (d : Duration) : d.wholeUnits ≤ secondsBound := by
  have hbound : roundUnits (UInt64.size * unitsPerOne) 1 = secondsBound := by decide +kernel
  have hle := roundUnits_mono 1 (Nat.mul_le_mul_right unitsPerOne (Nat.le_of_lt d.seconds_lt))
  rwa [hbound] at hle

theorem fractionUnits_le (d : Duration) : d.fractionUnits ≤ unitsPerOne := by
  have hone : roundUnits (nanosPerSecond * unitsPerOne) nanosPerSecond = unitsPerOne := by
    decide +kernel
  have hle := roundUnits_mono nanosPerSecond
    (Nat.mul_le_mul_right unitsPerOne (Nat.le_of_lt d.fraction_lt))
  rwa [hone] at hle

/-- No duration is more than `2 ^ 64` seconds. -/
theorem secondsUnits_le (d : Duration) : d.secondsUnits ≤ secondsBound := by
  have hbound : roundUnits (secondsBound + unitsPerOne) 1 = secondsBound := by decide +kernel
  have hle := roundUnits_mono 1 (Nat.add_le_add d.wholeUnits_le d.fractionUnits_le)
  rwa [hbound] at hle

theorem secondsUnits_lt (d : Duration) : d.secondsUnits < unitsBound := by
  have hle := d.secondsUnits_le
  have hbound := secondsBound_lt
  omega

theorem wholeUnits_lt (d : Duration) : d.wholeUnits < unitsBound := by
  have hle := d.wholeUnits_le
  have hbound := secondsBound_lt
  omega

theorem fractionUnits_lt (d : Duration) : d.fractionUnits < unitsBound :=
  Nat.lt_of_le_of_lt d.fractionUnits_le unitsPerOne_lt_bound

theorem toSeconds_of_finite {d : Duration} {s t : Bool} {whole part : Magnitude}
    (h : Binary64.ofRatio false d.seconds 1 = .finite s whole)
    (h' : Binary64.ofRatio false d.fraction nanosPerSecond = .finite t part) :
    d.toSeconds = .roundedUnits false (whole.units + part.units) 1 := by
  -- The constant is unfolded on its own: applied to a duration, its unfolding is checked by
  -- evaluating what it matches on.
  generalize hf : toSeconds = f
  delta toSeconds at hf
  rw [← hf]
  beta_reduce
  rw [h, h']

theorem exists_toSeconds (d : Duration) :
    ∃ m, d.toSeconds = .finite false m ∧ m.units = d.secondsUnits := by
  obtain ⟨whole, hwhole, hunits⟩ := Binary64.exists_ofRatio false d.wholeUnits_lt
  obtain ⟨part, hpart, hunits'⟩ := Binary64.exists_ofRatio false d.fractionUnits_lt
  rw [toSeconds_of_finite hwhole hpart, hunits, hunits']
  exact Binary64.exists_roundedUnits false d.secondsUnits_lt

theorem liesAt_toSeconds (d : Duration) : d.toSeconds.LiesAt d.secondsUnits := by
  obtain ⟨m, h, hunits⟩ := d.exists_toSeconds
  rw [h, ← hunits]
  exact Binary64.liesAt_finite m

theorem representable_secondsUnits (d : Duration) : Representable d.secondsUnits := by
  obtain ⟨m, -, hunits⟩ := d.exists_toSeconds
  rw [← hunits]
  exact m.representable

/-- So many whole seconds are not rounded to fewer, if their number is not rounded itself. -/
theorem le_secondsUnits {d : Duration} {k : Nat} (hk : Representable (k * unitsPerOne))
    (h : k ≤ d.seconds) : k * unitsPerOne ≤ d.secondsUnits := by
  have hround := hk.roundUnits_one
  have hwhole : k * unitsPerOne ≤ d.wholeUnits := by
    have hle := roundUnits_mono 1 (Nat.mul_le_mul_right unitsPerOne h)
    rwa [hround] at hle
  have hle := roundUnits_mono 1 (Nat.le_trans hwhole (Nat.le_add_right _ d.fractionUnits))
  rwa [hround] at hle

/-! ## From seconds -/

/-- The nanoseconds in so many units of a second. -/
def nanosOf (units : Nat) : Nat := roundHalfEven (units * nanosPerSecond) unitsPerOne

theorem nanosOf_mono {a b : Nat} (h : a ≤ b) : nanosOf a ≤ nanosOf b :=
  roundHalfEven_mono _ (Nat.mul_le_mul_right _ h)

/-- Below `2 ^ 64` seconds there are two thousand seconds of room, so rounding to nanoseconds cannot
reach that. -/
theorem nanosOf_lt {units : Nat} (h : Representable units) (hlt : units < secondsBound) :
    nanosOf units < UInt64.size * nanosPerSecond := by
  have hroom : units + 2 ^ (1137 - fractionBits) ≤ secondsBound := by
    rw [secondsBound_eq] at hlt ⊢
    exact h.add_pow_le (by decide) hlt
  have hstep : unitsPerOne < 2 ^ (1137 - fractionBits) * nanosPerSecond := by decide +kernel
  have hnear := (roundHalfEven_near (units * nanosPerSecond) Magnitude.unitsPerOne_pos).1
  have hscaled : units * nanosPerSecond + 2 ^ (1137 - fractionBits) * nanosPerSecond ≤
      UInt64.size * nanosPerSecond * unitsPerOne := by
    rw [← Nat.add_mul, Nat.mul_right_comm]
    exact Nat.mul_le_mul_right _ hroom
  refine Nat.lt_of_mul_lt_mul_right (a := unitsPerOne) ?_
  unfold nanosOf
  omega

theorem ofSeconds?_of_liesAt {x : Binary64} {n : Nat} (h : x.LiesAt n) (hn : n < unitsBound) :
    ofSeconds? x = ofNanos? (nanosOf n) := by
  obtain ⟨s, m, rfl, rfl, hs⟩ := h.exists_finite hn
  unfold ofSeconds?
  refine if_neg ?_
  rintro ⟨hsign, hpos⟩
  exact hpos (hs hsign)

theorem exists_ofNanos? {n : Nat} (h : n < UInt64.size * nanosPerSecond) :
    ∃ d, ofNanos? n = some d ∧ d.nanos = n :=
  ⟨⟨n, h⟩, dif_pos h, rfl⟩

/-! ## There and back -/

/-- The last of 53 bits, if the first one is worth eight seconds. -/
def lastBitOfEight : Nat := 2 ^ 1025

theorem lastBitOfEight_lt : 3 * (nanosPerSecond * lastBitOfEight) < unitsPerOne := by
  decide +kernel

theorem roundUnits_near_of_lt_sixteen {num den : Nat} (hden : 0 < den)
    (h : num < den * (16 * unitsPerOne)) :
    2 * (roundUnits num den * den) ≤ 2 * num + den * lastBitOfEight ∧
      2 * num ≤ 2 * (roundUnits num den * den) + den * lastBitOfEight := by
  have hsixteen : 16 * unitsPerOne = 2 ^ (1025 + fractionBits + 1) := by decide +kernel
  rw [hsixteen] at h
  exact roundUnits_near hden h

theorem fractionUnits_near (d : Duration) :
    2 * (d.fractionUnits * nanosPerSecond) ≤
        2 * (d.fraction * unitsPerOne) + nanosPerSecond * lastBitOfEight ∧
      2 * (d.fraction * unitsPerOne) ≤
        2 * (d.fractionUnits * nanosPerSecond) + nanosPerSecond * lastBitOfEight := by
  have hone := Magnitude.unitsPerOne_pos
  have hle : unitsPerOne ≤ 16 * unitsPerOne := by omega
  have hpos : 0 < 16 * unitsPerOne := by omega
  exact roundUnits_near_of_lt_sixteen (by decide)
    (Nat.mul_lt_mul_of_lt_of_le d.fraction_lt hle hpos)

theorem wholeUnits_near {d : Duration} (h : d.seconds ≤ 10) :
    2 * d.wholeUnits ≤ 2 * (d.seconds * unitsPerOne) + lastBitOfEight ∧
      2 * (d.seconds * unitsPerOne) ≤ 2 * d.wholeUnits + lastBitOfEight := by
  have hlt : d.seconds * unitsPerOne < 1 * (16 * unitsPerOne) := by
    rw [Nat.one_mul]
    exact Nat.mul_lt_mul_of_pos_right (by omega) Magnitude.unitsPerOne_pos
  unfold wholeUnits
  simpa only [Nat.mul_one, Nat.one_mul] using roundUnits_near_of_lt_sixteen Nat.one_pos hlt

theorem secondsUnits_near {d : Duration} (h : d.seconds ≤ 10) :
    2 * d.secondsUnits ≤ 2 * (d.wholeUnits + d.fractionUnits) + lastBitOfEight ∧
      2 * (d.wholeUnits + d.fractionUnits) ≤ 2 * d.secondsUnits + lastBitOfEight := by
  have hlt : d.wholeUnits + d.fractionUnits < 1 * (16 * unitsPerOne) := by
    have hwhole := (wholeUnits_near h).1
    have hseconds : d.seconds * unitsPerOne ≤ 10 * unitsPerOne := Nat.mul_le_mul_right _ h
    have hpart := d.fractionUnits_le
    have hbit := lastBitOfEight_lt
    have hone := Magnitude.unitsPerOne_pos
    rw [show nanosPerSecond = 1_000_000_000 from rfl] at hbit
    omega
  unfold secondsUnits
  simpa only [Nat.mul_one, Nat.one_mul] using roundUnits_near_of_lt_sixteen Nat.one_pos hlt

/-- Three roundings, each by at most half a bit, are less than half a nanosecond together. -/
theorem nanosOf_secondsUnits {d : Duration} (h : d.nanos ≤ 10 * nanosPerSecond) :
    nanosOf d.secondsUnits = d.nanos := by
  have hseconds : d.seconds ≤ 10 := Nat.div_le_of_le_mul (Nat.mul_comm .. ▸ h)
  have hnanos : d.nanos * unitsPerOne =
      nanosPerSecond * (d.seconds * unitsPerOne) + d.fraction * unitsPerOne := by
    rw [← Nat.mul_assoc, ← Nat.add_mul]
    exact congrArg (· * unitsPerOne) (Nat.div_add_mod _ _).symm
  have hbit := lastBitOfEight_lt
  have hwhole := wholeUnits_near hseconds
  have hpart := d.fractionUnits_near
  have hsum := secondsUnits_near hseconds
  unfold nanosOf
  rw [show nanosPerSecond = 1_000_000_000 from rfl] at *
  refine roundHalfEven_eq Magnitude.unitsPerOne_pos ?_ ?_ (.inr ⟨?_, ?_⟩) <;> omega

end Duration

end Orchestration
