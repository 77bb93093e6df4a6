import Orchestration.Policy.Backoff
import Orchestration.Proofs.Binary64.Powers
import Orchestration.Proofs.Duration.Seconds

/-!
# Waits that grow or shrink

Whatever the factor is, a wait is always found and never longer than the cap: the base is multiplied
only when the product is a number of seconds below the cap, and no cap is more than `2 ^ 64` seconds.
A scale that rises makes the wait rise, and so from one failure to the next the waits of a factor
from one on never get shorter, and those of a factor from zero to one never get longer.
-/

namespace Orchestration

namespace Duration

theorem eq_of_nanos_eq {a b : Duration} (h : a.nanos = b.nanos) : a = b := by
  cases a
  cases b
  congr

theorem zero_le (d : Duration) : zero ≤ d := Nat.zero_le _

/-- The longest duration. -/
def longest : Duration := ⟨UInt64.size * nanosPerSecond - 1, by decide⟩

theorem le_refl (d : Duration) : d ≤ d := Nat.le_refl _

theorem nanos_shorter (a b : Duration) : (a.shorter b).nanos = min a.nanos b.nanos := by
  unfold shorter
  split
  · exact (Nat.min_eq_left ‹a ≤ b›).symm
  · exact (Nat.min_eq_right (Nat.le_of_not_le ‹¬ a ≤ b›)).symm

theorem shorter_le (a b : Duration) : a.shorter b ≤ b :=
  (nanos_shorter a b).trans_le (Nat.min_le_right _ _)

end Duration

namespace Backoff

variable {base cap : Duration} {factor scale : Binary64}

/-! ## Multiplying -/

/-- All guards let the scale through, so that the base is multiplied with it. -/
structure Multiplies (base : Duration) (scale : Binary64) (cap : Duration) : Prop where
  finite : scale.isFinite = true
  positive : scale.atMost .zero = false
  below : cap.toSeconds.atMost (base.toSeconds.times scale) = false

theorem Multiplies.capped? (h : Multiplies base scale cap) :
    capped? base scale cap = (base.scale? scale).map (·.shorter cap) := by
  simp [Backoff.capped?, h.finite, h.positive, h.below]

/-- A scale that is not multiplied with is no wait if it is finite and not positive, else the cap. -/
theorem multiplies_or_capped? (base : Duration) (scale : Binary64) (cap : Duration) :
    Multiplies base scale cap ∨
      (scale.isFinite = true ∧ scale.atMost .zero = true) ∧ capped? base scale cap = some .zero ∨
      ¬ (scale.isFinite = true ∧ scale.atMost .zero = true) ∧
        capped? base scale cap = some cap := by
  unfold Backoff.capped?
  cases hfinite : scale.isFinite with
  | false => simp
  | true =>
    cases hpositive : scale.atMost .zero with
    | true => simp
    | false =>
      cases hbelow : cap.toSeconds.atMost (base.toSeconds.times scale) with
      | true => simp
      | false => exact .inl ⟨hfinite, hpositive, hbelow⟩

/-- A scale that is let through is positive. -/
theorem Multiplies.exists_scale (h : Multiplies base scale cap) :
    ∃ m, scale = .finite false m := by
  have hfinite := h.finite
  have hpositive := h.positive
  cases scale with
  | nan => cases hfinite
  | infinite s => cases hfinite
  | finite s m =>
    cases s with
    | false => exact ⟨m, rfl⟩
    | true => simp [Binary64.atMost, Binary64.place?, Binary64.zero, Magnitude.zero] at hpositive

/-- The product is a number of seconds below the cap, and so below `2 ^ 64`. -/
theorem Multiplies.exists_product (h : Multiplies base scale cap) :
    ∃ m, scale.times base.toSeconds = .finite false m ∧ m.units < cap.secondsUnits := by
  obtain ⟨m, rfl⟩ := h.exists_scale
  obtain ⟨k, hk, -⟩ := base.exists_toSeconds
  have hround : roundUnits (m.units * k.units) unitsPerOne < cap.secondsUnits := by
    have hproduct : (base.toSeconds.times (.finite false m)).LiesAt
        (min unitsBound (roundUnits (m.units * k.units) unitsPerOne)) := by
      rw [hk, Binary64.times_comm, Binary64.times_finite]
      exact Binary64.liesAt_roundedUnits (by simp)
    have hbelow : ¬ cap.secondsUnits ≤ min unitsBound (roundUnits (m.units * k.units) unitsPerOne) := by
      rw [← cap.liesAt_toSeconds.atMost_iff hproduct, h.below]
      nofun
    have hcap := cap.secondsUnits_lt
    omega
  rw [hk, Binary64.times_finite]
  obtain ⟨product, hproduct, hunits⟩ := Binary64.exists_roundedUnits (false ^^ false)
    (Nat.lt_trans hround cap.secondsUnits_lt)
  exact ⟨product, hproduct, hunits ▸ hround⟩

theorem Multiplies.exists_capped (h : Multiplies base scale cap) :
    ∃ m d, scale.times base.toSeconds = .finite false m ∧ m.units < secondsBound ∧
      base.scale? scale = some d ∧ d.nanos = Duration.nanosOf m.units ∧
      Backoff.capped? base scale cap = some (d.shorter cap) := by
  obtain ⟨m, hproduct, hlt⟩ := h.exists_product
  have hbound : m.units < secondsBound := Nat.lt_of_lt_of_le hlt cap.secondsUnits_le
  obtain ⟨d, hd, hnanos⟩ := Duration.exists_ofNanos? (Duration.nanosOf_lt m.representable hbound)
  have hscale : base.scale? scale = some d := by
    unfold Duration.scale?
    rw [hproduct, Duration.ofSeconds?_of_liesAt (Binary64.liesAt_finite m) m.representable.1, hd]
  refine ⟨m, d, hproduct, hbound, hscale, hnanos, ?_⟩
  rw [h.capped?, hscale, Option.map_some]

/-- A wait is found whatever the scale is, and it is at most the cap. -/
theorem exists_capped (base : Duration) (scale : Binary64) (cap : Duration) :
    ∃ d, capped? base scale cap = some d ∧ d ≤ cap := by
  obtain h | ⟨-, h⟩ | ⟨-, h⟩ := multiplies_or_capped? base scale cap
  · obtain ⟨m, d, -, -, -, -, hcapped⟩ := h.exists_capped
    exact ⟨_, hcapped, d.shorter_le cap⟩
  · exact ⟨_, h, cap.zero_le⟩
  · exact ⟨_, h, cap.le_refl⟩

/-! ## By the place of the scale -/

/-- The wait in nanoseconds, by the place of a scale that is not negative. -/
def waitNanos (base cap : Duration) (place : Nat) : Nat :=
  if place = 0 then 0
  else if unitsBound ≤ place ∨ cap.secondsUnits ≤ productPlace place base.secondsUnits then cap.nanos
  else min (Duration.nanosOf (productPlace place base.secondsUnits)) cap.nanos

theorem waitNanos_le (base cap : Duration) (place : Nat) : waitNanos base cap place ≤ cap.nanos := by
  unfold waitNanos
  split
  · exact Nat.zero_le _
  · split
    · exact Nat.le_refl _
    · exact Nat.min_le_right _ _

/-- A larger scale never makes the wait shorter. -/
theorem waitNanos_mono (base cap : Duration) {p q : Nat} (h : p ≤ q) :
    waitNanos base cap p ≤ waitNanos base cap q := by
  have hproduct : productPlace p base.secondsUnits ≤ productPlace q base.secondsUnits :=
    productPlace_mono h (Nat.le_refl _)
  by_cases hzero : p = 0
  · simp [waitNanos, hzero]
  by_cases hcapped : unitsBound ≤ q ∨ cap.secondsUnits ≤ productPlace q base.secondsUnits
  · rw [waitNanos.eq_def base cap q, if_neg (by omega), if_pos hcapped]
    exact waitNanos_le base cap p
  · rw [waitNanos.eq_def base cap p, waitNanos.eq_def base cap q, if_neg hzero, if_neg (by omega),
      if_neg hcapped, if_neg (by omega)]
    have hnanos := Duration.nanosOf_mono hproduct
    omega

theorem liesAt_product (base : Duration) {p : Nat} (h : scale.LiesAt p) (hp : p < unitsBound) :
    (base.toSeconds.times scale).LiesAt (productPlace p base.secondsUnits) := by
  have hbase := base.secondsUnits_lt
  rw [Binary64.times_comm]
  exact h.times base.liesAt_toSeconds (by omega) (by omega)

theorem multiplies_iff (base cap : Duration) {p : Nat} (h : scale.LiesAt p) :
    Multiplies base scale cap ↔
      p ≠ 0 ∧ p < unitsBound ∧ productPlace p base.secondsUnits < cap.secondsUnits := by
  have hpositive : scale.atMost .zero = false ↔ p ≠ 0 := by
    rw [← Bool.not_eq_true, h.atMost_iff Binary64.liesAt_zero, Nat.le_zero]
  have hbelow (hp : p < unitsBound) : cap.toSeconds.atMost (base.toSeconds.times scale) = false ↔
      productPlace p base.secondsUnits < cap.secondsUnits := by
    rw [← Bool.not_eq_true, cap.liesAt_toSeconds.atMost_iff (liesAt_product base h hp), Nat.not_le]
  constructor
  · intro hmul
    have hp := h.isFinite_iff.mp hmul.finite
    exact ⟨hpositive.mp hmul.positive, hp, (hbelow hp).mp hmul.below⟩
  · rintro ⟨hne, hp, hlt⟩
    exact ⟨h.isFinite_iff.mpr hp, hpositive.mpr hne, (hbelow hp).mpr hlt⟩

theorem exists_capped_of_liesAt (base cap : Duration) {p : Nat} (h : scale.LiesAt p) :
    ∃ d, capped? base scale cap = some d ∧ d.nanos = waitNanos base cap p := by
  unfold waitNanos
  by_cases hmul : Multiplies base scale cap
  · obtain ⟨hne, hp, hlt⟩ := (multiplies_iff base cap h).mp hmul
    obtain ⟨m, d, hproduct, -, -, hnanos, hcapped⟩ := hmul.exists_capped
    have hunits : m.units = productPlace p base.secondsUnits := by
      refine Binary64.LiesAt.unique ?_ (liesAt_product base h hp)
      rw [Binary64.times_comm, hproduct]
      exact Binary64.liesAt_finite m
    refine ⟨_, hcapped, ?_⟩
    rw [if_neg hne, if_neg (by omega), Duration.nanos_shorter, hnanos, hunits]
  · have hzero : (scale.isFinite = true ∧ scale.atMost .zero = true) ↔ p = 0 := by
      have hbound : 0 < unitsBound := Nat.lt_trans Magnitude.unitsPerOne_pos unitsPerOne_lt_bound
      rw [h.isFinite_iff, h.atMost_iff Binary64.liesAt_zero]
      omega
    obtain ⟨hp, hcapped⟩ | ⟨hp, hcapped⟩ := (multiplies_or_capped? base scale cap).resolve_left hmul
    · exact ⟨_, hcapped, (if_pos (hzero.mp hp)).symm⟩
    · have hne : p ≠ 0 := fun hp' => hp (hzero.mpr hp')
      rw [multiplies_iff base cap h] at hmul
      exact ⟨_, hcapped, by rw [if_neg hne, if_pos (by omega)]⟩

/-- A larger scale never makes the wait shorter. -/
theorem capped_mono (base cap : Duration) {scale scale' : Binary64} {p q : Nat}
    (h : scale.LiesAt p) (h' : scale'.LiesAt q) (hle : p ≤ q) :
    ∃ d d', capped? base scale cap = some d ∧ capped? base scale' cap = some d' ∧ d ≤ d' := by
  obtain ⟨d, hd, hnanos⟩ := exists_capped_of_liesAt base cap h
  obtain ⟨d', hd', hnanos'⟩ := exists_capped_of_liesAt base cap h'
  refine ⟨d, d', hd, hd', ?_⟩
  change d.nanos ≤ d'.nanos
  rw [hnanos, hnanos']
  exact waitNanos_mono base cap hle

/-! ## From one failure to the next -/

theorem delay?_exponential (base : Duration) (factor : Binary64) (cap : Duration) (n : Nat) :
    (exponential base factor cap).delay? (n + 1) =
      capped? base (factor.pow (min n maxExponent)) cap :=
  rfl

theorem exists_delay (base : Duration) (factor : Binary64) (cap : Duration) (failures : Nat) :
    ∃ d, (exponential base factor cap).delay? failures = some d ∧ d ≤ cap := by
  cases failures with
  | zero => exact ⟨.zero, rfl, cap.zero_le⟩
  | succ n => exact exists_capped base _ cap

/-- Each failure adds one to the exponent, until that is the largest one. -/
theorem min_maxExponent_succ (n : Nat) :
    min (n + 1) maxExponent = min n maxExponent ∨
      min (n + 1) maxExponent = min n maxExponent + 1 := by
  omega

theorem delay_rises (base cap : Duration) (h : Binary64.one.atMost factor = true) (failures : Nat) :
    ∃ d d', (exponential base factor cap).delay? failures = some d ∧
      (exponential base factor cap).delay? (failures + 1) = some d' ∧ d ≤ d' := by
  cases failures with
  | zero =>
    obtain ⟨d, hd, -⟩ := exists_delay base factor cap 1
    exact ⟨.zero, d, rfl, hd, d.zero_le⟩
  | succ n =>
    obtain ⟨a, b, ha, hb, -, hle⟩ := Binary64.rises_pow h (min n maxExponent)
    rw [delay?_exponential, delay?_exponential]
    obtain hsame | hnext := min_maxExponent_succ n
    · rw [hsame]
      exact capped_mono base cap ha ha (Nat.le_refl a)
    · rw [hnext]
      exact capped_mono base cap ha hb hle

theorem delay_falls (base cap : Duration) (hzero : Binary64.zero.atMost factor = true)
    (hone : factor.atMost .one = true) {failures : Nat} (hpos : 1 ≤ failures) :
    ∃ d d', (exponential base factor cap).delay? failures = some d ∧
      (exponential base factor cap).delay? (failures + 1) = some d' ∧ d' ≤ d := by
  obtain ⟨n, rfl⟩ := Nat.exists_eq_add_of_le' hpos
  obtain ⟨a, b, ha, hb, hle, -⟩ := Binary64.falls_pow hzero hone (min n maxExponent)
  have hdelay : ∃ d' d, capped? base (factor.pow (min (n + 1) maxExponent)) cap = some d' ∧
      capped? base (factor.pow (min n maxExponent)) cap = some d ∧ d' ≤ d := by
    obtain hsame | hnext := min_maxExponent_succ n
    · rw [hsame]
      exact capped_mono base cap ha ha (Nat.le_refl a)
    · rw [hnext]
      exact capped_mono base cap hb ha hle
  obtain ⟨d', d, hd', hd, hle⟩ := hdelay
  exact ⟨d, d', hd, hd', hle⟩

/-- From one failure to the next the waits of a factor from one on, infinity included, never get
shorter, and those of a factor from zero to one never get longer once there are any. -/
theorem delay_monotone (base : Duration) (factor : Binary64) (cap : Duration) :
    (Binary64.one.atMost factor = true → ∀ failures,
      ∃ d d', (exponential base factor cap).delay? failures = some d ∧
        (exponential base factor cap).delay? (failures + 1) = some d' ∧ d ≤ d') ∧
    (Binary64.zero.atMost factor = true → factor.atMost .one = true → ∀ failures, 1 ≤ failures →
      ∃ d d', (exponential base factor cap).delay? failures = some d ∧
        (exponential base factor cap).delay? (failures + 1) = some d' ∧ d' ≤ d) :=
  ⟨delay_rises base cap, fun hzero hone _ hpos => delay_falls base cap hzero hone hpos⟩

theorem delay_monotone_of_extremes :
    (∃ d d', (exponential (.ofMillis 100) (.infinite false) (.ofMillis 400)).delay? 1 = some d ∧
      (exponential (.ofMillis 100) (.infinite false) (.ofMillis 400)).delay? 2 = some d' ∧
      d ≤ d') ∧
    ∃ d d', (exponential (.ofMillis 100) .zero (.ofMillis 400)).delay? 1 = some d ∧
      (exponential (.ofMillis 100) .zero (.ofMillis 400)).delay? 2 = some d' ∧ d' ≤ d :=
  ⟨(delay_monotone (.ofMillis 100) (.infinite false) (.ofMillis 400)).1 (by decide +kernel) 1,
    (delay_monotone (.ofMillis 100) .zero (.ofMillis 400)).2 (by decide +kernel)
      (by decide +kernel) 1 (Nat.le_refl 1)⟩

/-! ## In machine words -/

/-- The exponent after so many failures: the difference of two words of 32 bits, capped and then read
as a signed word. -/
def exponentWord (failures : UInt32) : Int32 := (min (failures - 1) 0x7fffffff).toInt32

theorem toNat_min_word (a b : UInt32) : (min a b).toNat = min a.toNat b.toNat := by
  rw [show min a b = if a ≤ b then a else b from rfl]
  simp only [UInt32.le_iff_toNat_le]
  split <;> omega

/-- Neither the difference nor the change of sign wraps around. -/
theorem toInt_exponentWord {failures : UInt32} (h : failures ≠ 0) :
    (exponentWord failures).toInt = (min (failures.toNat - 1) maxExponent : Nat) := by
  have hone : 1 ≤ failures := by
    rw [UInt32.le_iff_toNat_le]
    exact Nat.pos_of_ne_zero fun hzero => h (UInt32.toNat_inj.mp hzero)
  have hword : (min (failures - 1) 0x7fffffff).toBitVec.toNat =
      min (failures.toNat - 1) maxExponent := by
    rw [UInt32.toNat_toBitVec, toNat_min_word, UInt32.toNat_sub_of_le failures 1 hone]
    rfl
  change (min (failures - 1) 0x7fffffff).toBitVec.toInt = _
  rw [BitVec.toInt_eq_toNat_of_lt, hword]
  rw [hword]
  unfold maxExponent
  omega

theorem delay?_word (base : Duration) (factor : Binary64) (cap : Duration) {failures : UInt32}
    (h : failures ≠ 0) :
    (exponential base factor cap).delay? failures.toNat =
      capped? base (factor.pow (exponentWord failures).toInt.toNat) cap := by
  obtain ⟨n, hn⟩ := Nat.exists_eq_succ_of_ne_zero fun hzero => h (UInt32.toNat_inj.mp hzero)
  rw [toInt_exponentWord h, Int.toNat_natCast, hn]
  exact delay?_exponential base factor cap n

theorem liesAt_longest : Duration.longest.toSeconds.LiesAt secondsBound := by
  have h : Duration.longest.secondsUnits = secondsBound := by decide +kernel
  rw [← h]
  exact Duration.longest.liesAt_toSeconds

/-- The wait is found, it is at most the cap, and its exponent is no other in machine words. When the
guards let the base be multiplied, the product is a number of seconds from zero up to but not
including `2 ^ 64`, even though the longest cap is rounded to just that. -/
theorem delay_capped (base : Duration) (factor : Binary64) (cap : Duration) (failures : UInt32) :
    (∃ d, (exponential base factor cap).delay? failures.toNat = some d ∧ d ≤ cap) ∧
    (failures ≠ 0 →
      (exponentWord failures).toInt = (min (failures.toNat - 1) maxExponent : Nat) ∧
      (exponential base factor cap).delay? failures.toNat =
        capped? base (factor.pow (exponentWord failures).toInt.toNat) cap) ∧
    (∀ scale, Multiplies base scale cap →
      ∃ m d, scale.times base.toSeconds = .finite false m ∧ m.units < UInt64.size * unitsPerOne ∧
        base.scale? scale = some d ∧ capped? base scale cap = some (d.shorter cap)) ∧
    Duration.longest.toSeconds.LiesAt (UInt64.size * unitsPerOne) := by
  refine ⟨exists_delay base factor cap failures.toNat,
    fun h => ⟨toInt_exponentWord h, delay?_word base factor cap h⟩, fun scale h => ?_,
    liesAt_longest⟩
  obtain ⟨m, d, hproduct, hlt, hscale, -, hcapped⟩ := h.exists_capped
  exact ⟨m, d, hproduct, hlt, hscale, hcapped⟩

theorem delay_capped_of_longest :
    (exponentWord 4294967295).toInt = (min (UInt32.toNat 4294967295 - 1) maxExponent : Nat) ∧
    ∃ m d, Binary64.one.times (Duration.ofMillis 1000).toSeconds = .finite false m ∧
      m.units < UInt64.size * unitsPerOne ∧ (Duration.ofMillis 1000).scale? .one = some d ∧
      capped? (.ofMillis 1000) .one .longest = some (d.shorter .longest) :=
  ⟨((delay_capped (.ofMillis 1000) .one .longest 4294967295).2.1 (by decide)).1,
    (delay_capped (.ofMillis 1000) .one .longest 4294967295).2.2.1 .one
      ⟨by decide +kernel, by decide +kernel, by decide +kernel⟩⟩

end Backoff

end Orchestration
