import Orchestration.Config.Basic
import Orchestration.Proofs.Policy.Waits

/-!
# Waits with and without a multiplier

A multiplier from one on makes the waits of a section grow up to a cap. Where no cap is configured
that is ten seconds, so the multiplier does not shorten any wait if the section asks for ten seconds
at most, and makes every wait ten seconds if it asks for more.
-/

namespace Orchestration

namespace RetryConfig

open Backoff (waitNanos waitNanos_mono)

/-- The section without its multiplier. -/
def flat (c : RetryConfig) : RetryConfig := { c with multiplier := none }

variable {base : Duration} {p : Nat}

theorem secondsUnits_standardCap : standardCap.secondsUnits = 10 * unitsPerOne := by decide +kernel

/-- Up to ten seconds, a scale from one on leaves at least the base. -/
theorem le_waitNanos (hbase : base.nanos ≤ standardCap.nanos) (hp : unitsPerOne ≤ p) :
    base.nanos ≤ waitNanos base standardCap p := by
  have hone : base.nanos ≤ waitNanos base standardCap unitsPerOne := by
    have hpos := Magnitude.unitsPerOne_pos
    unfold waitNanos
    rw [if_neg (by omega), productPlace_one base.representable_secondsUnits,
      Duration.nanosOf_secondsUnits hbase]
    split
    · exact hbase
    · exact Nat.le_min.mpr ⟨Nat.le_refl _, hbase⟩
  exact Nat.le_trans hone (waitNanos_mono base standardCap hp)

/-- From ten seconds on, a scale from one on leaves the cap. -/
theorem waitNanos_eq (hbase : standardCap.nanos ≤ base.nanos) (hp : unitsPerOne ≤ p) :
    waitNanos base standardCap p = standardCap.nanos := by
  have hpos := Magnitude.unitsPerOne_pos
  have hseconds : standardCap.secondsUnits ≤ base.secondsUnits := by
    rw [secondsUnits_standardCap]
    refine Duration.le_secondsUnits (by decide +kernel) ?_
    exact (Nat.le_div_iff_mul_le (by decide)).mpr hbase
  have hproduct := productPlace_mono hp (Nat.le_refl base.secondsUnits)
  rw [productPlace_one base.representable_secondsUnits] at hproduct
  unfold waitNanos
  rw [if_neg (by omega), if_pos (by omega)]

theorem ofMillis_le_standardCap_iff (ms : UInt64) :
    Duration.ofMillis ms ≤ standardCap ↔ ms ≤ 10000 := by
  change ms.toNat * nanosPerMilli ≤ 10000 * nanosPerMilli ↔ ms.toNat ≤ 10000
  exact Nat.mul_le_mul_right_iff (by decide)

theorem backoff_policy_of_multiplier {c : RetryConfig} {factor : Binary64}
    (hfactor : c.multiplier = some factor) (hcap : c.maxBackoffMillis = none) :
    c.policy.backoff = .exponential (.ofMillis c.backoffMillis) factor standardCap := by
  unfold policy
  rw [hfactor, hcap]
  rfl

theorem backoff_policy_flat (c : RetryConfig) :
    c.flat.policy.backoff = .fixed (.ofMillis c.backoffMillis) :=
  rfl

/-- A multiplier from one on never makes a wait shorter if the section asks for ten seconds at most.
If it asks for more, every wait is shorter than without the multiplier, the first one included. -/
theorem growth_waits {c : RetryConfig} {factor : Binary64} (hfactor : c.multiplier = some factor)
    (hone : Binary64.one.atMost factor = true) (hcap : c.maxBackoffMillis = none) {retry : Nat}
    (hpos : 1 ≤ retry) :
    ∃ flat grown, c.flat.policy.backoff.delay? retry = some flat ∧
      c.policy.backoff.delay? retry = some grown ∧ flat = .ofMillis c.backoffMillis ∧
      (flat ≤ grown ↔ c.backoffMillis ≤ 10000) ∧
      (10000 < c.backoffMillis → grown = standardCap) := by
  obtain ⟨n, rfl⟩ := Nat.exists_eq_add_of_le' hpos
  obtain ⟨p, -, hp, -, hle, -⟩ := Binary64.rises_pow hone (min n Backoff.maxExponent)
  obtain ⟨grown, hgrown, hnanos⟩ :=
    Backoff.exists_capped_of_liesAt (.ofMillis c.backoffMillis) standardCap hp
  rw [backoff_policy_flat, backoff_policy_of_multiplier hfactor hcap, Backoff.delay?_exponential]
  refine ⟨_, grown, rfl, hgrown, rfl, ?_⟩
  rw [← ofMillis_le_standardCap_iff, ← UInt64.not_le, ← ofMillis_le_standardCap_iff]
  by_cases hbase : Duration.ofMillis c.backoffMillis ≤ standardCap
  · refine ⟨⟨fun _ => hbase, fun _ => ?_⟩, fun h => absurd hbase h⟩
    exact (le_waitNanos hbase hle).trans_eq hnanos.symm
  · have hcapped : grown = standardCap :=
      Duration.eq_of_nanos_eq (hnanos.trans (waitNanos_eq (Nat.le_of_not_le hbase) hle))
    subst hcapped
    exact ⟨Iff.rfl, fun _ => rfl⟩

/-- A section that doubles its waits. -/
def doubling (backoffMillis : UInt64) : RetryConfig :=
  ⟨3, backoffMillis, some (.ofBits 0x4000000000000000), none⟩

theorem growth_waits_doubling :
    ∃ flat grown, (doubling 100).flat.policy.backoff.delay? 2 = some flat ∧
      (doubling 100).policy.backoff.delay? 2 = some grown ∧ flat = .ofMillis 100 ∧
      (flat ≤ grown ↔ (100 : UInt64) ≤ 10000) ∧ ((10000 : UInt64) < 100 → grown = standardCap) :=
  growth_waits rfl (by decide +kernel) rfl (by decide)

/-- Doubled from twenty seconds on, the first wait is ten seconds. -/
theorem growth_shortens_first_wait :
    Binary64.one.atMost (.ofBits 0x4000000000000000) = true ∧
    (doubling 20000).flat.policy.backoff.delay? 1 = some (.ofMillis 20000) ∧
    (doubling 20000).policy.backoff.delay? 1 = some (.ofMillis 10000) ∧
    ¬ Duration.ofMillis 20000 ≤ .ofMillis 10000 := by
  decide +kernel

end RetryConfig

end Orchestration
