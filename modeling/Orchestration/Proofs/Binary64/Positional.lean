import Orchestration.Proofs.Binary64.Shortest

/-!
# Positional text reads back

The positional text of a decimal number is a whole part without leading zeros, a point and places.
Taken together they are the same number, so the text of a floating point number is read as that
number.
-/

namespace Orchestration

open Text

/-- The digits before and behind the point of a positional text. -/
structure Positional (whole places : List Char) : Prop where
  whole : Whole whole
  places_digits : ∀ c ∈ places, c.isDigit
  places_ne : places ≠ []

/-- The number that the digits before and behind a point write. -/
def Decimal.ofPositional (whole places : List Char) : Decimal :=
  ⟨ofDigits 10 (whole ++ places), -places.length⟩

namespace Decimal

/-- Zeros fill up the whole part of a number without places. -/
theorem positional_of_nonneg {d : Decimal} (hexp : 0 ≤ d.exponent)
    (hd : 0 < d.digits ∨ d.exponent = 0) :
    ∃ whole places, d.positional.toList = whole ++ '.' :: places ∧ Positional whole places ∧
      Magnitude.SameNumber d (ofPositional whole places) := by
  refine ⟨Nat.toDigits 10 d.digits ++ List.replicate d.exponent.toNat '0', ['0'], ?_,
    ⟨⟨?_, ?_⟩, ?_, ?_⟩, ?_⟩
  · simp [positional, hexp]
  · exact List.forall_mem_append.2 ⟨isDigit_of_mem_toDigits, isDigit_of_mem_zeros⟩
  · rcases Nat.eq_zero_or_pos d.digits with hz | hpos
    · have : d.exponent = 0 := by omega
      exact .inl (by rw [hz, this]; rfl)
    · obtain ⟨c, cs, hcs, hc⟩ := toDigits_eq_cons hpos
      exact .inr ⟨c, _, by rw [hcs]; rfl, hc⟩
  · simp
  · exact List.cons_ne_nil _ _
  · obtain ⟨k, hk⟩ := Int.eq_ofNat_of_zero_le hexp
    have hzeros : Nat.toDigits 10 d.digits ++ List.replicate k '0' ++ ['0'] =
        Nat.toDigits 10 d.digits ++ List.replicate (k + 1) '0' := by
      rw [List.append_assoc, List.replicate_succ']
    have hplaces : (-(1 : Nat) + (Magnitude.decimalScale : Nat) : Int).toNat = 399 := rfl
    have hplaces' : ((k : Nat) + (Magnitude.decimalScale : Nat) : Int).toNat = k + 1 + 399 := by
      change ((k : Nat) + (400 : Nat) : Int).toNat = _
      omega
    refine ⟨by unfold Magnitude.InScale ofPositional Magnitude.decimalScale; simp, ?_⟩
    unfold Magnitude.decimalPlace ofPositional
    dsimp only [List.length_singleton]
    rw [hplaces, hk, hplaces', Int.toNat_natCast, hzeros,
      ofDigits_append_zeros _ isDigit_of_mem_toDigits, ofDigits_toDigits]
    rw [Magnitude.pow_ten_add (k + 1), ← Nat.mul_assoc d.digits]
    rfl

/-- The digits of a number behind as many zeros as leave one digit before the places. -/
def padded (n places : Nat) : List Char :=
  List.replicate (places + 1 - (Nat.toDigits 10 n).length) '0' ++ Nat.toDigits 10 n

theorem length_padded (n places : Nat) : (padded n places).length =
    places + 1 - (Nat.toDigits 10 n).length + (Nat.toDigits 10 n).length := by
  rw [padded, List.length_append, List.length_replicate]

theorem isDigit_of_mem_padded {n places : Nat} : ∀ c ∈ padded n places, c.isDigit :=
  List.forall_mem_append.2 ⟨isDigit_of_mem_zeros, isDigit_of_mem_toDigits⟩

theorem length_drop_padded (n places : Nat) :
    ((padded n places).drop ((padded n places).length - places)).length = places := by
  rw [List.length_drop, length_padded]
  omega

/-- Either zeros were put in front, and then only one before the point, or none were. -/
theorem whole_take_padded {n : Nat} (hn : 0 < n) (places : Nat) :
    Whole ((padded n places).take ((padded n places).length - places)) := by
  refine ⟨fun c hc => isDigit_of_mem_padded c (List.mem_of_mem_take hc), ?_⟩
  obtain ⟨c, cs, hcs, hc⟩ := toDigits_eq_cons hn
  rw [length_padded, padded, hcs]
  rcases Nat.lt_or_ge places (c :: cs).length with hlt | hge
  · right
    obtain ⟨k, hk⟩ : ∃ k, (c :: cs).length - places = k + 1 :=
      ⟨(c :: cs).length - places - 1, by omega⟩
    have hnone : places + 1 - (c :: cs).length = 0 := by omega
    rw [hnone, Nat.zero_add, hk]
    exact ⟨c, cs.take k, rfl, hc⟩
  · left
    obtain ⟨k, hk⟩ : ∃ k, places + 1 - (c :: cs).length = k + 1 :=
      ⟨places - (c :: cs).length, by omega⟩
    have hone : places + 1 - (c :: cs).length + (c :: cs).length - places = 1 := by omega
    rw [hone, hk]
    rfl

/-- The point divides the padded digits so that they write the number with its places. -/
theorem ofPositional_padded (n places : Nat) :
    ofPositional ((padded n places).take ((padded n places).length - places))
      ((padded n places).drop ((padded n places).length - places)) = ⟨n, -places⟩ := by
  rw [ofPositional, length_drop_padded, List.take_append_drop, padded,
    ofDigits_zeros_append _ isDigit_of_mem_toDigits, ofDigits_toDigits]

/-- Zeros in front make room for the places of a number. -/
theorem positional_of_neg {d : Decimal} (hexp : d.exponent < 0) (hscale : Magnitude.InScale d)
    (hd : 0 < d.digits) :
    ∃ whole places, d.positional.toList = whole ++ '.' :: places ∧ Positional whole places ∧
      Magnitude.SameNumber d (ofPositional whole places) := by
  obtain ⟨k, hk⟩ : ∃ k : Nat, d.exponent = -(k + 1 : Nat) := ⟨(-d.exponent).toNat - 1, by omega⟩
  have hplaces : (-d.exponent).toNat = k + 1 := by omega
  have hsame : ofPositional _ _ = d := (ofPositional_padded d.digits (k + 1)).trans (by rw [← hk])
  refine ⟨_, (padded d.digits (k + 1)).drop ((padded d.digits (k + 1)).length - (k + 1)), ?_,
    ⟨whole_take_padded hd (k + 1), ?_, ?_⟩, ?_⟩
  · simp [positional, Int.not_le.2 hexp, hplaces, padded]
  · exact fun c hc => isDigit_of_mem_padded c (List.mem_of_mem_drop hc)
  · intro hnil
    have hlen := length_drop_padded d.digits (k + 1)
    rw [hnil] at hlen
    cases hlen
  · rw [hsame]
    exact ⟨hscale, rfl⟩

end Decimal

namespace Magnitude

/-- Whatever is the same number as the fewest digits of a magnitude is read as it. -/
theorem ofDecimal_of_same {m : Magnitude} {d : Decimal} (hd : SameNumber m.shortest d)
    (negative : Bool) : Binary64.ofDecimal negative d = .finite negative m := by
  obtain ⟨hscale, hplace⟩ := hd
  rcases Nat.eq_zero_or_pos m.units with hz | hpos
  · have hdigits : d.digits = 0 := by
      have hzero : decimalPlace d = 0 := by
        rw [hplace, shortest, if_pos hz, decimalPlace, Nat.zero_mul, Nat.zero_mul]
      rw [decimalPlace] at hzero
      have hfactor : 0 < Nat.pow 10 (d.exponent + decimalScale).toNat * (4 * unitsPerOne) :=
        Nat.mul_pos (Nat.pow_pos (by decide)) (Nat.mul_pos (by decide) unitsPerOne_pos)
      rw [Nat.mul_assoc] at hzero
      exact (Nat.mul_eq_zero.1 hzero).resolve_right (Nat.ne_of_gt hfactor)
    unfold Binary64.ofDecimal
    rw [if_pos hdigits]
    exact congrArg (Binary64.finite negative) (eq_of_units hz.symm)
  · refine ofDecimal_of_contains hpos negative hscale ?_
    rw [hplace]
    exact (shortest_spec hpos).2

/-- The text of a magnitude has digits before and behind a point, and they are read as it. -/
theorem positional_shortest (m : Magnitude) :
    ∃ whole places, m.shortest.positional.toList = whole ++ '.' :: places ∧
      Positional whole places ∧ ∀ negative,
        Binary64.ofDecimal negative (.ofPositional whole places) = .finite negative m := by
  have h : ∃ whole places, m.shortest.positional.toList = whole ++ '.' :: places ∧
      Positional whole places ∧ SameNumber m.shortest (.ofPositional whole places) := by
    rcases Nat.eq_zero_or_pos m.units with hz | hpos
    · have hzero : m.shortest = ⟨0, 0⟩ := by rw [shortest, if_pos hz]
      rw [hzero]
      exact Decimal.positional_of_nonneg (Int.le_refl 0) (.inr rfl)
    · obtain ⟨hscale, hin⟩ := shortest_spec hpos
      have hdigits := digits_pos_of_contains hpos hin
      rcases lt_or_ge m.shortest.exponent 0 with hexp | hexp
      · exact Decimal.positional_of_neg hexp hscale hdigits
      · exact Decimal.positional_of_nonneg hexp (.inl hdigits)
  obtain ⟨whole, places, htext, hform, hsame⟩ := h
  exact ⟨whole, places, htext, hform, ofDecimal_of_same hsame⟩

end Magnitude

end Orchestration
