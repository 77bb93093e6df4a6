import Mathlib.Algebra.Group.Nat.Defs
import Orchestration.Text.Digits

/-!
# Decimal digits

The digits of a number write the number, and no zero stands in front of them unless the number is
zero.
-/

namespace Orchestration.Text

theorem ofDigits_ten {cs : List Char} (h : ∀ c ∈ cs, c.isDigit) :
    ofDigits 10 cs = Nat.ofDigitChars 10 cs 0 := by
  unfold ofDigits Nat.ofDigitChars
  generalize 0 = n
  induction cs generalizing n with
  | nil => rfl
  | cons c cs ih =>
    rw [List.foldl_cons, List.foldl_cons, ih fun c hc => h c (List.mem_cons_of_mem _ hc)]
    simp only [digitValue, h c List.mem_cons_self, if_true, Nat.mul_comm]

theorem isDigit_of_mem_toDigits {n : Nat} : ∀ c ∈ Nat.toDigits 10 n, c.isDigit :=
  fun _ h => Nat.isDigit_of_mem_toDigits (by decide) (by decide) h

theorem isDigit_of_mem_zeros {k : Nat} : ∀ c ∈ List.replicate k '0', c.isDigit := by
  intro c hc
  rw [List.eq_of_mem_replicate hc]
  rfl

theorem ofDigits_toDigits (n : Nat) : ofDigits 10 (Nat.toDigits 10 n) = n := by
  rw [ofDigits_ten isDigit_of_mem_toDigits]
  exact Nat.ofDigitChars_ten_toDigits

/-- Zeros in front do not count. -/
theorem ofDigits_zeros_append (k : Nat) {cs : List Char} (h : ∀ c ∈ cs, c.isDigit) :
    ofDigits 10 (List.replicate k '0' ++ cs) = ofDigits 10 cs := by
  rw [ofDigits_ten h, ofDigits_ten, Nat.ofDigitChars_append, Nat.ofDigitChars_replicate_zero,
    Nat.mul_zero]
  exact List.forall_mem_append.2 ⟨isDigit_of_mem_zeros, h⟩

/-- Zeros behind multiply. -/
theorem ofDigits_append_zeros (k : Nat) {cs : List Char} (h : ∀ c ∈ cs, c.isDigit) :
    ofDigits 10 (cs ++ List.replicate k '0') = ofDigits 10 cs * 10 ^ k := by
  rw [ofDigits_ten h, ofDigits_ten, Nat.ofDigitChars_append, Nat.ofDigitChars_replicate_zero,
    Nat.mul_comm]
  exact List.forall_mem_append.2 ⟨h, isDigit_of_mem_zeros⟩

theorem toDigits_eq_cons {n : Nat} (hn : 0 < n) :
    ∃ c cs, Nat.toDigits 10 n = c :: cs ∧ c ≠ '0' := by
  induction n using Nat.strongRecOn with
  | ind n ih =>
    by_cases h : n < 10
    · refine ⟨n.digitChar, [], Nat.toDigits_of_lt_base h, ?_⟩
      rw [Ne, Nat.digitChar_eq_zero]
      omega
    · obtain ⟨c, cs, hcs, hc⟩ := ih (n / 10) (by omega) (by omega)
      refine ⟨c, cs ++ [(n % 10).digitChar], ?_, hc⟩
      rw [Nat.toDigits_of_base_le (by decide) (by omega), hcs, List.cons_append]

/-- Digits without a zero in front, unless it is the only one. -/
def Whole (ds : List Char) : Prop :=
  (∀ c ∈ ds, c.isDigit) ∧ (ds = ['0'] ∨ ∃ c cs, ds = c :: cs ∧ c ≠ '0')

theorem whole_toDigits (n : Nat) : Whole (Nat.toDigits 10 n) := by
  refine ⟨isDigit_of_mem_toDigits, ?_⟩
  rcases Nat.eq_zero_or_pos n with rfl | hpos
  · exact .inl rfl
  · exact .inr (toDigits_eq_cons hpos)

theorem Whole.eq_cons {ds : List Char} (h : Whole ds) : ∃ c cs, ds = c :: cs ∧ c.isDigit := by
  obtain ⟨hds, rfl | ⟨c, cs, rfl, -⟩⟩ := h
  · exact ⟨'0', [], rfl, rfl⟩
  · exact ⟨c, cs, rfl, hds c List.mem_cons_self⟩

/-- The digits are as many as the number needs. -/
theorem pow_length_toDigits_le {n : Nat} (hn : 0 < n) :
    10 ^ ((Nat.toDigits 10 n).length - 1) ≤ n := by
  rcases Nat.eq_zero_or_pos ((Nat.toDigits 10 n).length - 1) with h | h
  · rw [h]
    exact hn
  · refine Nat.le_of_not_lt fun hlt => ?_
    have := (Nat.length_toDigits_le_iff (by decide) h).2 hlt
    omega

end Orchestration.Text
