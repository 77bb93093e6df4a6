import Mathlib.Data.String.Basic

/-!
# Texts between slashes

Splitting a text at its slashes is splitting the list of its characters.
-/

namespace Orchestration.Text

open String

/-- Splitting that has come past `l` and since then past `m`, which contains no slash. -/
theorem splitOnAux_slash (l m r : List Char) (acc : List String) :
    splitOnAux (ofList (l ++ m ++ r)) "/" ⟨utf8Len l⟩ ⟨utf8Len l + utf8Len m⟩ 0 acc =
      acc.reverse ++ (List.splitOnPPrepend (· == '/') r m.reverse).map ofList := by
  induction r generalizing l m acc with
  | nil =>
    rw [splitOnAux, if_pos]
    · simpa using extract_of_valid l m []
    · simpa [-atEnd_iff] using atEnd_of_valid (l ++ m) []
  | cons c r ih =>
    have hend : ¬ Pos.Raw.atEnd (ofList (l ++ m ++ c :: r)) ⟨utf8Len l + utf8Len m⟩ = true := by
      simpa [-atEnd_iff] using (atEnd_of_valid (l ++ m) (c :: r)).not
    have hget : Pos.Raw.get (ofList (l ++ m ++ c :: r)) ⟨utf8Len l + utf8Len m⟩ = c := by
      simpa using get_of_valid (l ++ m) (c :: r)
    have hnext : Pos.Raw.next (ofList (l ++ m ++ c :: r)) ⟨utf8Len l + utf8Len m⟩ =
        ⟨utf8Len l + utf8Len m + c.utf8Size⟩ := by
      simpa using next_of_valid (l ++ m) c r
    have hslash : Pos.Raw.get "/" 0 = '/' := by decide +kernel
    rw [splitOnAux, if_neg hend, hget, hslash, List.splitOnPPrepend_cons_eq_if]
    by_cases h : c = '/'
    · subst h
      have hover : Pos.Raw.atEnd "/" (Pos.Raw.next "/" 0) = true := by decide +kernel
      have hback : (⟨utf8Len l + utf8Len m + '/'.utf8Size⟩ : Pos.Raw).unoffsetBy
          (Pos.Raw.next "/" 0) = ⟨utf8Len l + utf8Len m⟩ := rfl
      rw [beq_self_eq_true, if_pos rfl, if_pos rfl]
      dsimp only
      rw [if_pos hover, hnext, hback, extract_of_valid]
      simpa [Nat.add_assoc] using ih (l ++ m ++ ['/']) [] (ofList m :: acc)
    · have hstay : (⟨utf8Len l + utf8Len m⟩ : Pos.Raw).unoffsetBy 0 = ⟨utf8Len l + utf8Len m⟩ := rfl
      rw [if_neg (by simpa using h), if_neg (by simpa using h), hstay, hnext]
      simpa [Nat.add_assoc] using ih l (m ++ [c]) acc

theorem splitOn_slash (text : String) :
    text.splitOn "/" = (text.toList.splitOn '/').map ofList := by
  simpa [splitOn, List.splitOn] using splitOnAux_slash [] [] text.toList []

end Orchestration.Text
