/-!
# White space

The characters with the Unicode property `White_Space`, and the words that they separate.
-/

namespace Orchestration.Text

def blankRanges : List (Nat × Nat) := [
  (0x9, 0xd), (0x20, 0x20), (0x85, 0x85), (0xa0, 0xa0), (0x1680, 0x1680), (0x2000, 0x200a),
  (0x2028, 0x2029), (0x202f, 0x202f), (0x205f, 0x205f), (0x3000, 0x3000)]

def inRanges (ranges : List (Nat × Nat)) (code : Nat) : Bool :=
  ranges.any fun r => r.1 ≤ code && code ≤ r.2

def isBlank (c : Char) : Bool := inRanges blankRanges c.toNat

/-- Every character that is white space to the core library is so here. -/
theorem isBlank_of_isWhitespace {c : Char} (h : c.isWhitespace) : isBlank c := by
  simp only [Char.isWhitespace, Bool.or_eq_true, decide_eq_true_eq] at h
  rcases h with ((rfl | rfl) | rfl) | rfl <;> decide

/-- The pieces of a text between its blanks, empty ones included. -/
def pieces (text : List Char) : List (List Char) :=
  text.foldr (fun c parts =>
    if isBlank c then [] :: parts
    else match parts with
      | [] => [[c]]
      | part :: rest => (c :: part) :: rest) [[]]

/-- The words of a text: its pieces that are not empty. -/
def words (text : String) : List String :=
  ((pieces text.toList).filter (!·.isEmpty)).map String.ofList

end Orchestration.Text
