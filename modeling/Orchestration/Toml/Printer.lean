import Orchestration.Binary64.Decimal

/-!
# Written TOML

A document is written as sections: a header in brackets and one line for each key. Sections are
separated by an empty line.
-/

namespace Orchestration.Toml

inductive Scalar where
  | integer (n : Nat)
  | float (x : Binary64)

def maxInteger : Nat := 9_223_372_036_854_775_807

def Scalar.text? : Scalar → Option String
  | integer n => if n ≤ maxInteger then some (toString n) else none
  | float x => some x.plainText

/-- A header and the keys below it, with their values where they have one. -/
structure Section where
  header : String
  entries : List (String × Option Scalar)

namespace Section

/-- The line of a key; a key without a value has none. -/
def entryText? : String × Option Scalar → Option String
  | (_, none) => some ""
  | (key, some v) => v.text?.map fun text => key ++ " = " ++ text ++ "\n"

def text? (s : Section) : Option String :=
  (s.entries.mapM entryText?).map fun lines => "[" ++ s.header ++ "]\n" ++ String.join lines

end Section

/-- The text of a document, unless some number is too large. -/
def render? (sections : List Section) : Option String :=
  (sections.mapM Section.text?).map ("\n".intercalate ·)

end Orchestration.Toml
