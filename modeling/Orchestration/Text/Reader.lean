/-!
# Readers

A reader takes something off the front of a text, or fails. Repetition ends when the repeated reader
fails or takes nothing off.
-/

namespace Orchestration.Text

/-- Reads an `α` and leaves the rest of the text. -/
abbrev Reader (α : Type) := StateT (List Char) Option α

namespace Reader

variable {α β : Type}

def peek : Reader (Option Char) := fun cs => some (cs.head?, cs)

def atEnd : Reader Bool := fun cs => some (cs.isEmpty, cs)

def satisfy (p : Char → Bool) : Reader Char
  | [] => none
  | c :: rest => if p c then some (c, rest) else none

def char (c : Char) : Reader Unit := fun cs => (satisfy (· = c) cs).map fun r => ((), r.2)

def exactly : List Char → Reader Unit
  | [], cs => some ((), cs)
  | c :: word, cs => (char c cs).bind fun r => exactly word r.2

def keyword (word : String) : Reader Unit := exactly word.toList

def takeWhile (p : Char → Bool) : Reader (List Char) := fun cs => some (cs.span p)

/-- Characters with a property, at least one and as many as possible. -/
def takeWhile1 (p : Char → Bool) : Reader (List Char) := fun cs =>
  match cs.span p with
  | ([], _) => none
  | (taken, rest) => some (taken, rest)

/-- As many as possible, and what is left. -/
def repeated (r : Reader α) (cs : List Char) : List α × List Char :=
  match r cs with
  | none => ([], cs)
  | some (a, rest) =>
    if rest.length < cs.length then
      let (more, rest) := repeated r rest
      (a :: more, rest)
    else ([], cs)
termination_by cs.length

def many (r : Reader α) : Reader (List α) := fun cs => some (repeated r cs)

/-- At least one, with a separator between each two. -/
def separated (r : Reader α) (separator : Reader Unit) : Reader (List α) := do
  let first ← r
  let rest ← many (separator *> r)
  return first :: rest

def times (r : Reader α) : Nat → Reader (List α)
  | 0 => pure []
  | n + 1 => do
    let first ← r
    let rest ← times r n
    return first :: rest

def whole (r : Reader α) (text : List Char) : Option α :=
  match r text with
  | some (a, []) => some a
  | _ => none

end Reader

end Orchestration.Text
