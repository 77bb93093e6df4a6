import Orchestration.Toml.Scalar
import Orchestration.Toml.Text

/-!
# TOML documents

A document is a sequence of lines: headers, values of keys, and lines that say nothing. The lines
are read one by one and then fill the root table in order.
-/

namespace Orchestration.Toml

open Text Text.Reader

/-! ## Values -/

/-- Blanks, comments and line breaks inside an array. -/
def gaps : Reader Unit := do
  let _ ← many <|
    (do let _ ← satisfy fun c => c = ' ' || c = '\t') <|> newline <|> (do comment; newline)

/-- The table of the keys and values between braces. -/
def inlineTable (pairs : List ((List String × String) × Value)) : Option Value := do
  let t ← pairs.foldlM (fun t p => t.assign? p.1.1 p.1.2 p.2) (⟨.inline, []⟩ : Table)
  return .table t.origin t.entries

def keyValue (value : Reader Value) : Reader ((List String × String) × Value) := do
  let k ← key
  char '='
  blanks
  return (k, ← value)

def array (item : Reader Value) : Reader Value := do
  char '['
  let items ← optional (do
    let items ← separated (do gaps; let v ← item; gaps; return v) (char ',')
    let _ ← optional (char ',')
    return items)
  gaps
  char ']'
  return .array (items.getD [])

def braced (item : Reader Value) : Reader Value := do
  char '\x7b'
  let pairs ← optional (separated (do let p ← keyValue item; blanks; return p) (char ','))
  blanks
  char '\x7d'
  match inlineTable (pairs.getD []) with
  | some v => return v
  | none => failure

def scalar : Reader Value :=
  .text <$> text <|> (do moment; return .moment) <|> .float <$> float <|> .integer <$> integer <|>
    (do keyword "true"; return .boolean true) <|> (do keyword "false"; return .boolean false)

def value : Nat → Reader Value
  | 0 => scalar
  | depth + 1 => scalar <|> array (value depth) <|> braced (value depth)

/-! ## Lines -/

inductive Line where
  | header (path : List String) (key : String)
  | element (path : List String) (key : String)
  | assignment (path : List String) (key : String) (v : Value)

def lineEnd : Reader Unit := do
  if ← atEnd then return () else newline

def trailing : Reader Unit := do
  blanks
  let _ ← optional comment
  lineEnd

def elementLine : Reader Line := do
  keyword "[["
  let (path, k) ← key
  keyword "]]"
  trailing
  return .element path k

def headerLine : Reader Line := do
  char '['
  let (path, k) ← key
  char ']'
  trailing
  return .header path k

def assignmentLine : Reader Line := do
  let ((path, k), v) ← keyValue (value maxDepth)
  trailing
  return .assignment path k v

/-- A line, or nothing where the line says nothing. -/
def line : Reader (Option Line) := do
  match ← peek with
  | some '#' => comment; lineEnd; return none
  | some '[' => some <$> (elementLine <|> headerLine)
  | some '\n' | some '\r' => newline; return none
  | _ => some <$> assignmentLine

def lines : Reader (List Line) := do
  let _ ← optional (char '\ufeff')
  blanks
  let found ← many (do let l ← line; blanks; return l)
  return found.filterMap id

/-! ## Tables -/

/-- A table that is being filled, and the path to the table that was opened last. -/
structure Filling where
  table : Table
  current : List String

/-- Carries out what a line says. -/
def Filling.apply (f : Filling) : Line → Option Filling
  | .header path k => (f.table.openTable? path k).map (⟨·, path ++ [k]⟩)
  | .element path k => (f.table.openElement? path k).map (⟨·, path ++ [k]⟩)
  | .assignment path k v =>
    (f.table.update? false (·.assign? path k v) f.current).map (⟨·, f.current⟩)

def parse (document : String) : Option Table := do
  let found ← lines.whole document.toList
  let f ← found.foldlM Filling.apply ⟨.root, []⟩
  return f.table

end Orchestration.Toml
