import Orchestration.Binary64.Basic
import Orchestration.Entries

/-!
# TOML values and tables

A table remembers how it came to be, because that decides what may still be added to it: a table
written inline is closed; one opened by a header is opened once; one implied by a longer header may
be opened later; one implied by a dotted key grows by dotted keys and by headers below it.
-/

namespace Orchestration.Toml

inductive Origin where
  | inline
  | header
  | implied
  | dotted
deriving DecidableEq

/-- A value of a document. What a date or a time says is not kept. -/
inductive Value where
  | text (s : String)
  | integer (n : Int)
  | float (x : Binary64)
  | boolean (b : Bool)
  | moment
  | array (items : List Value)
  /-- The tables under the headers in double brackets, in order. -/
  | tables (elements : List (List (String × Value)))
  | table (origin : Origin) (entries : List (String × Value))

structure Table where
  origin : Origin
  entries : Entries String Value

namespace Table

/-- The document before its first line. -/
def root : Table := ⟨.header, []⟩

def get? (t : Table) (key : String) : Option Value := t.entries.lookup key

def set (t : Table) (key : String) (v : Value) : Table := { t with entries := t.entries.set key v }

theorem get?_set (t : Table) (key k : String) (v : Value) :
    (t.set key v).get? k = if k = key then some v else t.get? k := by
  simp [set, get?, Entries.lookup_set]

def add? (t : Table) (key : String) (v : Value) : Option Table :=
  if (t.get? key).isSome then none else some (t.set key v)

/-- Changes the table at the end of a path. Missing tables on the way are implied by a dotted key or
by a header; a dotted key does not enter a table that has its own header, and nothing enters a table
that is closed. Among tables in double brackets the last one is meant. -/
def update? (dotted : Bool) (change : Table → Option Table) : List String → Table → Option Table
  | [], t => change t
  | key :: path, t =>
    match t.get? key with
    | none => do
      let below ← update? dotted change path ⟨if dotted then .dotted else .implied, []⟩
      some (t.set key (.table below.origin below.entries))
    | some (.table origin entries) =>
      if origin = .inline ∨ (dotted ∧ origin = .header) then none
      else do
        let below ← update? dotted change path ⟨origin, entries⟩
        some (t.set key (.table below.origin below.entries))
    | some (.tables elements) =>
      match elements.getLast? with
      | none => none
      | some last => do
        let below ← update? dotted change path ⟨.header, last⟩
        some (t.set key (.tables (elements.dropLast ++ [below.entries])))
    | some _ => none

/-- Gives a value to the key at the end of a path. The last table on the path is implied by dotted
keys exactly if the path does not end in this table. -/
def assign? (t : Table) (path : List String) (key : String) (v : Value) : Option Table :=
  t.update? true
    (fun t => if decide (t.origin = .dotted) = path.isEmpty then none else t.add? key v) path

/-- Opens the table with a header. -/
def openTable? (t : Table) (path : List String) (key : String) : Option Table :=
  t.update? false (fun t =>
    match t.get? key with
    | none => some (t.set key (.table .header []))
    | some (.table .implied entries) => some (t.set key (.table .header entries))
    | some _ => none) path

/-- Opens one more table with a header in double brackets. -/
def openElement? (t : Table) (path : List String) (key : String) : Option Table :=
  t.update? false (fun t =>
    match t.get? key with
    | none => some (t.set key (.tables [[]]))
    | some (.tables elements) => some (t.set key (.tables (elements ++ [[]])))
    | some _ => none) path

end Table

end Orchestration.Toml
