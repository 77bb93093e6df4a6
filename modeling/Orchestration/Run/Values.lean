import Orchestration.Entries
import Orchestration.Text.Quoted
import Orchestration.Value

/-!
# Values by node

The inputs and the outputs of a run: at most one value for each name.
-/

namespace Orchestration

/-- Values under distinct names, in the order in which the names were first given one. -/
structure NodeValues where
  entries : Entries String Value
deriving DecidableEq

namespace NodeValues

def empty : NodeValues := ⟨[]⟩

def get? (m : NodeValues) (id : String) : Option Value := m.entries.lookup id

def contains (m : NodeValues) (id : String) : Bool := (m.get? id).isSome

def size (m : NodeValues) : Nat := m.entries.length

def isEmpty (m : NodeValues) : Bool := m.entries.isEmpty

def insert (m : NodeValues) (id : String) (v : Value) : NodeValues := ⟨m.entries.set id v⟩

theorem get?_insert (m : NodeValues) (id k : String) (v : Value) :
    (m.insert id v).get? k = if k = id then some v else m.get? k := by
  simp [insert, get?, Entries.lookup_set]

def ofList (entries : List (String × Value)) : NodeValues :=
  entries.foldl (fun m e => m.insert e.1 e.2) empty

def typed? (m : NodeValues) (id : String) (κ : Kind) : Option Value :=
  (m.get? id).filter (·.kind = κ)

def keys (m : NodeValues) : List String := m.entries.keys.mergeSort (· ≤ ·)

/-- The names as a set in braces. -/
def description (m : NodeValues) : String :=
  "\x7b" ++ ", ".intercalate (m.keys.map Text.quoted) ++ "\x7d"

end NodeValues

end Orchestration
