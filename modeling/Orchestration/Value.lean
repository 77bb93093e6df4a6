/-!
# Values and their kinds

Agents exchange values of a few kinds. A datum of a kind is a value known to have it, so an agent
with a declared input kind is only ever given such values, while plans and runs move plain values
and ask for their kind where it matters.
-/

namespace Orchestration

inductive Kind where
  | text
  | int
  | size
  | bool
  | unit
  | list
  | brittle
deriving DecidableEq

/-- The name under which a kind is reported. That of the brittle kind is the one that its users gave
to a type of their own. -/
def Kind.name : Kind → String
  | text => "alloc::string::String"
  | int => "i64"
  | size => "usize"
  | bool => "bool"
  | unit => "()"
  | list => "alloc::vec::Vec<alloc::string::String>"
  | brittle => "driver::Brittle"

/-- A fault of running code: with a description, or with a payload that has none. -/
inductive Fault where
  | described (text : String)
  | undescribed
deriving DecidableEq

def Fault.message : Fault → String
  | described text => text
  | undescribed => "unknown panic payload"

/-- A content with copying code of its own: for each of the first copies that somebody makes of it,
and for all after them, the fault that it comes to, if any. -/
structure Brittle where
  content : String
  first : List (Option Fault)
  rest : Option Fault
deriving DecidableEq

/-- The fault of the copy that comes after so many others. -/
def Brittle.fault? (b : Brittle) (earlier : Nat) : Option Fault := b.first[earlier]?.getD b.rest

/-- A text of which every copy faults. -/
def Brittle.ofText (s : String) : Brittle :=
  ⟨s, [], some (.described "brittle input cannot be cloned")⟩

instance : Coe String Brittle := ⟨.ofText⟩

instance : Coe Brittle String := ⟨Brittle.content⟩

inductive Value where
  | text (content : String)
  | int (n : Int64)
  | size (n : UInt64)
  | bool (b : Bool)
  | unit
  | list (items : List String)
  | brittle (b : Brittle)
deriving DecidableEq

namespace Value

def kind : Value → Kind
  | text _ => .text
  | int _ => .int
  | size _ => .size
  | bool _ => .bool
  | unit => .unit
  | list _ => .list
  | brittle _ => .brittle

/-- The plain text of a value, without quotes. -/
def shown : Value → String
  | text s => s
  | int n => toString n.toInt
  | size n => toString n.toNat
  | bool b => if b then "true" else "false"
  | unit => "()"
  | list items => ",".intercalate items
  | brittle b => b.content

end Value

structure Datum (κ : Kind) where
  value : Value
  kind_eq : value.kind = κ
deriving DecidableEq

namespace Datum

/-- A copy of a datum, made by one who has made so many earlier ones. -/
def copy {κ : Kind} (d : Datum κ) (earlier : Nat) : Except Fault (Datum κ) :=
  match d.value with
  | .brittle b =>
    match b.fault? earlier with
    | some f => .error f
    | none => .ok d
  | _ => .ok d

/-- A copy of a datum is the datum. -/
theorem eq_of_copy {κ : Kind} {d copy : Datum κ} {earlier : Nat} (h : d.copy earlier = .ok copy) :
    copy = d := by
  unfold Datum.copy at h
  split at h
  · split at h
    · cases h
    · exact (Except.ok.inj h).symm
  · exact (Except.ok.inj h).symm

def ofText (s : String) : Datum .text := ⟨.text s, rfl⟩

def toText : Datum .text → String
  | ⟨.text s, _⟩ => s

end Datum

def Value.as? (κ : Kind) (v : Value) : Option (Datum κ) :=
  if h : v.kind = κ then some ⟨v, h⟩ else none

end Orchestration
