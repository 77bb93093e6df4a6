import Orchestration.Binary64.Basic

/-!
# Decimal text of binary floating point numbers

The digits of a number are the fewest that read back as the number, and among those the nearest to
it, the larger of two equally near. Two layouts write them: a positional one, and one that changes
to an exponent for very small and very large numbers. Reading rounds the exact decimal value once.
-/

namespace Orchestration

/-- The number `digits * 10 ^ exponent`. -/
structure Decimal where
  digits : Nat
  exponent : Int
deriving DecidableEq, Repr

/-! ## The fewest digits -/

namespace Magnitude

/-- All comparisons below are made in quarters of a unit times `10 ^ decimalScale`. -/
def decimalScale : Nat := 400

def decimalPlace (d : Decimal) : Nat :=
  d.digits * Nat.pow 10 (d.exponent + decimalScale).toNat * (4 * unitsPerOne)

/-- The ends of the numbers that round to a magnitude, and whether the ends do. Below a power of two
the neighbours are twice as dense. -/
structure Neighbourhood where
  low : Nat
  high : Nat
  closed : Bool

def neighbourhood (m : Magnitude) : Neighbourhood :=
  let step := Nat.pow 2 (droppedBits m.units)
  let below := if m.units = Nat.pow 2 m.units.log2 ∧ 1 < step then 1 else 2
  let scale := Nat.pow 10 decimalScale
  { low := (4 * m.units - below * step) * scale
    high := (4 * m.units + 2 * step) * scale
    closed := m.units / step % 2 = 0 }

def Neighbourhood.contains (n : Neighbourhood) (place : Nat) : Bool :=
  if n.closed then n.low ≤ place && place ≤ n.high else n.low < place && place < n.high

def leadingExponent (m : Magnitude) : Int :=
  let scaled := m.units * Nat.pow 10 decimalScale / unitsPerOne
  ((Nat.toDigits 10 scaled).length : Int) - 1 - decimalScale

/-- The neighbours of a magnitude on the grid of the multiples of `10 ^ exponent`. -/
def gridNeighbours (m : Magnitude) (exponent : Int) : Decimal × Decimal :=
  let step := Nat.pow 10 (exponent + decimalScale).toNat
  let below := m.units * Nat.pow 10 decimalScale / (unitsPerOne * step)
  (⟨below, exponent⟩, ⟨below + 1, exponent⟩)

/-- The nearest point of the grid that reads back as the magnitude, if one does; of two equally near
the upper one. -/
def onGrid? (m : Magnitude) (exponent : Int) : Option Decimal :=
  let (below, above) := m.gridNeighbours exponent
  let here := 4 * m.units * Nat.pow 10 decimalScale
  let fits := fun d => m.neighbourhood.contains (decimalPlace d)
  if fits below && (!fits above || here - decimalPlace below < decimalPlace above - here) then
    some below
  else if fits above then some above
  else none

def trimmed (fuel : Nat) (d : Decimal) : Decimal :=
  match fuel with
  | 0 => d
  | fuel + 1 =>
    if d.digits ≠ 0 ∧ d.digits % 10 = 0 then trimmed fuel ⟨d.digits / 10, d.exponent + 1⟩ else d

/-- The fewest digits that read back; seventeen always do. -/
def shortest (m : Magnitude) : Decimal :=
  if m.units = 0 then ⟨0, 0⟩
  else
    let lead := m.leadingExponent
    let grids := (List.range 17).map fun (n : Nat) => lead - n
    trimmed 18 ((grids.findSome? m.onGrid?).getD (m.gridNeighbours (lead - 16)).1)

end Magnitude

/-! ## Layouts -/

namespace Decimal

def positional (d : Decimal) : String :=
  let digits := Nat.toDigits 10 d.digits
  if 0 ≤ d.exponent then
    String.ofList (digits ++ List.replicate d.exponent.toNat '0') ++ ".0"
  else
    let places := (-d.exponent).toNat
    let padded := List.replicate (places + 1 - digits.length) '0' ++ digits
    let whole := padded.take (padded.length - places)
    String.ofList whole ++ "." ++ String.ofList (padded.drop (padded.length - places))

def scientific (d : Decimal) : String :=
  match Nat.toDigits 10 d.digits with
  | [] => ""
  | first :: rest =>
    let point := if rest.isEmpty then "" else "." ++ String.ofList rest
    first.toString ++ point ++ "e" ++ toString (d.exponent + rest.length)

end Decimal

namespace Binary64

private def signed (negative : Bool) (text : String) : String :=
  if negative then "-" ++ text else text

/-- Positional text, whatever the size of the number. -/
def plainText : Binary64 → String
  | nan => "nan"
  | infinite negative => signed negative "inf"
  | finite negative m => signed negative m.shortest.positional

/-- Positional text from `10 ^ (-4)` up to `10 ^ 16`, otherwise with an exponent. -/
def displayText : Binary64 → String
  | nan => "NaN"
  | infinite negative => signed negative "inf"
  | finite negative m =>
    let d := m.shortest
    let lead := m.leadingExponent
    signed negative <|
      if m.units = 0 ∨ (-4 ≤ lead ∧ lead < 16) then d.positional else d.scientific

/-! ## Reading -/

/-- The number nearest to `digits * 10 ^ exponent`. Beyond 400 places before or after the point the
result no longer depends on the exponent, so that no larger power of ten is ever computed. -/
def ofDecimal (negative : Bool) (d : Decimal) : Binary64 :=
  if d.digits = 0 then finite negative .zero
  else
    let places := (Nat.toDigits 10 d.digits).length + d.exponent
    if 400 < places then infinite negative
    else if places < -400 then finite negative .zero
    else if 0 ≤ d.exponent then ofRatio negative (d.digits * Nat.pow 10 d.exponent.toNat) 1
    else ofRatio negative d.digits (Nat.pow 10 (-d.exponent).toNat)

end Binary64

end Orchestration
