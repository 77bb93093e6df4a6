/-!
# Durations

A duration is a whole number of nanoseconds below `2 ^ 64` seconds. Its text names the largest
unit that is not below one, and its waiting time is a whole number of milliseconds, rounded up.
-/

namespace Orchestration

abbrev nanosPerSecond : Nat := 1_000_000_000

abbrev nanosPerMilli : Nat := 1_000_000

abbrev nanosPerMicro : Nat := 1_000

/-- A span of time in nanoseconds. -/
structure Duration where
  nanos : Nat
  nanos_lt : nanos < UInt64.size * nanosPerSecond
deriving DecidableEq

namespace Duration

def zero : Duration := ⟨0, by decide⟩

instance : Inhabited Duration := ⟨zero⟩

def ofNanos? (n : Nat) : Option Duration :=
  if h : n < UInt64.size * nanosPerSecond then some ⟨n, h⟩ else none

def ofMillis (ms : UInt64) : Duration :=
  ⟨ms.toNat * nanosPerMilli, Nat.mul_lt_mul_of_lt_of_le ms.toNat_lt (by decide) (by decide)⟩

def seconds (d : Duration) : Nat := d.nanos / nanosPerSecond

def fraction (d : Duration) : Nat := d.nanos % nanosPerSecond

/-- The milliseconds that a wait of this duration takes: a begun millisecond counts in full. -/
def waitMillis (d : Duration) : Nat := (d.nanos + (nanosPerMilli - 1)) / nanosPerMilli

instance : LE Duration := ⟨fun a b => a.nanos ≤ b.nanos⟩

instance (a b : Duration) : Decidable (a ≤ b) := inferInstanceAs (Decidable (a.nanos ≤ b.nanos))

def shorter (a b : Duration) : Duration := if a ≤ b then a else b

/-! ## Text -/

/-- A count below a one followed by `width` zeros, as the digits after the point without trailing
zeros. -/
def fractionDigits (part width : Nat) : List Char :=
  let digits := Nat.toDigits 10 part
  ((List.replicate (width - digits.length) '0' ++ digits).reverse.dropWhile (· = '0')).reverse

/-- A count as a decimal number of units; a unit is a one followed by `width` zeros. -/
def decimalText (count unit width : Nat) : String :=
  let whole := toString (count / unit)
  match fractionDigits (count % unit) width with
  | [] => whole
  | digits => whole ++ "." ++ String.ofList digits

/-- The duration in the largest of s, ms, µs and ns that is not above it. -/
def text (d : Duration) : String :=
  if nanosPerSecond ≤ d.nanos then decimalText d.nanos nanosPerSecond 9 ++ "s"
  else if nanosPerMilli ≤ d.nanos then decimalText d.nanos nanosPerMilli 6 ++ "ms"
  else if nanosPerMicro ≤ d.nanos then decimalText d.nanos nanosPerMicro 3 ++ "µs"
  else toString d.nanos ++ "ns"

end Duration

end Orchestration
