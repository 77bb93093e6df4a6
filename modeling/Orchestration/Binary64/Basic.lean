/-!
# Binary floating point numbers of 64 bits

A finite number is a sign and a magnitude. The magnitude is counted in units of `2 ^ (-1074)`, the
smallest positive number, so every finite magnitude is a natural number with at most 53 significant
bits. Rounding takes an exact quotient of such units to the nearest representable count; a tie goes
to the even neighbour.
-/

namespace Orchestration

def fractionBits : Nat := 52

def fieldBits : Nat := 11

/-- The number one is this power of two, in units. -/
def oneExponent : Nat := 1074

/-- The finite magnitudes lie below this power of two, in units. -/
def boundExponent : Nat := oneExponent + 1024

def unitsPerOne : Nat := Nat.pow 2 oneExponent

/-- The power of two that no finite magnitude reaches: `2 ^ 1024`, in units. -/
def unitsBound : Nat := Nat.pow 2 boundExponent

/-- How many low bits of a count are cut off so that at most 53 significant ones stay. -/
def droppedBits (units : Nat) : Nat := units.log2 - fractionBits

/-- A count of units that is a finite magnitude. -/
def Representable (units : Nat) : Prop :=
  units < unitsBound ∧ Nat.pow 2 (droppedBits units) ∣ units

instance (units : Nat) : Decidable (Representable units) :=
  inferInstanceAs (Decidable (_ ∧ _))

/-- The integer nearest to `num / den`, the even one of two. -/
def roundHalfEven (num den : Nat) : Nat :=
  let whole := num / den
  let twice := 2 * (num % den)
  if twice < den ∨ (twice = den ∧ whole % 2 = 0) then whole else whole + 1

/-- The count nearest to `num / den` among those with at most 53 significant bits. -/
def roundUnits (num den : Nat) : Nat :=
  let step := Nat.pow 2 (droppedBits (num / den))
  roundHalfEven num (den * step) * step

theorem roundHalfEven_le (num den : Nat) : roundHalfEven num den ≤ num / den + 1 := by
  unfold roundHalfEven
  dsimp only
  split <;> omega

private theorem div_lt_of_droppedBits (num den : Nat) :
    num / (den * Nat.pow 2 (droppedBits (num / den))) < Nat.pow 2 (fractionBits + 1) := by
  simp only [Nat.pow_eq]
  rw [← Nat.div_div_eq_div_mul]
  generalize num / den = q
  have h : q < 2 ^ (q.log2 + 1) := Nat.lt_log2_self
  apply Nat.div_lt_of_lt_mul
  rw [← Nat.pow_add]
  refine Nat.lt_of_lt_of_le h (Nat.pow_le_pow_right Nat.two_pos ?_)
  unfold droppedBits
  omega

/-- At most 53 bits times a power of two has at most 53 significant bits, and so has the carry. -/
private theorem pow_droppedBits_dvd {k shift : Nat} (hk : k ≤ Nat.pow 2 (fractionBits + 1)) :
    Nat.pow 2 (droppedBits (k * Nat.pow 2 shift)) ∣ k * Nat.pow 2 shift := by
  simp only [Nat.pow_eq] at hk ⊢
  by_cases hz : k = 0
  · simp [hz]
  by_cases hc : k = 2 ^ (fractionBits + 1)
  · subst hc
    rw [← Nat.pow_add]
    exact Nat.pow_dvd_pow 2 (by simp only [droppedBits, Nat.log2_two_pow]; omega)
  · refine Nat.dvd_trans (Nat.pow_dvd_pow 2 ?_) (Nat.dvd_mul_left _ _)
    have hlt : k * 2 ^ shift < 2 ^ (fractionBits + 1 + shift) := by
      rw [Nat.pow_add]
      exact Nat.mul_lt_mul_of_pos_right (by omega) (Nat.two_pow_pos shift)
    have hne : k * 2 ^ shift ≠ 0 := Nat.mul_ne_zero hz (Nat.ne_of_gt (Nat.two_pow_pos shift))
    have := (Nat.log2_lt hne).2 hlt
    unfold droppedBits
    omega

theorem pow_droppedBits_dvd_roundUnits (num den : Nat) :
    Nat.pow 2 (droppedBits (roundUnits num den)) ∣ roundUnits num den := by
  refine pow_droppedBits_dvd (Nat.le_trans (roundHalfEven_le _ _) ?_)
  have := div_lt_of_droppedBits num den
  omega

structure Magnitude where
  units : Nat
  representable : Representable units
deriving DecidableEq

inductive Binary64 where
  | nan
  | infinite (negative : Bool)
  | finite (negative : Bool) (magnitude : Magnitude)
deriving DecidableEq

private theorem pow_two_lt (k l : Nat) (h : k < l) : Nat.pow 2 k < Nat.pow 2 l :=
  Nat.pow_lt_pow_right Nat.one_lt_two h

private theorem pow_two_pos (k : Nat) : 0 < Nat.pow 2 k := Nat.two_pow_pos k

private theorem log2_pow_two (k : Nat) : (Nat.pow 2 k).log2 = k := Nat.log2_two_pow

private theorem pow_two_dvd {k l : Nat} (h : k ≤ l) : Nat.pow 2 k ∣ Nat.pow 2 l :=
  Nat.pow_dvd_pow 2 h

theorem representable_pow {k : Nat} (h : k < boundExponent) : Representable (Nat.pow 2 k) := by
  unfold Representable unitsBound droppedBits
  rw [log2_pow_two]
  exact ⟨pow_two_lt k boundExponent h, pow_two_dvd (Nat.sub_le k fractionBits)⟩

theorem representable_zero : Representable 0 := by
  unfold Representable unitsBound
  exact ⟨pow_two_pos boundExponent, Nat.dvd_zero _⟩

namespace Magnitude

def zero : Magnitude := ⟨0, representable_zero⟩

def twoPow (k : Nat) (h : k < boundExponent) : Magnitude := ⟨Nat.pow 2 k, representable_pow h⟩

def one : Magnitude := twoPow oneExponent (by decide)

/-- The magnitude nearest to `num / den` units; none from halfway to `2 ^ 1024` on. -/
def round? (num den : Nat) : Option Magnitude :=
  if h : roundUnits num den < unitsBound then
    some ⟨roundUnits num den, h, pow_droppedBits_dvd_roundUnits num den⟩
  else none

/-- The bits of the number without its sign: exponent field, then 52 bits of the fraction. -/
def toBits (m : Magnitude) : Nat :=
  if m.units < Nat.pow 2 fractionBits then m.units
  else droppedBits m.units * Nat.pow 2 fractionBits + m.units / Nat.pow 2 (droppedBits m.units)

end Magnitude

namespace Binary64

def zero : Binary64 := finite false .zero

def one : Binary64 := finite false .one

instance : Inhabited Binary64 := ⟨zero⟩

def isFinite : Binary64 → Bool
  | finite .. => true
  | _ => false

/-- The number nearest to `num / den` units, or the infinity beyond the largest. -/
def roundedUnits (negative : Bool) (num den : Nat) : Binary64 :=
  match Magnitude.round? num den with
  | some m => finite negative m
  | none => infinite negative

def ofRatio (negative : Bool) (num den : Nat) : Binary64 :=
  roundedUnits negative (num * unitsPerOne) den

def signPlace : Nat := Nat.pow 2 (fractionBits + fieldBits)

/-- The exponent field of what is not finite. -/
def lastField : Nat := Nat.pow 2 fieldBits - 1

def ofBits (bits : UInt64) : Binary64 :=
  let negative := signPlace ≤ bits.toNat
  let field := bits.toNat / Nat.pow 2 fractionBits % Nat.pow 2 fieldBits
  let rest := bits.toNat % Nat.pow 2 fractionBits
  if field = lastField then
    if rest = 0 then infinite negative else nan
  else if field = 0 then roundedUnits negative rest 1
  else roundedUnits negative ((Nat.pow 2 fractionBits + rest) * Nat.pow 2 (field - 1)) 1

/-- The 64 bits of the number; every way of being no number has the same ones. -/
def toBits : Binary64 → UInt64
  | nan => 0x7ff8000000000000
  | infinite negative =>
    UInt64.ofNat ((if negative then signPlace else 0) + lastField * Nat.pow 2 fractionBits)
  | finite negative m => UInt64.ofNat ((if negative then signPlace else 0) + m.toBits)

/-! ## Order

The infinities lie beyond every finite number. What is no number is neither below nor above
anything, and the two zeros are one point of the order. -/

def place? : Binary64 → Option Int
  | nan => none
  | infinite negative => some (if negative then -unitsBound else unitsBound)
  | finite negative m => some (if negative then -m.units else m.units)

/-- Comparison as numbers: false if one side is no number. -/
def atMost (a b : Binary64) : Bool :=
  match a.place?, b.place? with
  | some x, some y => x ≤ y
  | _, _ => false

/-- Equality as numbers: no number differs from itself, and zero equals minus zero. -/
def equals (a b : Binary64) : Bool := a.atMost b && b.atMost a

/-! ## Arithmetic -/

/-- The exact product, rounded once. -/
def times : Binary64 → Binary64 → Binary64
  | nan, _ | _, nan => nan
  | infinite s, infinite t => infinite (s ^^ t)
  | infinite s, finite t m | finite s m, infinite t =>
    if m.units = 0 then nan else infinite (s ^^ t)
  | finite s m, finite t n => roundedUnits (s ^^ t) (m.units * n.units) unitsPerOne

/-- `acc` times `x ^ k`, by squaring from the lowest bit of `k` on; each product is rounded. -/
def timesPow (acc x : Binary64) (k : Nat) : Binary64 :=
  let acc := if k % 2 = 1 then acc.times x else acc
  if k / 2 = 0 then acc else timesPow acc (x.times x) (k / 2)
termination_by k
decreasing_by omega

def pow (x : Binary64) (k : Nat) : Binary64 := timesPow one x k

end Binary64

end Orchestration
