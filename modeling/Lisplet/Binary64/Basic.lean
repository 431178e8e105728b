/-!
# Binary64 numbers

The IEEE-754 format with a 53-bit mantissa, as exact data: a finite number is a sign, a natural mantissa and a power of
two.  A number has one spelling only, because the mantissa is kept as long as it goes (`Canonical`), so equality of data
is equality of bit patterns; all NaNs are one.

Everything that has to fit into the format goes through `round`, which takes an exact non-negative fraction to the
nearest number of the format, a half to the even neighbour.  Literals, conversions and arithmetic differ only in the
fraction that they hand to it.
-/
namespace Lisplet

-- a power is core's in every module, also in those where an imported library has a class of its own for it
attribute [instance (1100), default_instance 20000] instPowNat

namespace Binary64

/-- `m * 2 ^ e` is spelled with the longest mantissa that the format has room for. -/
def Canonical (m : Nat) (e : Int) : Prop :=
  m < 2 ^ 53 ∧ -1074 ≤ e ∧ e ≤ 971 ∧ (e = -1074 ∨ 2 ^ 52 ≤ m)

instance (m : Nat) (e : Int) : Decidable (Canonical m e) := by
  unfold Canonical; infer_instance

/-- A finite number: `mantissa * 2 ^ exponent` with a sign, which zero has too. -/
structure Finite where
  negative : Bool
  mantissa : Nat
  exponent : Int
  canonical : Canonical mantissa exponent
  deriving DecidableEq

end Binary64

inductive Binary64 where
  | nan
  | infinity (negative : Bool)
  | finite (x : Binary64.Finite)
  deriving DecidableEq

namespace Binary64

/-- The number with the given parts, or the infinity of that sign where they leave the format. -/
def ofParts (negative : Bool) (m : Nat) (e : Int) : Binary64 :=
  if h : Canonical m e then .finite ⟨negative, m, e, h⟩ else .infinity negative

theorem ofParts_of_canonical (negative : Bool) {m : Nat} {e : Int} (h : Canonical m e) :
    ofParts negative m e = .finite ⟨negative, m, e, h⟩ :=
  dif_pos h

def Finite.zero (negative : Bool) : Finite :=
  ⟨negative, 0, -1074, by decide⟩

def zero (negative : Bool) : Binary64 :=
  .finite (.zero negative)

def isFinite : Binary64 → Bool
  | .finite _ => true
  | _ => false

def isInfinite : Binary64 → Bool
  | .infinity _ => true
  | _ => false

def isZero : Binary64 → Bool
  | .finite x => x.mantissa == 0
  | _ => false

/-! ## Rounding -/

/-- The natural number nearest to `num / den`, a half to the even neighbour. -/
def nearest (num den : Nat) : Nat :=
  let q := num / den
  let r := num % den
  if 2 * r < den then q else if den < 2 * r then q + 1 else q + q % 2

/-- The power of two that the last bit of `num / den` stands for: 52 below the leading one, and never under the
format's smallest. -/
def lastPlace (num den : Nat) : Int :=
  let a := num.log2
  let b := den.log2
  let lead : Int := if num * 2 ^ b < den * 2 ^ a then (a : Int) - b - 1 else (a : Int) - b
  max (-1074) (lead - 52)

/-- **Rounding.**  The number of the format nearest to `num / den`, a half to the even neighbour; a result beyond the
largest finite number is an infinity. -/
def round (negative : Bool) (num den : Nat) : Binary64 :=
  if num = 0 then
    zero negative
  else
    let e := lastPlace num den
    let m := nearest (num * 2 ^ (-e).toNat) (den * 2 ^ e.toNat)
    if m = 2 ^ 53 then ofParts negative (2 ^ 52) (e + 1) else ofParts negative m e

def ofNat (n : Nat) : Binary64 :=
  round false n 1

def ofInt (n : Int) : Binary64 :=
  round (n < 0) n.natAbs 1

/-! ## Order -/

def Finite.scaled (x : Finite) (e : Int) : Int :=
  let m : Int := x.mantissa * 2 ^ (x.exponent - e).toNat
  if x.negative then -m else m

/-- Zeros of both signs are equal, and nothing stands in order with a NaN. -/
def compare? : Binary64 → Binary64 → Option Ordering
  | .nan, _ => none
  | _, .nan => none
  | .infinity s, .infinity t => some (if s = t then .eq else if s then .lt else .gt)
  | .infinity s, .finite _ => some (if s then .lt else .gt)
  | .finite _, .infinity t => some (if t then .gt else .lt)
  | .finite x, .finite y =>
    let e := min x.exponent y.exponent
    some (compare (x.scaled e) (y.scaled e))

def equal (x y : Binary64) : Bool :=
  x.compare? y == some .eq

/-! ## Bit patterns -/

def signBit (negative : Bool) : Nat :=
  if negative then 2 ^ 63 else 0

def toBits : Binary64 → UInt64
  | .nan => (0x7FF8 * 2 ^ 48).toUInt64
  | .infinity s => (signBit s + 0x7FF * 2 ^ 52).toUInt64
  | .finite x =>
    let magnitude :=
      if x.mantissa < 2 ^ 52 then x.mantissa else (x.exponent + 1075).toNat * 2 ^ 52 + (x.mantissa - 2 ^ 52)
    (signBit x.negative + magnitude).toUInt64

def ofBits (bits : UInt64) : Binary64 :=
  let n := bits.toNat
  let negative := decide (2 ^ 63 ≤ n)
  let biased : Nat := n / 2 ^ 52 % 2 ^ 11
  let fraction := n % 2 ^ 52
  if biased = 0x7FF then
    if fraction = 0 then .infinity negative else .nan
  else if biased = 0 then
    ofParts negative fraction (-1074)
  else
    ofParts negative (2 ^ 52 + fraction) ((biased : Int) - 1075)

end Binary64
end Lisplet
