import Lisplet.Binary64.Basic
import Lisplet.Text
/-!
# The shortest decimal of a number, and its texts

The shortest decimal of a finite number is the one with the fewest digits that rounds back to it, and of those the
nearest.  For each count of digits only the number's two neighbours on that decimal grid can be it, so they are tried
from one digit up; seventeen digits tell all numbers of the format apart.

Two texts are built from it.  `text` never has an exponent and shows an integral value in full, so that reading the text
gives the number again; `inspect` goes over to an exponent for very large and very small magnitudes.
-/
namespace Lisplet

structure Decimal where
  digits : Nat
  exponent : Int
  deriving DecidableEq

namespace Decimal

def round (negative : Bool) (d : Decimal) : Binary64 :=
  Binary64.round negative (d.digits * 10 ^ d.exponent.toNat) (10 ^ (-d.exponent).toNat)

def trim (d : Decimal) : Decimal :=
  if h : d.digits ≠ 0 ∧ d.digits % 10 = 0 then trim ⟨d.digits / 10, d.exponent + 1⟩ else d
termination_by d.digits
decreasing_by omega

/-- How many digits stand before the point; negative or zero for a decimal below a tenth. -/
def point (d : Decimal) : Int :=
  (Text.digits d.digits).length + d.exponent

/-- The digits with a point among them, filled up with zeros; no point where no digit follows it. -/
def positional (d : Decimal) : String :=
  let ds := Text.digits d.digits
  let point := d.point
  if 0 ≤ d.exponent then
    String.ofList (ds ++ List.replicate d.exponent.toNat '0')
  else if 0 < point then
    String.ofList (ds.take point.toNat ++ '.' :: ds.drop point.toNat)
  else
    String.ofList ('0' :: '.' :: List.replicate (-point).toNat '0' ++ ds)

def scientific (d : Decimal) : String :=
  let ds := Text.digits d.digits
  let tail := if ds.length ≤ 1 then [] else '.' :: ds.drop 1
  String.ofList (ds.take 1 ++ tail) ++ "e" ++ Text.ofInt (d.point - 1)

end Decimal

namespace Binary64
namespace Finite

def numerator (x : Finite) : Nat :=
  x.mantissa * 2 ^ x.exponent.toNat

def denominator (x : Finite) : Nat :=
  2 ^ (-x.exponent).toNat

def isIntegral (x : Finite) : Bool :=
  x.numerator % x.denominator == 0

def exact (x : Finite) : Decimal :=
  ⟨x.mantissa * 2 ^ x.exponent.toNat * 5 ^ (-x.exponent).toNat, min x.exponent 0⟩

/-- The power of ten just above the absolute value of a number other than zero. -/
def decimalExponent (x : Finite) : Int :=
  let num := x.numerator
  let den := x.denominator
  if den ≤ num then (Text.digits (num / den)).length else 1 - (Text.digits ((den - 1) / num)).length

/-- A decimal of `count` digits that rounds to `x`, if there is one: the nearer of the two neighbours on the grid, and on
a tie the larger. -/
def withDigits? (x : Finite) (count : Nat) : Option Decimal :=
  let place := x.decimalExponent - count
  let num := x.numerator * 10 ^ (-place).toNat
  let den := x.denominator * 10 ^ place.toNat
  let low : Decimal := ⟨num / den, place⟩
  let high : Decimal := ⟨num / den + 1, place⟩
  let hit (d : Decimal) : Bool := d.round x.negative == .finite x
  let (near, far) := if den ≤ 2 * (num % den) then (high, low) else (low, high)
  if hit near then some near else if hit far then some far else none

/-- **The shortest decimal** that rounds to `x`. -/
def shortest (x : Finite) : Decimal :=
  if x.mantissa = 0 then
    ⟨0, 0⟩
  else
    (((List.range 17).findSome? fun i => x.withDigits? (i + 1)).getD x.exact).trim

def sign (x : Finite) : String :=
  if x.negative then "-" else ""

/-- An integral value in full and with `.0`, any other by its shortest decimal, never with an exponent. -/
def text (x : Finite) : String :=
  x.sign ++ if x.isIntegral then Text.ofNat (x.numerator / x.denominator) ++ ".0" else x.shortest.positional

/-- The shortest decimal, with an exponent from `1e16` on and, zero apart, below `1e-4`. -/
def inspect (x : Finite) : String :=
  let d := x.shortest
  x.sign ++
    if x.mantissa ≠ 0 ∧ (16 < d.point ∨ d.point < -3) then d.scientific
    else if 0 ≤ d.exponent then d.positional ++ ".0"
    else d.positional

end Finite

def infinityText (negative : Bool) : String :=
  if negative then "-inf" else "inf"

def text : Binary64 → String
  | .nan => "NaN"
  | .infinity s => infinityText s
  | .finite x => x.text

def inspect : Binary64 → String
  | .nan => "NaN"
  | .infinity s => infinityText s
  | .finite x => x.inspect

end Binary64
end Lisplet
