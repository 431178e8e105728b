import Lisplet.Binary64.Arith
import Lisplet.Text
/-!
# JSON values and numbers

A number is an integer that fits into 64 bits, signed or unsigned, or else a finite binary64 number.  An object keeps its
fields in order and may have a key twice.  A text fails to give what is wanted in two ways: it is no JSON, or it is JSON
of another shape.

As it is written, a number without point and exponent is an integer where it fits; only `-0` is not, because an integer
has no negative zero.  Every other number is read into binary64 by a fast rule that is not always the nearest number: the
digits are gathered into a 64-bit significand, the rest of the number is a power of ten, and the significand, rounded, is
multiplied or divided by that power, rounded.  A number too large for the format is refused.
-/
namespace Lisplet
namespace Json

structure Whole where
  val : Int
  inRange : -2 ^ 63 ≤ val ∧ val < 2 ^ 64

inductive Fault where
  | notJson
  | wrongShape
  deriving DecidableEq

end Json

inductive Json where
  | null
  | bool (b : Bool)
  | whole (n : Json.Whole)
  | float (x : Binary64.Finite)
  | string (s : String)
  | array (items : List Json)
  | object (fields : List (String × Json))

/-! ## Numbers as they are written -/

namespace Json

structure NumberText where
  negative : Bool
  wholeDigits : List Char
  fraction : Option (List Char)
  /-- The sign of the exponent and its digits. -/
  exponent : Option (Bool × List Char)

/-- Gathers digits into a significand as long as 64 bits hold it; gives it with the digits left over. -/
def gather : Nat → List Char → Nat × List Char
  | significand, [] => (significand, [])
  | significand, c :: rest =>
    let next := 10 * significand + Text.digitValue c
    if next < 2 ^ 64 then gather next rest else (significand, c :: rest)

def maxPower : Nat := 308

def powerOfTen (n : Nat) : Binary64 :=
  .ofNat (10 ^ n)

/-- `x * 10 ^ e`, rounded once where the power is in the format and stepwise below it; none if it is too large. -/
def scale (x : Binary64) (e : Int) : Option Binary64 :=
  if e.natAbs ≤ maxPower then
    if 0 ≤ e then
      let y := x.mul (powerOfTen e.natAbs)
      if y.isInfinite then none else some y
    else some (x.div (powerOfTen e.natAbs))
  else if x.isZero then some x
  else if 0 ≤ e then none
  else scale (x.div (powerOfTen maxPower)) (e + maxPower)
termination_by e.natAbs
decreasing_by simp only [maxPower] at *; omega

/-- An exponent whose absolute value does not fit into 31 bits is not computed with. -/
def exponentLimit : Nat := 2 ^ 31

namespace NumberText

def sign (t : NumberText) (x : Binary64) : Binary64 :=
  if t.negative then x.neg else x

def magnitude? (t : NumberText) (significand : Nat) (e : Int) : Option Binary64 :=
  match t.exponent with
  | none => scale (.ofNat significand) e
  | some (down, digits) =>
    let written := Text.ofDigits digits
    if written < exponentLimit then
      scale (.ofNat significand) (if down then e - written else e + written)
    else if significand ≠ 0 ∧ !down then none
    else some (.zero false)

def float? (t : NumberText) : Option Json :=
  let (significand, left) := gather 0 t.wholeDigits
  let fraction := t.fraction.getD []
  let (significand, dropped) := gather significand fraction
  let e : Int := left.length - (fraction.length - dropped.length : Nat)
  match (t.magnitude? significand e).map t.sign with
  | some (.finite x) => some (.float x)
  | _ => none

def whole? (t : NumberText) : Option Whole :=
  match t.fraction, t.exponent with
  | none, none =>
    let n := Text.ofDigits t.wholeDigits
    if h : t.negative ∧ 0 < n ∧ n ≤ 2 ^ 63 then some ⟨-(n : Int), by omega⟩
    else if h : ¬ t.negative ∧ n < 2 ^ 64 then some ⟨n, by omega⟩
    else none
  | _, _ => none

def value? (t : NumberText) : Option Json :=
  match t.whole? with
  | some n => some (.whole n)
  | none => t.float?

end NumberText
end Json
end Lisplet
