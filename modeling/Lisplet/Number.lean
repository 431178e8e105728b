import Lisplet.Binary64.Arith
import Lisplet.Binary64.Shortest
/-!
# Numbers

A number is a 64-bit integer or a binary64 number.  The kinds never turn into each other by themselves: two integers are
compared exactly, and any other pair as binary64 numbers.
-/
namespace Lisplet

/-- Integers are words of 64 bits; an operation that leaves their range is an error and does not wrap. -/
abbrev Integer := Int64

namespace Integer

def ofInt? (n : Int) : Option Integer :=
  if -2 ^ 63 ≤ n ∧ n < 2 ^ 63 then some (Int64.ofInt n) else none

theorem ofInt?_eq_some {n : Int} {i : Integer} (h : ofInt? n = some i) : i.toInt = n := by
  unfold ofInt? at h
  split at h
  · next hr => cases h; exact Int64.toInt_ofInt_of_le hr.1 hr.2
  · cases h

theorem ofInt?_eq_none {n : Int} : ofInt? n = none ↔ n < -2 ^ 63 ∨ 2 ^ 63 ≤ n := by
  unfold ofInt?
  split <;> simp <;> omega

theorem ofInt?_toInt (i : Integer) : ofInt? i.toInt = some i := by
  unfold ofInt?
  rw [if_pos ⟨Int64.le_toInt i, Int64.toInt_lt i⟩, Int64.ofInt_toInt]

end Integer

inductive Number where
  | int (n : Integer)
  | float (x : Binary64)
  deriving DecidableEq

namespace Number

def toBinary64 : Number → Binary64
  | .int n => .ofInt n.toInt
  | .float x => x

def text : Number → String
  | .int n => Text.ofInt n.toInt
  | .float x => x.text

/-- Integers in their exact order, any other pair in the order of binary64. -/
def compare? : Number → Number → Option Ordering
  | .int a, .int b => some (compare a.toInt b.toInt)
  | x, y => x.toBinary64.compare? y.toBinary64

def equal : Number → Number → Bool
  | .int a, .int b => a == b
  | x, y => x.toBinary64.equal y.toBinary64

/-- Equality of literals: the kinds are told apart, and floats are compared by value. -/
def sameLiteral : Number → Number → Bool
  | .int a, .int b => a == b
  | .float x, .float y => x.equal y
  | _, _ => false

def isZero : Number → Bool
  | .int n => n == 0
  | .float x => x.isZero

end Number
end Lisplet
