import Lisplet.Binary64.Basic
/-!
# Binary64 arithmetic

Each operation takes its operands' exact values, computes the exact result and rounds once.  What is left is the table of
the special operands: infinities, zeros and NaN.
-/
namespace Lisplet
namespace Binary64

def neg : Binary64 → Binary64
  | .nan => .nan
  | .infinity s => .infinity !s
  | .finite x => .finite { x with negative := !x.negative }

/-- The sum of finite numbers.  An exact zero is positive unless both operands are negative. -/
def Finite.add (x y : Finite) : Binary64 :=
  let e := min x.exponent y.exponent
  let sum := x.scaled e + y.scaled e
  if sum = 0 then
    Binary64.zero (x.negative && y.negative)
  else
    round (sum < 0) (sum.natAbs * 2 ^ e.toNat) (2 ^ (-e).toNat)

def add : Binary64 → Binary64 → Binary64
  | .nan, _ => .nan
  | _, .nan => .nan
  | .infinity s, .infinity t => if s = t then .infinity s else .nan
  | .infinity s, .finite _ => .infinity s
  | .finite _, .infinity t => .infinity t
  | .finite x, .finite y => x.add y

def sub (x y : Binary64) : Binary64 :=
  x.add y.neg

def Finite.mul (x y : Finite) : Binary64 :=
  let e := x.exponent + y.exponent
  round (x.negative != y.negative) (x.mantissa * y.mantissa * 2 ^ e.toNat) (2 ^ (-e).toNat)

/-- An infinity times a zero has no value. -/
def mul : Binary64 → Binary64 → Binary64
  | .nan, _ => .nan
  | _, .nan => .nan
  | .infinity s, .infinity t => .infinity (s != t)
  | .infinity s, .finite y => if y.mantissa = 0 then .nan else .infinity (s != y.negative)
  | .finite x, .infinity t => if x.mantissa = 0 then .nan else .infinity (x.negative != t)
  | .finite x, .finite y => x.mul y

/-- The quotient of finite numbers.  A zero divisor gives an infinity, or no value under a zero. -/
def Finite.div (x y : Finite) : Binary64 :=
  let s := x.negative != y.negative
  if y.mantissa = 0 then
    if x.mantissa = 0 then .nan else .infinity s
  else
    let e := x.exponent - y.exponent
    round s (x.mantissa * 2 ^ e.toNat) (y.mantissa * 2 ^ (-e).toNat)

def div : Binary64 → Binary64 → Binary64
  | .nan, _ => .nan
  | _, .nan => .nan
  | .infinity _, .infinity _ => .nan
  | .infinity s, .finite y => .infinity (s != y.negative)
  | .finite x, .infinity t => zero (x.negative != t)
  | .finite x, .finite y => x.div y

end Binary64
end Lisplet
