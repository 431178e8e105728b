import Lisplet.Value
/-!
# What tools do

Every operator wants two operands or more.  The arithmetic operators fold their step over the operands from the left and
look at the kind of an operand just before they use it, so the leftmost fault is the one reported.  The two order
operators hold the first operand against each of the others, and look at the kinds of all of them even when the answer
is already settled.  Equality compares neighbours and takes values of every kind.

An arithmetic step on two integers gives the exact integer or an overflow; as soon as a float takes part it is done in
binary64.  Division stays with integers where it is exact and refuses a zero of either kind.
-/
namespace Lisplet

/-! ## Arithmetic -/

namespace Number

def checked (op : Operator) (n : Int) : Except Error Number :=
  match Integer.ofInt? n with
  | some i => .ok (.int i)
  | none => .error (.overflow op)

def add : Number → Number → Except Error Number
  | .int a, .int b => checked .add (a.toInt + b.toInt)
  | x, y => .ok (.float (x.toBinary64.add y.toBinary64))

def sub : Number → Number → Except Error Number
  | .int a, .int b => checked .subtract (a.toInt - b.toInt)
  | x, y => .ok (.float (x.toBinary64.sub y.toBinary64))

def mul : Number → Number → Except Error Number
  | .int a, .int b => checked .multiply (a.toInt * b.toInt)
  | x, y => .ok (.float (x.toBinary64.mul y.toBinary64))

/-- The quotient of integers is an integer where the division is exact, and a float otherwise. -/
def quotient : Number → Number → Except Error Number
  | .int a, .int b =>
    if a.toInt % b.toInt = 0 then checked .divide (a.toInt / b.toInt)
    else .ok (.float ((Binary64.ofInt a.toInt).div (Binary64.ofInt b.toInt)))
  | x, y => .ok (.float (x.toBinary64.div y.toBinary64))

def div (x y : Number) : Except Error Number :=
  if y.isZero then .error .divisionByZero else x.quotient y

end Number

/-! ## Operators -/

variable {ε : Type}

namespace Operator

def foldFrom (step : Number → Number → Except Error Number) : Number → List (Value ε) → Except Error Number
  | reached, [] => .ok reached
  | reached, v :: rest =>
    match v.number with
    | .error e => .error e
    | .ok n =>
      match step reached n with
      | .error e => .error e
      | .ok next => foldFrom step next rest

def tooFew (op : Operator) (args : List (Value ε)) : Error :=
  .arity op.spelling (.atLeast 2) args.length

def arithmetic (op : Operator) (step : Number → Number → Except Error Number) :
    List (Value ε) → Except Error (Value ε)
  | first :: second :: rest =>
    match first.number with
    | .error e => .error e
    | .ok n => (foldFrom step n (second :: rest)).map .num
  | args => .error (op.tooFew args)

def numbers (args : List (Value ε)) : Except Error (List Number) :=
  args.mapM Value.number

def ordered (op : Operator) (wanted : Ordering) : List (Value ε) → Except Error (Value ε)
  | first :: second :: rest => do
    let x ← first.number
    let ys ← numbers (second :: rest)
    return .bool (ys.all fun y => x.compare? y == some wanted)
  | args => .error (op.tooFew args)

variable [Named ε]

def chained : List (Value ε) → Bool
  | a :: b :: rest => a == b && chained (b :: rest)
  | _ => true

def equality (op : Operator) : List (Value ε) → Except Error (Value ε)
  | first :: second :: rest => .ok (.bool (chained (first :: second :: rest)))
  | args => .error (op.tooFew args)

def run (op : Operator) : List (Value ε) → Except Error (Value ε) :=
  match op with
  | .add => arithmetic op Number.add
  | .subtract => arithmetic op Number.sub
  | .multiply => arithmetic op Number.mul
  | .divide => arithmetic op Number.div
  | .greater => ordered op .gt
  | .less => ordered op .lt
  | .equal => equality op

end Operator

def Tool.run [Host ε] : Tool ε → List (Value ε) → Except Error (Value ε)
  | .operator op => op.run
  | .host tool => Host.run tool

end Lisplet
