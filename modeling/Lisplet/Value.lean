import Lisplet.Error
/-!
# Values

What evaluation yields: nothing, a truth value, a number, an alias (the name of another variable), a closure or a
built-in tool.  Scopes are named by their place in the store, so a value is plain data although closures and the scopes
that hold them refer to each other.

A host may bring tools of its own.  They are the inhabitants of a type `ε`, and the class `Host` says what each of them
is called and what it does; `Empty` is the host without tools.
-/
namespace Lisplet

abbrev ScopeId := Nat

/-- A function with the scope in which it was made.  `id` tells closures apart that are otherwise alike. -/
structure Closure where
  id : Nat
  params : List String
  body : Expr
  env : ScopeId

inductive Tool (ε : Type) where
  | operator (op : Operator)
  | host (tool : ε)

inductive Value (ε : Type) where
  | null
  | bool (b : Bool)
  | num (n : Number)
  | symbol (name : String)
  | closure (c : Closure)
  | builtin (tool : Tool ε)

class Named (ε : Type) where
  name : ε → String
  description : ε → String

class Host (ε : Type) extends Named ε where
  run : ε → List (Value ε) → Except Error (Value ε)

instance : Host Empty where
  name tool := nomatch tool
  description tool := nomatch tool
  run tool := nomatch tool

variable {ε : Type}

namespace Tool

variable [Named ε]

def name : Tool ε → String
  | .operator op => op.spelling
  | .host tool => Named.name tool

def description : Tool ε → String
  | .operator op => op.description
  | .host tool => Named.description tool

end Tool

namespace Value

def kind : Value ε → Kind
  | .null => .null
  | .bool _ => .bool
  | .num (.int _) => .int
  | .num (.float _) => .float
  | .symbol _ => .symbol
  | .closure _ => .closure
  | .builtin _ => .builtin

/-- Null, false and the zeros count as false, everything else as true. -/
def isTruthy : Value ε → Bool
  | .null => false
  | .bool b => b
  | .num n => !n.isZero
  | .symbol _ => true
  | .closure _ => true
  | .builtin _ => true

def isNumber : Value ε → Bool
  | .num _ => true
  | _ => false

def number (v : Value ε) : Except Error Number :=
  match v with
  | .num n => .ok n
  | _ => .error (.type .number v.kind)

/-- The integer, where an integer is wanted; a float is none, whatever its value. -/
def toInteger (v : Value ε) : Except Error Integer :=
  match v with
  | .num (.int n) => .ok n
  | _ => .error (.type .int v.kind)

def toFloat (v : Value ε) : Except Error Binary64 :=
  v.number.map Number.toBinary64

variable [Named ε]

/-- Equality of values: numbers by value across their kinds, closures by identity, built-ins by name. -/
def equal : Value ε → Value ε → Bool
  | .null, .null => true
  | .bool a, .bool b => a == b
  | .num a, .num b => a.equal b
  | .symbol a, .symbol b => a == b
  | .closure a, .closure b => a.id == b.id
  | .builtin a, .builtin b => a.name == b.name
  | _, _ => false

instance : BEq (Value ε) := ⟨equal⟩

def text : Value ε → String
  | .null => "null"
  | .bool b => if b then "true" else "false"
  | .num n => n.text
  | .symbol name => name
  | .closure c => "<lambda (" ++ " ".intercalate c.params ++ ")>"
  | .builtin tool => "<builtin " ++ tool.name ++ ">"

def inspect : Value ε → String
  | .null => "Null"
  | .bool b => "Bool(" ++ (if b then "true" else "false") ++ ")"
  | .num (.int n) => "Int(" ++ Text.ofInt n.toInt ++ ")"
  | .num (.float x) => "Float(" ++ x.inspect ++ ")"
  | .symbol name => "Symbol(" ++ Text.quoted name ++ ")"
  | .closure c =>
    "Closure \x7b params: " ++ Text.quotedList c.params ++ ", body: " ++ Text.quoted c.body.text ++ ", .. \x7d"
  | .builtin tool => "Builtin(" ++ Text.quoted tool.name ++ ")"

end Value

inductive Callable (ε : Type) where
  | builtin (tool : Tool ε)
  | closure (c : Closure)

def Value.callable? : Value ε → Option (Callable ε)
  | .builtin tool => some (.builtin tool)
  | .closure c => some (.closure c)
  | _ => none

end Lisplet
