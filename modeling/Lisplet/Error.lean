import Lisplet.Expr.Text
import Lisplet.Token
/-!
# Errors

Every way in which reading or evaluating can fail, as a cause with its particulars.  The wording is in `Error.message`
only, and `Error.category` sorts the causes into five coarse classes.
-/
namespace Lisplet

inductive Kind where
  | null
  | bool
  | int
  | float
  | symbol
  | closure
  | builtin
  deriving DecidableEq

def Kind.name : Kind → String
  | .null => "null"
  | .bool => "bool"
  | .int => "int"
  | .float => "float"
  | .symbol => "symbol"
  | .closure => "closure"
  | .builtin => "builtin"

inductive Malformed where
  /-- A form was wanted where no token is left. -/
  | noForm
  | strayClose (position : Position)
  | unclosed (position : Position)
  | emptyForm (position : Position)
  | integerRange (lexeme : String) (position : Position)
  | decimalRange (lexeme : String) (position : Position)
  /-- A keyword stands where its value is wanted. -/
  | keywordValue (keyword : Keyword)
  | emptyCall
  | defineOperands (count : Nat)
  | defineTarget (target : Expr)
  | branchOperands (count : Nat)
  | lambdaOperands (count : Nat)
  | lambdaParameters (found : Expr)
  | lambdaParameter (found : Expr)
  | duplicateParameter (name : String)
  | notCallable (head : Expr) (kind : Kind)
  | aliasCycle (name : String)
  | toolFailure (name : String)

inductive Arity where
  | exactly (count : Nat)
  | atLeast (count : Nat)
  deriving DecidableEq

def Arity.text : Arity → String
  | .exactly count => Text.ofNat count
  | .atLeast count => "at least " ++ Text.ofNat count

inductive Wanted where
  | number
  | int
  deriving DecidableEq

def Wanted.name : Wanted → String
  | .number => "number"
  | .int => "int"

inductive Error where
  | malformed (cause : Malformed)
  | unbound (name : String)
  | arity (callee : String) (expected : Arity) (got : Nat)
  | type (expected : Wanted) (got : Kind)
  | divisionByZero
  | overflow (op : Operator)
  | tooDeep (limit : Nat)

namespace Malformed

def located (what : String) (p : Position) : String :=
  what ++ " at line " ++ Text.ofNat p.line ++ ", column " ++ Text.ofNat p.column

def shapeText (form wanted : String) (count : Nat) : String :=
  "`" ++ form ++ "` expects " ++ wanted ++ ", got " ++ Text.ofNat count ++ " argument(s)"

def text : Malformed → String
  | .noForm => "Unexpected end of input"
  | .strayClose p => located "Unexpected `)` with no matching `(`" p
  | .unclosed p => located "Missing closing `)` for `(`" p
  | .emptyForm p => located "Empty form `()`" p
  | .integerRange lexeme p => located ("Integer literal `" ++ lexeme ++ "` out of range") p
  | .decimalRange lexeme p => located ("Decimal literal `" ++ lexeme ++ "` out of range") p
  | .keywordValue k => "`" ++ k.spelling ++ "` is only valid at the head of a form"
  | .emptyCall => "Cannot evaluate an empty form"
  | .defineOperands count => shapeText "define" "a name and a value" count
  | .defineTarget target => "`define` target must be a symbol, got `" ++ target.text ++ "`"
  | .branchOperands count => shapeText "if" "a condition and two branches" count
  | .lambdaOperands count => shapeText "lambda" "a parameter list and a body" count
  | .lambdaParameters found => "`lambda` parameters must be a list, got `" ++ found.text ++ "`"
  | .lambdaParameter found => "`lambda` parameter must be a symbol, got `" ++ found.text ++ "`"
  | .duplicateParameter name => "Duplicate `lambda` parameter `" ++ name ++ "`"
  | .notCallable head kind => "`" ++ head.text ++ "` is not callable (found " ++ kind.name ++ ")"
  | .aliasCycle name => "Symbol alias cycle through `" ++ name ++ "`"
  | .toolFailure name => "host tool " ++ name ++ " failed"

end Malformed

namespace Error

def message : Error → String
  | .malformed cause => "Malformed input: " ++ cause.text
  | .unbound name => "Unbound symbol: " ++ name
  | .arity callee expected got =>
    "Arity mismatch calling " ++ callee ++ ": expected " ++ expected.text ++ ", got " ++ Text.ofNat got
  | .type expected got => "Type error: expected " ++ expected.name ++ ", got " ++ got.name
  | .divisionByZero => "Division by zero"
  | .overflow op => "Integer overflow in " ++ op.spelling
  | .tooDeep limit => "Recursion limit exceeded (max depth: " ++ Text.ofNat limit ++ ")"

inductive Category where
  | malformed
  | unbound
  | arityOrType
  | arithmetic
  | resource
  deriving DecidableEq

def category : Error → Category
  | .malformed _ => .malformed
  | .unbound _ => .unbound
  | .arity .. => .arityOrType
  | .type .. => .arityOrType
  | .divisionByZero => .arithmetic
  | .overflow _ => .arithmetic
  | .tooDeep _ => .resource

end Error
end Lisplet
