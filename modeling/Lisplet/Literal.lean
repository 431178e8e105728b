import Lisplet.Number
/-!
# Number literals

The two spellings of a number in source text.  An integer literal is an optional sign and one or more ASCII digits; a
decimal literal is an optional sign and ASCII digits around exactly one point, with a digit on at least one side.  No
other atom is a number.  A literal whose value does not fit its kind has no number (`number?`).
-/
namespace Lisplet

inductive Literal where
  | integer (negative : Bool) (digits : List Char)
  | decimal (negative : Bool) (whole fraction : List Char)

namespace Literal

/-- Takes one leading sign off; a text without one is not negative. -/
def splitSign : List Char → Bool × List Char
  | '-' :: rest => (true, rest)
  | '+' :: rest => (false, rest)
  | cs => (false, cs)

def ofUnsigned? (negative : Bool) (body : List Char) : Option Literal :=
  let whole := body.takeWhile Text.isDigit
  match body.dropWhile Text.isDigit with
  | [] => if whole.isEmpty then none else some (.integer negative whole)
  | '.' :: fraction =>
    if fraction.all Text.isDigit && !(whole.isEmpty && fraction.isEmpty) then some (.decimal negative whole fraction)
    else none
  | _ => none

def ofLexeme? (lexeme : String) : Option Literal :=
  let (negative, body) := splitSign lexeme.toList
  ofUnsigned? negative body

def signed (negative : Bool) (magnitude : Nat) : Int :=
  if negative then -(magnitude : Int) else magnitude

/-- The number that the literal stands for: an integer exactly, a decimal rounded once.  There is none where the integer
leaves its range or the decimal rounds to an infinity. -/
def number? : Literal → Option Number
  | .integer negative digits => (Integer.ofInt? (signed negative (Text.ofDigits digits))).map .int
  | .decimal negative whole fraction =>
    let x := Binary64.round negative (Text.ofDigits (whole ++ fraction)) (10 ^ fraction.length)
    if x.isFinite then some (.float x) else none

end Literal
end Lisplet
