import Lisplet.Expr.Basic
import Lisplet.Json.Written
/-!
# Expressions as JSON

Numbers are numbers, symbols and keywords are strings, lists are arrays.  A string that spells a keyword is read as the
keyword, which may also be written as an object with the keyword as its only key and null under it.  An integer beyond
the range of integers is read as a float.  Nothing else is an expression.
-/
namespace Lisplet

def Json.ofInteger (n : Integer) : Json :=
  .whole ⟨n.toInt, by have := Int64.le_toInt n; have := Int64.toInt_lt n; omega⟩

namespace Number

/-- A float that is not finite has no JSON number and is written as null. -/
def toJson : Number → Json
  | .int n => .ofInteger n
  | .float (.finite x) => .float x
  | .float _ => .null

def ofWhole (n : Json.Whole) : Number :=
  match Integer.ofInt? n.val with
  | some i => .int i
  | none => .float (.ofInt n.val)

end Number

namespace Expr

mutual

def toJson : Expr → Json
  | .num n => n.toJson
  | .keyword k => .string k.spelling
  | .symbol name => .string name
  | .list items => .array (toJsonItems items)

def toJsonItems : List Expr → List Json
  | [] => []
  | e :: rest => e.toJson :: toJsonItems rest

end

def ofString (s : String) : Expr :=
  match Keyword.ofSpelling? s with
  | some k => .keyword k
  | none => .symbol s

def keywordOfFields? : List (String × Json) → Option Keyword
  | [(key, .null)] => Keyword.ofSpelling? key
  | _ => none

mutual

def ofJson? : Json → Option Expr
  | .null => none
  | .bool _ => none
  | .whole n => some (.num (.ofWhole n))
  | .float x => some (.num (.float (.finite x)))
  | .string s => some (ofString s)
  | .array items => (ofJsonItems? items).map .list
  | .object fields => (keywordOfFields? fields).map .keyword

def ofJsonItems? : List Json → Option (List Expr)
  | [] => some []
  | j :: rest => do
    let e ← ofJson? j
    let es ← ofJsonItems? rest
    return e :: es

end

/-- **Reads an expression from a JSON text.**  The shape of the value is looked at before what follows it. -/
def ofJsonText (text : String) : Except Json.Fault Expr :=
  match Json.parse? text with
  | none => .error .notJson
  | some (j, rest) =>
    match ofJson? j with
    | none => .error .wrongShape
    | some e => if rest.isEmpty then .ok e else .error .notJson

end Expr
end Lisplet
