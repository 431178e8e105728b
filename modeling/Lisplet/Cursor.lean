import Lisplet.Error
import Lisplet.Literal
/-!
# Forms from tokens

Tokens are read into forms with a stack of the lists that are open.  One step takes one token: an opening parenthesis
starts a list, an atom joins the innermost open list, a closing parenthesis ends that list and lets it join the one
around it.  What is completed while no list is open is a form.

An empty list is allowed in one place, as the second item of a list that starts with `lambda`; whether it is allowed is
settled when its parenthesis opens.

A `Cursor` walks over a sequence of tokens and gives out one form or all the forms that are left.  After an error it
stands behind the token at which the error was seen.
-/
namespace Lisplet

/-- A list that is open: where it starts, whether it may be empty, and its items, the last one first. -/
structure OpenList where
  position : Position
  mayBeEmpty : Bool
  reversed : List Expr

namespace OpenList

def atParameters (l : OpenList) : Bool :=
  match l.reversed with
  | [.keyword .lambda] => true
  | _ => false

def toExpr (l : OpenList) : Expr :=
  .list l.reversed.reverse

end OpenList

/-- The lists that are open, the innermost one first. -/
abbrev OpenLists := List OpenList

inductive Progress where
  | partway (lists : OpenLists)
  | form (e : Expr)

namespace OpenLists

/-- A complete item joins the innermost open list; outside all lists it is a form. -/
def place (e : Expr) : OpenLists → Progress
  | [] => .form e
  | l :: outer => .partway ({ l with reversed := e :: l.reversed } :: outer)

def mayOpenEmpty : OpenLists → Bool
  | [] => false
  | l :: _ => l.atParameters

def openAt (p : Position) (lists : OpenLists) : OpenLists :=
  ⟨p, lists.mayOpenEmpty, []⟩ :: lists

def closeAt (p : Position) : OpenLists → Except Malformed Progress
  | [] => .error (.strayClose p)
  | l :: outer =>
    if l.reversed.isEmpty && !l.mayBeEmpty then .error (.emptyForm l.position) else .ok (place l.toExpr outer)

end OpenLists

def Token.toAtom (t : Token) : Except Malformed Expr :=
  match Keyword.ofSpelling? t.lexeme with
  | some k => .ok (.keyword k)
  | none =>
    match Literal.ofLexeme? t.lexeme with
    | none => .ok (.symbol t.lexeme)
    | some literal =>
      match literal.number?, literal with
      | some n, _ => .ok (.num n)
      | none, .integer .. => .error (.integerRange t.lexeme t.position)
      | none, .decimal .. => .error (.decimalRange t.lexeme t.position)

namespace OpenLists

def step (lists : OpenLists) (t : Token) : Except Malformed Progress :=
  match t.shape with
  | .opening => .ok (.partway (lists.openAt t.position))
  | .closing => lists.closeAt t.position
  | .atom => t.toAtom.map (place · lists)

def atEnd : OpenLists → Malformed
  | [] => .noForm
  | l :: _ => .unclosed l.position

def readForm : OpenLists → List Token → Except Malformed Expr × List Token
  | lists, [] => (.error lists.atEnd, [])
  | lists, t :: rest =>
    match lists.step t with
    | .error cause => (.error cause, rest)
    | .ok (.form e) => (.ok e, rest)
    | .ok (.partway lists') => readForm lists' rest

/-- Reads forms until the tokens end; `reversed` holds those already complete, the last one first. -/
def readForms : OpenLists → List Expr → List Token → Except Malformed (List Expr) × List Token
  | [], reversed, [] => (.ok reversed.reverse, [])
  | l :: outer, _, [] => (.error (atEnd (l :: outer)), [])
  | lists, reversed, t :: rest =>
    match lists.step t with
    | .error cause => (.error cause, rest)
    | .ok (.form e) => readForms [] (e :: reversed) rest
    | .ok (.partway lists') => readForms lists' reversed rest

end OpenLists

structure Cursor where
  tokens : List Token
  rest : List Token

namespace Cursor

def ofTokens (tokens : List Token) : Cursor :=
  ⟨tokens, tokens⟩

def position (c : Cursor) : Nat :=
  c.tokens.length - c.rest.length

def isAtEnd (c : Cursor) : Bool :=
  c.rest.isEmpty

def form (c : Cursor) : Except Error Expr × Cursor :=
  let (result, rest) := OpenLists.readForm [] c.rest
  (result.mapError .malformed, { c with rest })

def forms (c : Cursor) : Except Error (List Expr) × Cursor :=
  let (result, rest) := OpenLists.readForms [] [] c.rest
  (result.mapError .malformed, { c with rest })

end Cursor

def firstForm (tokens : List Token) : Except Error Expr :=
  (Cursor.ofTokens tokens).form.1

def parse (source : String) : Except Error (List Expr) :=
  (Cursor.ofTokens (tokenize source)).forms.1

end Lisplet
