import Lisplet.Text
/-!
# Tokens

Source text as a sequence of tokens, each with the place where it starts.  A parenthesis is a token by itself; every
other token, an atom, is a longest run of characters that are neither parentheses nor blank.  Any text has tokens:
`tokenize` does not fail.

The scan is one fold over the characters.  Its state keeps the place of the next character, the atom that is being read,
and the tokens found so far.
-/
namespace Lisplet

/-- A place in source text; lines and columns count from one, and columns count characters. -/
structure Position where
  line : Nat
  column : Nat
  deriving DecidableEq

namespace Position

def start : Position := ⟨1, 1⟩

/-- The place of the character after `c`.  Only a line feed starts a line. -/
def advance (p : Position) (c : Char) : Position :=
  if c = '\n' then ⟨p.line + 1, 1⟩ else ⟨p.line, p.column + 1⟩

end Position

structure Token where
  lexeme : String
  position : Position
  deriving DecidableEq

inductive Token.Shape where
  | opening
  | closing
  | atom
  deriving DecidableEq

def Token.shape (t : Token) : Token.Shape :=
  if t.lexeme = "(" then .opening else if t.lexeme = ")" then .closing else .atom

/-- An atom that is being read: where it starts, and its characters, the last one first. -/
structure PendingAtom where
  position : Position
  reversed : List Char

structure Scan where
  position : Position
  pending : Option PendingAtom
  /-- The tokens found, the last one first. -/
  found : List Token

namespace Scan

def start : Scan := ⟨.start, none, []⟩

def finish (s : Scan) : Scan :=
  match s.pending with
  | none => s
  | some atom => { s with pending := none, found := ⟨String.ofList atom.reversed.reverse, atom.position⟩ :: s.found }

def extend (s : Scan) (c : Char) : Scan :=
  match s.pending with
  | none => { s with pending := some ⟨s.position, [c]⟩ }
  | some atom => { s with pending := some { atom with reversed := c :: atom.reversed } }

def emit (s : Scan) (c : Char) : Scan :=
  { s with found := ⟨String.ofList [c], s.position⟩ :: s.found }

def advance (s : Scan) (c : Char) : Scan :=
  { s with position := s.position.advance c }

def step (s : Scan) (c : Char) : Scan :=
  if c = '(' ∨ c = ')' then (s.finish.emit c).advance c
  else if Text.isBlank c then s.finish.advance c
  else (s.extend c).advance c

def tokens (s : Scan) : List Token :=
  s.finish.found.reverse

end Scan

def tokenize (source : String) : List Token :=
  (source.toList.foldl Scan.step .start).tokens

end Lisplet
