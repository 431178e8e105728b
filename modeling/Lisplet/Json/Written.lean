import Lisplet.Json.Lexeme
/-!
# JSON as it is written

The tree of a JSON text before its numbers and strings are looked at.  Lexemes are read into it with a stack of the
containers that are open, one lexeme a step, so that nesting costs no call stack and has no limit.  `Written.value?`
turns the tree into a value; there it counts how deeply containers are nested, whether numbers are too large and whether
strings have a text.
-/
namespace Lisplet
namespace Json

inductive Written where
  | null
  | bool (b : Bool)
  | number (t : NumberText)
  | string (text : Option String)
  | array (items : List Written)
  | object (fields : List (Option String × Written))

/-- A container that is open, its parts so far with the last one first. -/
inductive Container where
  | array (reversed : List Written)
  | object (reversed : List (Option String × Written))
  | field (reversed : List (Option String × Written)) (key : Option String)

inductive Expected where
  | value
  | valueOrClose
  | key
  | keyOrClose
  | colon
  | commaOrClose
  deriving DecidableEq

inductive Reading where
  | partway (expected : Expected) (containers : List Container)
  | complete (w : Written)

namespace Container

def place (w : Written) : List Container → Option Reading
  | [] => some (.complete w)
  | .array reversed :: outer => some (.partway .commaOrClose (.array (w :: reversed) :: outer))
  | .field reversed key :: outer => some (.partway .commaOrClose (.object ((key, w) :: reversed) :: outer))
  | .object _ :: _ => none

def closeArray : List Container → Option Reading
  | .array reversed :: outer => place (.array reversed.reverse) outer
  | _ => none

def closeObject : List Container → Option Reading
  | .object reversed :: outer => place (.object reversed.reverse) outer
  | _ => none

def startValue (containers : List Container) : Lexeme → Option Reading
  | .null => place .null containers
  | .bool b => place (.bool b) containers
  | .number t => place (.number t) containers
  | .string text => place (.string text) containers
  | .openArray => some (.partway .valueOrClose (.array [] :: containers))
  | .openObject => some (.partway .keyOrClose (.object [] :: containers))
  | _ => none

def startField (key : Option String) : List Container → Option Reading
  | .object reversed :: outer => some (.partway .colon (.field reversed key :: outer))
  | _ => none

def afterComma (containers : List Container) : Option Reading :=
  match containers with
  | .array _ :: _ => some (.partway .value containers)
  | .object _ :: _ => some (.partway .key containers)
  | _ => none

end Container

def readStep (expected : Expected) (containers : List Container) (l : Lexeme) : Option Reading :=
  match expected, l with
  | .value, l => Container.startValue containers l
  | .valueOrClose, .closeArray => Container.closeArray containers
  | .valueOrClose, l => Container.startValue containers l
  | .key, .string key => Container.startField key containers
  | .keyOrClose, .string key => Container.startField key containers
  | .keyOrClose, .closeObject => Container.closeObject containers
  | .colon, .colon => some (.partway .value containers)
  | .commaOrClose, .comma => Container.afterComma containers
  | .commaOrClose, .closeArray => Container.closeArray containers
  | .commaOrClose, .closeObject => Container.closeObject containers
  | _, _ => none

def readFrom : Expected → List Container → List Lexeme → Option (Written × List Lexeme)
  | _, _, [] => none
  | expected, containers, l :: rest =>
    match readStep expected containers l with
    | none => none
    | some (.complete w) => some (w, rest)
    | some (.partway expected containers) => readFrom expected containers rest

def read (ls : List Lexeme) : Option (Written × List Lexeme) :=
  readFrom .value [] ls

theorem length_readFrom {expected : Expected} {containers : List Container} {ls rest : List Lexeme} {w : Written}
    (h : readFrom expected containers ls = some (w, rest)) : rest.length < ls.length := by
  fun_induction readFrom expected containers ls with
  | case1 => cases h
  | case2 => cases h
  | case3 => cases h; simp
  | case4 _ _ _ _ _ _ _ ih => have := ih h; simp only [List.length_cons]; omega

theorem length_read {ls rest : List Lexeme} {w : Written} (h : read ls = some (w, rest)) : rest.length < ls.length :=
  length_readFrom h

/-! ## Values -/

def maxNesting : Nat := 127

mutual

/-- The value of a written tree in which at most `room` containers are nested. -/
def Written.value? : Nat → Written → Option Json
  | _, .null => some .null
  | _, .bool b => some (.bool b)
  | _, .number t => t.value?
  | _, .string text => text.map .string
  | 0, .array _ => none
  | room + 1, .array items => (itemValues? room items).map .array
  | 0, .object _ => none
  | room + 1, .object fields => (fieldValues? room fields).map .object

def itemValues? : Nat → List Written → Option (List Json)
  | _, [] => some []
  | room, w :: rest => do
    let v ← w.value? room
    let vs ← itemValues? room rest
    return v :: vs

def fieldValues? : Nat → List (Option String × Written) → Option (List (String × Json))
  | _, [] => some []
  | room, (key, w) :: rest => do
    let key ← key
    let v ← w.value? room
    let vs ← fieldValues? room rest
    return (key, v) :: vs

end

def parse? (text : String) : Option (Json × List Lexeme) := do
  let (w, rest) ← read (lex text)
  let v ← w.value? maxNesting
  return (v, rest)

end Json
end Lisplet
