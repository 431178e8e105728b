import Lisplet.Evaluator
import Lisplet.Json.Written
/-!
# Configurations as JSON

A configuration is an object with the field `max_depth`, a natural number below `2 ^ 64`.  A missing field has its
standard value and other fields are passed over, whatever they hold.  An array of at most that one number does as well.

The text is read from left to right and the first fault decides, so a value of the wrong kind is reported although the
text behind it may be no JSON.
-/
namespace Lisplet
namespace Config

open Json (Lexeme Fault)

def maxDepthKey : String := "max_depth"

/-- What is wrong with a lexeme that stands where something else is wanted: its shape, if it starts a value. -/
def unwanted : Lexeme → Fault
  | .openArray => .wrongShape
  | .openObject => .wrongShape
  | .null => .wrongShape
  | .bool _ => .wrongShape
  | .number t => if t.value?.isSome then .wrongShape else .notJson
  | .string text => if text.isSome then .wrongShape else .notJson
  | _ => .notJson

def readLimit : List Lexeme → Except Fault (Nat × List Lexeme)
  | [] => .error .notJson
  | l :: rest =>
    match l with
    | .number t =>
      match t.value? with
      | some (.whole n) => if 0 ≤ n.val then .ok (n.val.toNat, rest) else .error .wrongShape
      | _ => .error (unwanted l)
    | _ => .error (unwanted l)

theorem length_readLimit {ls rest : List Lexeme} {n : Nat} (h : readLimit ls = .ok (n, rest)) :
    rest.length < ls.length := by
  unfold readLimit at h
  split at h
  · cases h
  · split at h
    · split at h
      · split at h
        · cases h; simp
        · cases h
      · cases h
    · cases h

/-- Reads a field behind its key; `limit` is the value that `max_depth` has so far. -/
def readField (limit : Option Nat) (key : String) (ls : List Lexeme) : Except Fault (Option Nat × List Lexeme) :=
  if key = maxDepthKey then
    if limit.isSome then .error .wrongShape
    else
      match ls with
      | .colon :: rest => (readLimit rest).map fun (n, rest) => (some n, rest)
      | _ => .error .notJson
  else
    match ls with
    | .colon :: rest =>
      match Json.read rest with
      | some (_, rest) => .ok (limit, rest)
      | none => .error .notJson
    | _ => .error .notJson

theorem length_readField {limit limit' : Option Nat} {key : String} {ls rest : List Lexeme}
    (h : readField limit key ls = .ok (limit', rest)) : rest.length < ls.length := by
  unfold readField at h
  split at h
  · split at h
    · cases h
    · split at h
      · next r =>
        cases hl : readLimit r with
        | error f => rw [hl] at h; cases h
        | ok p =>
          rw [hl] at h
          cases h
          have := length_readLimit hl
          simp only [List.length_cons]; omega
      · cases h
  · split at h
    · split at h
      · next hr => cases h; have := Json.length_read hr; simp only [List.length_cons]; omega
      · cases h
    · cases h

def readFields (limit : Option Nat) (ls : List Lexeme) : Except Fault (Option Nat × List Lexeme) :=
  match ls with
  | .string (some key) :: rest =>
    match h : readField limit key rest with
    | .error f => .error f
    | .ok (limit, .closeObject :: rest) => .ok (limit, rest)
    | .ok (limit, .comma :: rest) =>
      have := length_readField h
      readFields limit rest
    | .ok _ => .error .notJson
  | _ => .error .notJson
termination_by ls.length
decreasing_by simp only [List.length_cons] at *; omega

def readObject : List Lexeme → Except Fault (Option Nat × List Lexeme)
  | .closeObject :: rest => .ok (none, rest)
  | ls => readFields none ls

def readArray : List Lexeme → Except Fault (Option Nat × List Lexeme)
  | .closeArray :: rest => .ok (none, rest)
  | ls =>
    match readLimit ls with
    | .error f => .error f
    | .ok (n, .closeArray :: rest) => .ok (some n, rest)
    | .ok _ => .error .notJson

def readConfig : List Lexeme → Except Fault (Option Nat × List Lexeme)
  | .openObject :: rest => readObject rest
  | .openArray :: rest => readArray rest
  | l :: _ => .error (unwanted l)
  | [] => .error .notJson

def ofJsonText (text : String) : Except Fault Config :=
  match readConfig (Json.lex text) with
  | .error f => .error f
  | .ok (limit, []) => .ok ⟨limit.getD standard.maxDepth⟩
  | .ok _ => .error .notJson

def toJsonText (c : Config) : String :=
  "\x7b\"" ++ maxDepthKey ++ "\":" ++ Text.ofNat c.maxDepth ++ "\x7d"

end Config
end Lisplet
