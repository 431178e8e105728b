import Lisplet.Json.Basic
/-!
# JSON lexemes

A JSON text as a sequence of lexemes.  The first place where no lexeme can be read is itself a lexeme, the last one
(`fault`), so that a reader that stops before it never learns of it.

A string is kept without a text if an escape in it names half of a surrogate pair without the other half: it still is a
string where its text does not matter.
-/
namespace Lisplet
namespace Json

inductive Lexeme where
  | openArray
  | closeArray
  | openObject
  | closeObject
  | comma
  | colon
  | null
  | bool (b : Bool)
  | number (t : NumberText)
  | string (text : Option String)
  | fault

/-! ## Strings -/

/-- A string that is being read: its characters, the last one first, a first half of a surrogate pair whose other half
must follow, and whether all halves so far have found their partner. -/
structure StringScan where
  reversed : List Char
  half : Option Nat
  paired : Bool

namespace StringScan

def start : StringScan := ⟨[], none, true⟩

def add (s : StringScan) (c : Char) : StringScan :=
  ⟨c :: s.reversed, none, s.paired && s.half.isNone⟩

def addUnit (s : StringScan) (unit : Nat) : StringScan :=
  if 0xDC00 ≤ unit ∧ unit < 0xE000 then
    match s.half with
    | some high => ⟨Char.ofNat (0x10000 + (high - 0xD800) * 0x400 + (unit - 0xDC00)) :: s.reversed, none, s.paired⟩
    | none => { s with paired := false }
  else if 0xD800 ≤ unit ∧ unit < 0xDC00 then
    ⟨s.reversed, some unit, s.paired && s.half.isNone⟩
  else
    s.add (Char.ofNat unit)

def text? (s : StringScan) : Option String :=
  if s.paired && s.half.isNone then some (String.ofList s.reversed.reverse) else none

end StringScan

def hexValue? (c : Char) : Option Nat :=
  if '0' ≤ c ∧ c ≤ '9' then some (c.toNat - '0'.toNat)
  else if 'a' ≤ c ∧ c ≤ 'f' then some (c.toNat - 'a'.toNat + 10)
  else if 'A' ≤ c ∧ c ≤ 'F' then some (c.toNat - 'A'.toNat + 10)
  else none

def hexUnit? (a b c d : Char) : Option Nat := do
  return (((← hexValue? a) * 16 + (← hexValue? b)) * 16 + (← hexValue? c)) * 16 + (← hexValue? d)

def escape? : Char → Option Char
  | '"' => some '"'
  | '\\' => some '\\'
  | '/' => some '/'
  | 'b' => some '\x08'
  | 'f' => some '\x0c'
  | 'n' => some '\n'
  | 'r' => some '\r'
  | 't' => some '\t'
  | _ => none

/-- Reads a string to its closing quote; gives it with the characters behind the quote.  There is none where the text ends
before the quote, an escape is unknown, or a control character stands for itself. -/
def stringBody : StringScan → List Char → Option (Option String × List Char)
  | _, [] => none
  | s, '"' :: rest => some (s.text?, rest)
  | s, '\\' :: 'u' :: a :: b :: c :: d :: rest =>
    match hexUnit? a b c d with
    | some unit => stringBody (s.addUnit unit) rest
    | none => none
  | s, '\\' :: c :: rest =>
    match escape? c with
    | some c => stringBody (s.add c) rest
    | none => none
  | s, c :: rest => if c = '\\' ∨ c.toNat < 0x20 then none else stringBody (s.add c) rest

/-! ## Numbers -/

def digitRun (cs : List Char) : Option (List Char × List Char) :=
  match cs.takeWhile Text.isDigit with
  | [] => none
  | ds => some (ds, cs.dropWhile Text.isDigit)

/-- The digits before the point: no zero stands before another digit. -/
def wholeRun (cs : List Char) : Option (List Char × List Char) :=
  match digitRun cs with
  | some ('0' :: _ :: _, _) => none
  | run => run

def fractionRun : List Char → Option (Option (List Char) × List Char)
  | '.' :: rest => (digitRun rest).map fun run => (some run.1, run.2)
  | cs => some (none, cs)

def exponentSign : List Char → Bool × List Char
  | '+' :: rest => (false, rest)
  | '-' :: rest => (true, rest)
  | cs => (false, cs)

def exponentRun (cs : List Char) : Option (Option (Bool × List Char) × List Char) :=
  match cs with
  | c :: rest =>
    if c = 'e' ∨ c = 'E' then
      let signed := exponentSign rest
      (digitRun signed.2).map fun run => (some (signed.1, run.1), run.2)
    else some (none, cs)
  | [] => some (none, [])

def unsignedBody (negative : Bool) (cs : List Char) : Option (NumberText × List Char) := do
  let whole ← wholeRun cs
  let fraction ← fractionRun whole.2
  let exponent ← exponentRun fraction.2
  return (⟨negative, whole.1, fraction.1, exponent.1⟩, exponent.2)

def numberBody : List Char → Option (NumberText × List Char)
  | '-' :: rest => unsignedBody true rest
  | cs => unsignedBody false cs

/-! ## Lexemes -/

/-- The lexeme at the start of a text that does not start with a blank, and what follows it.  Nothing follows a fault. -/
def lexeme : List Char → Lexeme × List Char
  | '[' :: rest => (.openArray, rest)
  | ']' :: rest => (.closeArray, rest)
  | '\x7b' :: rest => (.openObject, rest)
  | '\x7d' :: rest => (.closeObject, rest)
  | ',' :: rest => (.comma, rest)
  | ':' :: rest => (.colon, rest)
  | 'n' :: 'u' :: 'l' :: 'l' :: rest => (.null, rest)
  | 't' :: 'r' :: 'u' :: 'e' :: rest => (.bool true, rest)
  | 'f' :: 'a' :: 'l' :: 's' :: 'e' :: rest => (.bool false, rest)
  | '"' :: rest =>
    match stringBody .start rest with
    | some (text, rest) => (.string text, rest)
    | none => (.fault, [])
  | cs =>
    match numberBody cs with
    | some (t, rest) => (.number t, rest)
    | none => (.fault, [])

def isBlank (c : Char) : Bool :=
  c = ' ' ∨ c = '\n' ∨ c = '\t' ∨ c = '\r'

/-! ### A lexeme takes characters -/

theorem length_dropWhile_le (p : Char → Bool) : ∀ cs : List Char, (cs.dropWhile p).length ≤ cs.length
  | [] => Nat.le_refl _
  | c :: cs => by
    rw [List.dropWhile_cons]
    split
    · exact Nat.le_succ_of_le (length_dropWhile_le p cs)
    · exact Nat.le_refl _

theorem length_digitRun {cs ds rest : List Char} (h : digitRun cs = some (ds, rest)) : rest.length < cs.length := by
  unfold digitRun at h
  split at h
  · cases h
  · next hne =>
    cases h
    cases cs with
    | nil => exact absurd rfl hne
    | cons c cs =>
      have hc : Text.isDigit c = true := by
        rw [List.takeWhile_cons] at hne
        split at hne
        · assumption
        · exact absurd rfl hne
      rw [List.dropWhile_cons, if_pos hc, List.length_cons]
      exact Nat.lt_succ_of_le (length_dropWhile_le _ cs)

theorem length_wholeRun {cs ds rest : List Char} (h : wholeRun cs = some (ds, rest)) : rest.length < cs.length := by
  unfold wholeRun at h
  split at h
  · cases h
  · exact length_digitRun h

theorem length_fractionRun {cs rest : List Char} {f : Option (List Char)} (h : fractionRun cs = some (f, rest)) :
    rest.length ≤ cs.length := by
  unfold fractionRun at h
  split at h
  · obtain ⟨⟨ds, r⟩, hr, he⟩ := Option.map_eq_some_iff.1 h
    cases he
    have := length_digitRun hr
    simp only [List.length_cons]; omega
  · cases h; exact Nat.le_refl _

theorem length_exponentSign (cs : List Char) : (exponentSign cs).2.length ≤ cs.length := by
  unfold exponentSign
  split <;> simp

theorem length_exponentRun {cs rest : List Char} {e : Option (Bool × List Char)}
    (h : exponentRun cs = some (e, rest)) : rest.length ≤ cs.length := by
  unfold exponentRun at h
  split at h
  · next c r =>
    split at h
    · obtain ⟨⟨ds, r'⟩, hr, he⟩ := Option.map_eq_some_iff.1 h
      cases he
      have := length_digitRun hr
      have := length_exponentSign r
      simp only [List.length_cons]; omega
    · cases h; exact Nat.le_refl _
  · cases h; exact Nat.le_refl _

theorem length_unsignedBody {negative : Bool} {cs rest : List Char} {t : NumberText}
    (h : unsignedBody negative cs = some (t, rest)) : rest.length < cs.length := by
  unfold unsignedBody at h
  simp only [Option.bind_eq_bind, Option.bind_eq_some_iff, Option.pure_def, Option.some.injEq, Prod.mk.injEq] at h
  obtain ⟨⟨w, c₁⟩, hw, ⟨f, c₂⟩, hf, ⟨e, c₃⟩, he, -, rfl⟩ := h
  exact Nat.lt_of_le_of_lt (Nat.le_trans (length_exponentRun he) (length_fractionRun hf)) (length_wholeRun hw)

theorem length_numberBody {cs rest : List Char} {t : NumberText} (h : numberBody cs = some (t, rest)) :
    rest.length < cs.length := by
  unfold numberBody at h
  split at h
  · have := length_unsignedBody h
    simp only [List.length_cons]; omega
  · exact length_unsignedBody h

theorem length_stringBody {s : StringScan} {cs rest : List Char} {t : Option String}
    (h : stringBody s cs = some (t, rest)) : rest.length < cs.length := by
  fun_induction stringBody s cs with
  | case1 => cases h
  | case2 s r => cases h; simp
  | case3 s a b c d r unit hu ih => have := ih h; simp only [List.length_cons]; omega
  | case4 => cases h
  | case5 s c r _ c' hc ih => have := ih h; simp only [List.length_cons]; omega
  | case6 => cases h
  | case7 => cases h
  | case8 s c r _ _ _ _ ih => have := ih h; simp only [List.length_cons]; omega

theorem length_lexeme (c : Char) (cs : List Char) : (lexeme (c :: cs)).2.length < (c :: cs).length := by
  unfold lexeme
  split
  case h_10 rest _ =>
    split
    · next h => have := length_stringBody h; simp_all only [List.cons.injEq, List.length_cons]; omega
    · simp
  case h_11 =>
    split
    · next h => exact length_numberBody h
    · simp
  all_goals simp_all only [List.cons.injEq, List.length_cons]; omega

def lexFrom (found : List Lexeme) (cs : List Char) : List Lexeme :=
  match cs with
  | [] => found.reverse
  | c :: rest =>
    if isBlank c then lexFrom found rest
    else lexFrom ((lexeme (c :: rest)).1 :: found) (lexeme (c :: rest)).2
termination_by cs.length
decreasing_by
  · exact Nat.lt_succ_self _
  · exact length_lexeme c rest

def lex (text : String) : List Lexeme :=
  lexFrom [] text.toList

end Json
end Lisplet
