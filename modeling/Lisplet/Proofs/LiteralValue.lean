import Lisplet.Proofs.Binary64.Nearest
import Lisplet.Proofs.Locality
/-!
# The value of a literal

A literal denotes a rational number: its digits count by their places, those behind a point as parts of one
(`Literal.value`).  Reading is exact.  An integer literal is read as that number or, out of the range of integers, not
at all; a decimal literal is read as the nearest binary64 number or, from the midpoint beyond the largest one on, not at
all; and no text that spells a literal is read as a symbol.
-/
namespace Lisplet

open Binary64 (withSign)

/-! ## Digits by their places -/

namespace Text

def placeValue : List Char → Nat
  | [] => 0
  | c :: cs => digitValue c * 10 ^ cs.length + placeValue cs

theorem readDigits_eq_placeValue : ∀ (cs : List Char) (start : Nat),
    readDigits start cs = start * 10 ^ cs.length + placeValue cs
  | [], start => by simp [readDigits, placeValue]
  | c :: cs, start => by
    rw [readDigits_cons, readDigits_eq_placeValue cs, placeValue, List.length_cons, Nat.pow_succ]
    ring

theorem ofDigits_eq_placeValue (cs : List Char) : ofDigits cs = placeValue cs := by
  rw [ofDigits, readDigits_eq_placeValue, Nat.zero_mul, Nat.zero_add]

end Text

/-! ## Values -/

namespace Literal

def value : Literal → ℚ
  | .integer negative digits => withSign negative (Text.placeValue digits)
  | .decimal negative whole fraction =>
    withSign negative (Text.placeValue whole + Text.placeValue fraction / 10 ^ fraction.length)

theorem value_integer (negative : Bool) (digits : List Char) :
    (integer negative digits).value = (signed negative (Text.ofDigits digits) : Int) := by
  rw [value, Text.ofDigits_eq_placeValue]
  cases negative with
  | false => simp [withSign, signed]
  | true => simp [withSign, signed]

theorem value_decimal (negative : Bool) (whole fraction : List Char) :
    (decimal negative whole fraction).value =
      withSign negative (Text.ofDigits (whole ++ fraction) / (10 ^ fraction.length : Nat)) := by
  have hpow : (10 : ℚ) ^ fraction.length ≠ 0 := by positivity
  rw [value, Text.ofDigits, Text.readDigits_append, Text.readDigits_eq_placeValue fraction, ← Text.ofDigits,
    Text.ofDigits_eq_placeValue]
  push_cast
  rw [add_div, mul_div_cancel_right₀ _ hpow]

end Literal

/-! ## Reading -/

namespace Token

open Literal (Spells)

variable {t : Token} {negative : Bool} {digits whole fraction : List Char}

/-- **The atom is read as the integer `v`**, or refused if no integer is that. -/
structure ReadsInteger (t : Token) (v : ℚ) : Prop where
  exact : -2 ^ 63 ≤ v → v ≤ 2 ^ 63 - 1 → ∃ n : Integer, (n.toInt : ℚ) = v ∧ t.toAtom = .ok (.num (.int n))
  refused : v < -2 ^ 63 ∨ 2 ^ 63 - 1 < v → t.toAtom = .error (.integerRange t.lexeme t.position)

/-- **The atom is read as the binary64 number nearest to `v`**, or refused if that is beyond the format. -/
structure ReadsDecimal (t : Token) (negative : Bool) (v : ℚ) : Prop where
  nearest : |v| < 2 ^ 1024 - 2 ^ 970 → ∃ x : Binary64.Finite, x.negative = negative ∧ Binary64.IsNearest v x ∧
    t.toAtom = .ok (.num (.float (.finite x)))
  refused : 2 ^ 1024 - 2 ^ 970 ≤ |v| → t.toAtom = .error (.decimalRange t.lexeme t.position)

theorem toAtom_of_integer_none (hs : Spells t.lexeme.toList (.integer negative digits))
    (hn : (Literal.integer negative digits).number? = none) :
    t.toAtom = .error (.integerRange t.lexeme t.position) := by
  rw [toAtom, Literal.ofSpelling?_of_spells hs, Literal.ofLexeme?_of_spells hs]
  simp only [hn]

theorem toAtom_of_decimal_none (hs : Spells t.lexeme.toList (.decimal negative whole fraction))
    (hn : (Literal.decimal negative whole fraction).number? = none) :
    t.toAtom = .error (.decimalRange t.lexeme t.position) := by
  rw [toAtom, Literal.ofSpelling?_of_spells hs, Literal.ofLexeme?_of_spells hs]
  simp only [hn]

theorem readsInteger_of_spells (hs : Spells t.lexeme.toList (.integer negative digits)) :
    t.ReadsInteger (Literal.integer negative digits).value := by
  rw [Literal.value_integer]
  refine ⟨fun hlo hhi => ?_, fun hout => toAtom_of_integer_none hs ?_⟩
  · have hlo' : -2 ^ 63 ≤ Literal.signed negative (Text.ofDigits digits) := by exact_mod_cast hlo
    have hhi' : Literal.signed negative (Text.ofDigits digits) ≤ 2 ^ 63 - 1 := by exact_mod_cast hhi
    have hn := Int64.toInt_ofInt_of_le hlo' (by omega)
    exact ⟨_, congrArg Int.cast hn, toAtom_of_denotes (.integer hs hn)⟩
  · have hout' : Literal.signed negative (Text.ofDigits digits) < -2 ^ 63 ∨
        2 ^ 63 - 1 < Literal.signed negative (Text.ofDigits digits) := by exact_mod_cast hout
    rw [Literal.number?, Option.map_eq_none_iff, Integer.ofInt?_eq_none]
    omega

theorem readsDecimal_of_spells (hs : Spells t.lexeme.toList (.decimal negative whole fraction)) :
    t.ReadsDecimal negative (Literal.decimal negative whole fraction).value := by
  have hden : 0 < 10 ^ fraction.length := Nat.pow_pos (by decide)
  rw [Literal.value_decimal]
  refine ⟨fun hin => ?_, fun hout => toAtom_of_decimal_none hs ?_⟩
  · rw [Binary64.abs_withSign _ (by positivity)] at hin
    obtain ⟨x, hx, hsign, hnear⟩ := Binary64.exists_round_eq_finite negative hden hin
    exact ⟨x, hsign, hnear, toAtom_of_denotes (.decimal hs hx)⟩
  · rw [Binary64.abs_withSign _ (by positivity)] at hout
    rw [Literal.number?, Binary64.round_of_le negative hden hout]
    rfl

/-- **Literals are read exactly.**  Wherever an atom stands and whatever follows it, an integer literal is the integer
that it denotes, if there is one; a decimal literal is the binary64 number nearest to what it denotes, short of the
midpoint beyond the largest one; and any other text is the symbol of that name. -/
theorem toAtom_exact (ho : t.lexeme ≠ "(") (hc : t.lexeme ≠ ")") (hk : ∀ k : Keyword, t.lexeme ≠ k.spelling) :
    (∀ lists : OpenLists, lists.step t = t.toAtom.map (OpenLists.place · lists)) ∧
    (∀ rest, (Cursor.ofTokens (t :: rest)).form = (t.toAtom.mapError .malformed, ⟨t :: rest, rest⟩)) ∧
    (∀ negative digits, Spells t.lexeme.toList (.integer negative digits) →
      t.ReadsInteger (Literal.integer negative digits).value) ∧
    (∀ negative whole fraction, Spells t.lexeme.toList (.decimal negative whole fraction) →
      t.ReadsDecimal negative (Literal.decimal negative whole fraction).value) ∧
    ((∀ l, ¬ Spells t.lexeme.toList l) → t.toAtom = .ok (.symbol t.lexeme)) := by
  have hstep : ∀ lists : OpenLists, lists.step t = t.toAtom.map (OpenLists.place · lists) := by
    intro lists
    rw [OpenLists.step, shape_of_atom ho hc]
  refine ⟨hstep, fun rest => ?_, fun _ _ hs => readsInteger_of_spells hs, fun _ _ _ hs => readsDecimal_of_spells hs,
    fun hl => toAtom_of_denotes (.symbol ho hc hk hl)⟩
  rw [Cursor.form_eq]
  simp only [Cursor.ofTokens, OpenLists.readForm, hstep]
  cases t.toAtom with
  | error cause => rfl
  | ok e => rfl

/-- The least integer behind a zero, a decimal halfway between two numbers of the format, and a sign alone. -/
theorem toAtom_exact_edges :
    (∃ n : Integer, (n.toInt : ℚ) = -2 ^ 63 ∧ toAtom ⟨"-09223372036854775808", .start⟩ = .ok (.num (.int n))) ∧
    (∃ x : Binary64.Finite, x.negative = false ∧ Binary64.IsNearest (2 ^ 53 + 1) x ∧
      toAtom ⟨"9007199254740993.0", .start⟩ = .ok (.num (.float (.finite x)))) ∧
    toAtom ⟨"+", .start⟩ = .ok (.symbol "+") := by
  have hleast : Spells (Token.mk "-09223372036854775808" .start).lexeme.toList
      (.integer true "09223372036854775808".toList) := Literal.spells_of_ofLexeme? rfl
  have hhalf : Spells (Token.mk "9007199254740993.0" .start).lexeme.toList
      (.decimal false "9007199254740993".toList ['0']) := Literal.spells_of_ofLexeme? rfl
  have hleastValue : (Literal.integer true "09223372036854775808".toList).value = -2 ^ 63 := by
    have hd : Text.ofDigits "09223372036854775808".toList = 2 ^ 63 := by decide
    rw [Literal.value_integer, hd]
    norm_num [Literal.signed]
  have hhalfValue : (Literal.decimal false "9007199254740993".toList ['0']).value = 2 ^ 53 + 1 := by
    have hd : Text.ofDigits ("9007199254740993".toList ++ ['0']) = (2 ^ 53 + 1) * 10 := by decide
    rw [Literal.value_decimal, hd]
    norm_num [withSign]
  have hbound : |(2 : ℚ) ^ 53 + 1| < 2 ^ 1024 - 2 ^ 970 := by
    have hpow : (2 : ℚ) ≤ 2 ^ (971 : Int) := by
      calc (2 : ℚ) = 2 ^ (1 : Int) := (zpow_one 2).symm
        _ ≤ 2 ^ (971 : Int) := zpow_le_zpow_right₀ one_le_two (by decide)
    rw [abs_of_pos (by norm_num), Binary64.midpoint_eq]
    generalize (2 : ℚ) ^ (971 : Int) = u at hpow
    linarith
  refine ⟨?_, ?_, ?_⟩
  · have h := (toAtom_exact (t := ⟨"-09223372036854775808", .start⟩) (by decide) (by decide)
      (fun k => by cases k <;> decide)).2.2.1 _ _ hleast
    rw [hleastValue] at h
    exact h.exact (by norm_num) (by norm_num)
  · have h := (toAtom_exact (t := ⟨"9007199254740993.0", .start⟩) (by decide) (by decide)
      (fun k => by cases k <;> decide)).2.2.2.1 _ _ _ hhalf
    rw [hhalfValue] at h
    exact h.nearest hbound
  · exact (toAtom_exact (t := ⟨"+", .start⟩) (by decide) (by decide) (fun k => by cases k <;> decide)).2.2.2.2
      (Literal.ofLexeme?_eq_none_iff.1 (by decide))

end Token
end Lisplet
