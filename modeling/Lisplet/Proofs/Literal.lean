import Lisplet.Literal
/-!
# The spelling of literals

Which texts spell a number, said by their parts and not by how they are read: an optional sign and digits, or an optional
sign and digits around one point.  Reading a text as a literal finds the literal that it spells, and finds none exactly
where it spells none (`ofLexeme?_eq_some_iff`, `ofLexeme?_eq_none_iff`).
-/
namespace Lisplet

namespace Text

theorem ne_of_isDigit {c d : Char} (hc : isDigit c = true) (hd : isDigit d = false) : c ≠ d := by
  rintro rfl
  rw [hc] at hd
  cases hd

end Text

namespace Literal

inductive Sign : Bool → List Char → Prop where
  | absent : Sign false []
  | plus : Sign false ['+']
  | minus : Sign true ['-']

inductive Spells : List Char → Literal → Prop where
  | integer {negative : Bool} {sign digits : List Char} (hs : Sign negative sign)
    (hd : ∀ c ∈ digits, Text.isDigit c = true) (hne : digits ≠ []) :
    Spells (sign ++ digits) (.integer negative digits)
  | decimal {negative : Bool} {sign whole fraction : List Char} (hs : Sign negative sign)
    (hw : ∀ c ∈ whole, Text.isDigit c = true) (hf : ∀ c ∈ fraction, Text.isDigit c = true)
    (hne : whole ++ fraction ≠ []) : Spells (sign ++ (whole ++ '.' :: fraction)) (.decimal negative whole fraction)

/-! ## Signs -/

theorem splitSign_append {negative : Bool} {sign body : List Char} (hs : Sign negative sign)
    (hm : body.head? ≠ some '-') (hp : body.head? ≠ some '+') : splitSign (sign ++ body) = (negative, body) := by
  cases hs with
  | plus => rfl
  | minus => rfl
  | absent =>
    rw [List.nil_append]
    unfold splitSign
    split
    · exact absurd rfl hm
    · exact absurd rfl hp
    · rfl

theorem exists_sign (cs : List Char) : ∃ sign, Sign (splitSign cs).1 sign ∧ cs = sign ++ (splitSign cs).2 := by
  unfold splitSign
  split
  · exact ⟨['-'], .minus, rfl⟩
  · exact ⟨['+'], .plus, rfl⟩
  · exact ⟨[], .absent, rfl⟩

/-! ## Bodies -/

theorem takeWhile_of_all {cs : List Char} (h : ∀ c ∈ cs, Text.isDigit c = true) :
    cs.takeWhile Text.isDigit = cs ∧ cs.dropWhile Text.isDigit = [] := by
  have ht : (cs ++ []).takeWhile Text.isDigit = cs ++ [].takeWhile Text.isDigit := List.takeWhile_append_of_pos h
  have hd : (cs ++ []).dropWhile Text.isDigit = [].dropWhile Text.isDigit := List.dropWhile_append_of_pos h
  rw [List.append_nil] at ht hd
  exact ⟨ht.trans (List.append_nil cs), hd⟩

theorem takeWhile_point {cs : List Char} (h : ∀ c ∈ cs, Text.isDigit c = true) (rest : List Char) :
    (cs ++ '.' :: rest).takeWhile Text.isDigit = cs ∧ (cs ++ '.' :: rest).dropWhile Text.isDigit = '.' :: rest := by
  have hp : Text.isDigit '.' = false := by decide
  rw [List.takeWhile_append_of_pos h, List.dropWhile_append_of_pos h, List.takeWhile_cons, List.dropWhile_cons, hp]
  exact ⟨List.append_nil cs, rfl⟩

theorem ofUnsigned?_integer {digits : List Char} (negative : Bool) (hd : ∀ c ∈ digits, Text.isDigit c = true)
    (hne : digits ≠ []) : ofUnsigned? negative digits = some (.integer negative digits) := by
  obtain ⟨ht, hr⟩ := takeWhile_of_all hd
  have he : digits.isEmpty = false := by
    rw [List.isEmpty_eq_false_iff]
    exact hne
  unfold ofUnsigned?
  simp only [ht, hr, he, Bool.false_eq_true, if_false]

theorem ofUnsigned?_decimal {whole fraction : List Char} (negative : Bool)
    (hw : ∀ c ∈ whole, Text.isDigit c = true) (hf : ∀ c ∈ fraction, Text.isDigit c = true)
    (hne : whole ++ fraction ≠ []) :
    ofUnsigned? negative (whole ++ '.' :: fraction) = some (.decimal negative whole fraction) := by
  obtain ⟨ht, hr⟩ := takeWhile_point hw fraction
  have ha : fraction.all Text.isDigit = true := List.all_eq_true.2 hf
  have he : (whole.isEmpty && fraction.isEmpty) = false := by
    rw [Bool.and_eq_false_iff]
    cases whole with
    | nil => right; rw [List.isEmpty_eq_false_iff]; exact hne
    | cons => left; rfl
  unfold ofUnsigned?
  simp only [ht, hr, ha, he, Bool.not_false, Bool.and_self, if_true]

theorem ofUnsigned?_eq_some {negative : Bool} {body : List Char} {l : Literal}
    (h : ofUnsigned? negative body = some l) :
    (body ≠ [] ∧ (∀ c ∈ body, Text.isDigit c = true) ∧ l = .integer negative body) ∨
    ∃ whole fraction, body = whole ++ '.' :: fraction ∧ (∀ c ∈ whole, Text.isDigit c = true) ∧
      (∀ c ∈ fraction, Text.isDigit c = true) ∧ whole ++ fraction ≠ [] ∧ l = .decimal negative whole fraction := by
  have hbody : body.takeWhile Text.isDigit ++ body.dropWhile Text.isDigit = body := List.takeWhile_append_dropWhile
  have hwhole : ∀ c ∈ body.takeWhile Text.isDigit, Text.isDigit c = true := List.all_eq_true.1 List.all_takeWhile
  unfold ofUnsigned? at h
  simp only at h
  generalize body.takeWhile Text.isDigit = whole at h hbody hwhole
  split at h
  · next hdrop =>
    rw [hdrop, List.append_nil] at hbody
    subst hbody
    by_cases he : whole = []
    · rw [he] at h; cases h
    · rw [if_neg (by rwa [List.isEmpty_iff])] at h
      cases h
      exact .inl ⟨he, hwhole, rfl⟩
  · next fraction hdrop =>
    rw [hdrop] at hbody
    split at h
    · next hc =>
      cases h
      simp only [Bool.and_eq_true, List.all_eq_true, Bool.not_eq_true', Bool.and_eq_false_iff,
        List.isEmpty_eq_false_iff] at hc
      refine .inr ⟨whole, fraction, hbody.symm, hwhole, hc.1, ?_, rfl⟩
      intro hnil
      obtain ⟨hw, hf⟩ := List.append_eq_nil_iff.1 hnil
      rcases hc.2 with hne | hne
      · exact hne hw
      · exact hne hf
    · cases h
  · cases h

/-! ## Lexemes -/

theorem ofLexeme?_of_spells {w : String} {l : Literal} (h : Spells w.toList l) : ofLexeme? w = some l := by
  unfold ofLexeme?
  generalize w.toList = cs at h
  cases h with
  | @integer negative sign digits hs hd hne =>
    have hfirst : ∀ c, Text.isDigit c = false → digits.head? ≠ some c := by
      intro c hc hh
      exact Text.ne_of_isDigit (hd c (List.mem_of_head? hh)) hc rfl
    rw [splitSign_append hs (hfirst _ (by decide)) (hfirst _ (by decide))]
    exact ofUnsigned?_integer negative hd hne
  | @decimal negative sign whole fraction hs hw hf hne =>
    have hfirst : ∀ c, Text.isDigit c = false → c ≠ '.' → (whole ++ '.' :: fraction).head? ≠ some c := by
      intro c hc hp hh
      cases whole with
      | nil => exact hp (by simpa using hh.symm)
      | cons d rest =>
        have hdc : d = c := by simpa using hh
        exact Text.ne_of_isDigit (hw d List.mem_cons_self) hc hdc
    rw [splitSign_append hs (hfirst _ (by decide) (by decide)) (hfirst _ (by decide) (by decide))]
    exact ofUnsigned?_decimal negative hw hf hne

theorem spells_of_ofLexeme? {w : String} {l : Literal} (h : ofLexeme? w = some l) : Spells w.toList l := by
  obtain ⟨sign, hs, hcs⟩ := exists_sign w.toList
  have hu : ofUnsigned? (splitSign w.toList).1 (splitSign w.toList).2 = some l := h
  generalize (splitSign w.toList).1 = negative at hs hu
  generalize (splitSign w.toList).2 = body at hcs hu
  rw [hcs]
  rcases ofUnsigned?_eq_some hu with ⟨hne, hd, rfl⟩ | ⟨whole, fraction, rfl, hw, hf, hne, rfl⟩
  · exact .integer hs hd hne
  · exact .decimal hs hw hf hne

/-- **A text is read as the literal that it spells.** -/
theorem ofLexeme?_eq_some_iff {w : String} {l : Literal} : ofLexeme? w = some l ↔ Spells w.toList l :=
  ⟨spells_of_ofLexeme?, ofLexeme?_of_spells⟩

theorem ofLexeme?_eq_none_iff {w : String} : ofLexeme? w = none ↔ ∀ l, ¬ Spells w.toList l := by
  rw [Option.eq_none_iff_forall_ne_some]
  exact forall_congr' fun l => not_congr ofLexeme?_eq_some_iff

end Literal
end Lisplet
