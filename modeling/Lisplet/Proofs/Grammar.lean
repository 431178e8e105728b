import Lisplet.Cursor
import Lisplet.Proofs.Literal
/-!
# The grammar of programs

A program is a sequence of forms.  A form is a single lexeme, a keyword or an atom, or one or more items between
parentheses.  An item is a form, except that the second item of a list whose first item is the keyword `lambda` may also
be the empty list.

A `Derivation` is the tree of the rules applied.  It knows the lexemes that it derives and the expression that they stand
for; `IsForm` says that it follows the grammar.  The grammar is unambiguous: no derivation is the beginning of another
(`append_inj_of_isItem`), so a sequence of lexemes has at most one derivation (`eq_of_lexemesItems_eq`).
-/
namespace Lisplet

/-- **What a single lexeme stands for.**  A literal stands for a number only if the number is one of its kind. -/
inductive Denotes : String → Expr → Prop where
  | keyword (k : Keyword) : Denotes k.spelling (.keyword k)
  | integer {w : String} {negative : Bool} {digits : List Char} {n : Integer}
    (hs : Literal.Spells w.toList (.integer negative digits))
    (hn : n.toInt = Literal.signed negative (Text.ofDigits digits)) : Denotes w (.num (.int n))
  | decimal {w : String} {negative : Bool} {whole fraction : List Char} {x : Binary64.Finite}
    (hs : Literal.Spells w.toList (.decimal negative whole fraction))
    (hx : Binary64.round negative (Text.ofDigits (whole ++ fraction)) (10 ^ fraction.length) = .finite x) :
    Denotes w (.num (.float (.finite x)))
  | symbol {w : String} (ho : w ≠ "(") (hc : w ≠ ")") (hk : ∀ k : Keyword, w ≠ k.spelling)
    (hl : ∀ l, ¬ Literal.Spells w.toList l) : Denotes w (.symbol w)

/-- A derivation: a lexeme with what it stands for, or items between parentheses. -/
inductive Derivation where
  | leaf (lexeme : String) (e : Expr)
  | list (items : List Derivation)

namespace Derivation

mutual

def lexemes : Derivation → List String
  | .leaf w _ => [w]
  | .list items => "(" :: (lexemesItems items ++ [")"])

def lexemesItems : List Derivation → List String
  | [] => []
  | d :: rest => d.lexemes ++ lexemesItems rest

end

mutual

def expr : Derivation → Expr
  | .leaf _ e => e
  | .list items => .list (exprs items)

def exprs : List Derivation → List Expr
  | [] => []
  | d :: rest => d.expr :: exprs rest

end

mutual

def IsForm : Derivation → Prop
  | .leaf w e => Denotes w e
  | .list items => items ≠ [] ∧ AreItems [] items

/-- The derivations of items behind those already there: of forms, or of the empty list in the place of parameters. -/
def AreItems : List Expr → List Derivation → Prop
  | _, [] => True
  | before, d :: rest =>
    (d.IsForm ∨ d = .list [] ∧ before = [.keyword .lambda]) ∧ AreItems (before ++ [d.expr]) rest

end

/-- **The lexemes `ws` are derived as the forms `es`** by these derivations, one for each form. -/
structure Derives (program : List Derivation) (ws : List String) (es : List Expr) : Prop where
  isForm : ∀ d ∈ program, d.IsForm
  lexemes : lexemesItems program = ws
  exprs : exprs program = es

theorem lexemesItems_append : ∀ ds rest : List Derivation,
    lexemesItems (ds ++ rest) = lexemesItems ds ++ lexemesItems rest
  | [], rest => rfl
  | d :: ds, rest => by
    rw [List.cons_append, lexemesItems, lexemesItems, lexemesItems_append ds rest, List.append_assoc]

theorem exprs_eq_map : ∀ ds : List Derivation, exprs ds = ds.map expr
  | [] => rfl
  | d :: rest => by rw [exprs, exprs_eq_map rest, List.map_cons]

theorem areItems_concat : ∀ (before : List Expr) (items : List Derivation) (d : Derivation),
    AreItems before (items ++ [d]) ↔ AreItems before items ∧
      (d.IsForm ∨ d = .list [] ∧ before ++ exprs items = [.keyword .lambda])
  | before, [], d => by
    rw [List.nil_append, AreItems, AreItems, AreItems, exprs, List.append_nil]
    simp only [and_true, true_and]
  | before, i :: items, d => by
    rw [List.cons_append, AreItems, AreItems, areItems_concat (before ++ [i.expr]) items d, exprs, and_assoc,
      List.append_assoc, List.singleton_append]

end Derivation

/-! ## Lexemes -/

namespace Keyword

theorem ofSpelling?_eq_none_iff {w : String} : ofSpelling? w = none ↔ ∀ k : Keyword, w ≠ k.spelling := by
  rw [Option.eq_none_iff_forall_ne_some]
  exact forall_congr' fun k => not_congr ofSpelling?_eq_some

theorem not_spells (k : Keyword) (l : Literal) : ¬ Literal.Spells k.spelling.toList l := by
  have h : Literal.ofLexeme? k.spelling = none := by cases k <;> decide
  exact Literal.ofLexeme?_eq_none_iff.1 h l

end Keyword

theorem Literal.ofSpelling?_of_spells {w : String} {l : Literal} (h : Spells w.toList l) :
    Keyword.ofSpelling? w = none := by
  rw [Keyword.ofSpelling?_eq_none_iff]
  rintro k rfl
  exact k.not_spells l h

namespace Token

theorem toAtom_of_denotes {t : Token} {e : Expr} (h : Denotes t.lexeme e) : t.toAtom = .ok e := by
  unfold toAtom
  generalize t.lexeme = w at h ⊢
  cases h with
  | keyword k => rw [Keyword.ofSpelling?_spelling]
  | @integer _ negative digits n hs hn =>
    have hnum : (Literal.integer negative digits).number? = some (.int n) := by
      rw [Literal.number?, ← hn, Integer.ofInt?_toInt]
      rfl
    rw [Literal.ofSpelling?_of_spells hs, Literal.ofLexeme?_of_spells hs]
    simp only [hnum]
  | @decimal _ negative whole fraction x hs hx =>
    have hnum : (Literal.decimal negative whole fraction).number? = some (.float (.finite x)) := by
      rw [Literal.number?, hx]
      rfl
    rw [Literal.ofSpelling?_of_spells hs, Literal.ofLexeme?_of_spells hs]
    simp only [hnum]
  | symbol _ _ hk hl => rw [Keyword.ofSpelling?_eq_none_iff.2 hk, Literal.ofLexeme?_eq_none_iff.2 hl]

theorem denotes_of_number? {w : String} {literal : Literal} {n : Number} (hs : Literal.Spells w.toList literal)
    (hn : literal.number? = some n) : Denotes w (.num n) := by
  cases literal with
  | integer negative digits =>
    rw [Literal.number?, Option.map_eq_some_iff] at hn
    obtain ⟨i, hi, rfl⟩ := hn
    exact .integer hs (Integer.ofInt?_eq_some hi)
  | decimal negative whole fraction =>
    rw [Literal.number?] at hn
    split at hn
    · next hf =>
      cases hn
      cases hx : Binary64.round negative (Text.ofDigits (whole ++ fraction)) (10 ^ fraction.length) with
      | nan => rw [hx] at hf; cases hf
      | infinity s => rw [hx] at hf; cases hf
      | finite x => exact .decimal hs hx
    · cases hn

theorem denotes_of_toAtom {t : Token} {e : Expr} (ho : t.lexeme ≠ "(") (hc : t.lexeme ≠ ")")
    (h : t.toAtom = .ok e) : Denotes t.lexeme e := by
  unfold toAtom at h
  split at h
  · next k hk =>
    cases h
    rw [Keyword.ofSpelling?_eq_some.1 hk]
    exact .keyword k
  · next hk =>
    split at h
    · next hl =>
      cases h
      exact .symbol ho hc (Keyword.ofSpelling?_eq_none_iff.1 hk) (Literal.ofLexeme?_eq_none_iff.1 hl)
    · next literal hl =>
      split at h
      · next n _ hn =>
        cases h
        exact denotes_of_number? (Literal.spells_of_ofLexeme? hl) hn
      · cases h
      · cases h

end Token

namespace Denotes

theorem unique {w : String} {e e' : Expr} (h : Denotes w e) (h' : Denotes w e') : e = e' := by
  have hok : Except.ok e = Except.ok e' :=
    (Token.toAtom_of_denotes (t := ⟨w, .start⟩) h).symm.trans (Token.toAtom_of_denotes (t := ⟨w, .start⟩) h')
  cases hok
  rfl

theorem ne_parenthesis {w v : String} {e : Expr} (h : Denotes w e) (hl : Literal.ofLexeme? v = none)
    (hk : ∀ k : Keyword, k.spelling ≠ v) (hv : v = "(" ∨ v = ")") : w ≠ v := by
  cases h with
  | keyword k => exact hk k
  | integer hs =>
    rintro rfl
    exact Literal.ofLexeme?_eq_none_iff.1 hl _ hs
  | decimal hs =>
    rintro rfl
    exact Literal.ofLexeme?_eq_none_iff.1 hl _ hs
  | symbol ho hc =>
    rcases hv with rfl | rfl
    · exact ho
    · exact hc

theorem ne_open {w : String} {e : Expr} (h : Denotes w e) : w ≠ "(" :=
  h.ne_parenthesis (by decide) (fun k => by cases k <;> decide) (.inl rfl)

theorem ne_close {w : String} {e : Expr} (h : Denotes w e) : w ≠ ")" :=
  h.ne_parenthesis (by decide) (fun k => by cases k <;> decide) (.inr rfl)

end Denotes

/-! ## Unambiguity -/

namespace Derivation

def IsItem (d : Derivation) : Prop :=
  d.IsForm ∨ d = .list []

theorem IsItem.list {items : List Derivation} (h : IsItem (.list items)) : AreItems [] items := by
  rcases h with h | h
  · rw [IsForm] at h
    exact h.2
  · cases h
    rw [AreItems]
    trivial

theorem AreItems.cons {before : List Expr} {d : Derivation} {rest : List Derivation}
    (h : AreItems before (d :: rest)) : d.IsItem ∧ AreItems (before ++ [d.expr]) rest := by
  rw [AreItems] at h
  exact ⟨h.1.imp_right And.left, h.2⟩

theorem head_lexemes_ne_close {d : Derivation} (h : d.IsItem) (ws vs : List String) :
    d.lexemes ++ ws ≠ ")" :: vs := by
  cases d with
  | leaf w e =>
    rcases h with h | h
    · rw [IsForm] at h
      rw [lexemes, List.singleton_append]
      intro he
      exact h.ne_close (List.cons.inj he).1
    · cases h
  | list items =>
    rw [lexemes]
    intro he
    exact absurd (List.cons.inj he).1 (by decide)

mutual

/-- **No derivation is the beginning of another**: behind equal lexemes the same derivation has been made, and what
follows is the same. -/
theorem append_inj_of_isItem : ∀ (d d' : Derivation) (ws ws' : List String), d.IsItem → d'.IsItem →
    d.lexemes ++ ws = d'.lexemes ++ ws' → d = d' ∧ ws = ws'
  | .leaf w e, .leaf w' e', ws, ws', h, h', heq => by
    have hw : w = w' ∧ ws = ws' := List.cons.inj heq
    obtain ⟨rfl, rfl⟩ := hw
    rcases h with h | h
    · rcases h' with h' | h'
      · rw [IsForm] at h h'
        rw [h.unique h']
        exact ⟨rfl, rfl⟩
      · cases h'
    · cases h
  | .leaf w e, .list items, ws, ws', h, _, heq => by
    rcases h with h | h
    · rw [IsForm] at h
      exact absurd (List.cons.inj heq).1 h.ne_open
    · cases h
  | .list items, .leaf w e, ws, ws', _, h', heq => by
    rcases h' with h' | h'
    · rw [IsForm] at h'
      exact absurd (List.cons.inj heq).1.symm h'.ne_open
    · cases h'
  | .list items, .list items', ws, ws', h, h', heq => by
    rw [lexemes, lexemes, List.cons_append, List.cons_append, List.append_assoc, List.append_assoc] at heq
    obtain ⟨rfl, rfl⟩ := append_inj_of_areItems [] items items' ws ws' h.list h'.list (List.cons.inj heq).2
    exact ⟨rfl, rfl⟩

theorem append_inj_of_areItems : ∀ (before : List Expr) (items items' : List Derivation) (ws ws' : List String),
    AreItems before items → AreItems before items' →
    lexemesItems items ++ (")" :: ws) = lexemesItems items' ++ (")" :: ws') → items = items' ∧ ws = ws'
  | before, [], [], ws, ws', _, _, heq => ⟨rfl, (List.cons.inj heq).2⟩
  | before, [], d :: rest, ws, ws', _, h', heq => by
    rw [lexemesItems, lexemesItems, List.nil_append, List.append_assoc] at heq
    exact absurd heq.symm (head_lexemes_ne_close h'.cons.1 _ _)
  | before, d :: rest, [], ws, ws', h, _, heq => by
    rw [lexemesItems, lexemesItems, List.nil_append, List.append_assoc] at heq
    exact absurd heq (head_lexemes_ne_close h.cons.1 _ _)
  | before, d :: rest, d' :: rest', ws, ws', h, h', heq => by
    rw [lexemesItems, lexemesItems, List.append_assoc, List.append_assoc] at heq
    obtain ⟨rfl, hrest⟩ := append_inj_of_isItem d d' _ _ h.cons.1 h'.cons.1 heq
    obtain ⟨rfl, rfl⟩ := append_inj_of_areItems _ rest rest' ws ws' h.cons.2 h'.cons.2 hrest
    exact ⟨rfl, rfl⟩

end

theorem lexemes_ne_nil : ∀ d : Derivation, d.lexemes ≠ []
  | .leaf _ _ => List.cons_ne_nil _ _
  | .list _ => List.cons_ne_nil _ _

/-- **The grammar is unambiguous.** -/
theorem eq_of_lexemesItems_eq : ∀ program program' : List Derivation, (∀ d ∈ program, d.IsForm) →
    (∀ d ∈ program', d.IsForm) → lexemesItems program = lexemesItems program' → program = program'
  | [], [], _, _, _ => rfl
  | [], d :: rest, _, _, heq => by
    rw [lexemesItems, lexemesItems] at heq
    exact absurd (List.append_eq_nil_iff.1 heq.symm).1 d.lexemes_ne_nil
  | d :: rest, [], _, _, heq => by
    rw [lexemesItems, lexemesItems] at heq
    exact absurd (List.append_eq_nil_iff.1 heq).1 d.lexemes_ne_nil
  | d :: rest, d' :: rest', h, h', heq => by
    rw [lexemesItems, lexemesItems] at heq
    obtain ⟨rfl, hrest⟩ := append_inj_of_isItem d d' _ _ (.inl (h d List.mem_cons_self))
      (.inl (h' d' List.mem_cons_self)) heq
    rw [eq_of_lexemesItems_eq rest rest' (fun x hx => h x (List.mem_cons_of_mem _ hx))
      (fun x hx => h' x (List.mem_cons_of_mem _ hx)) hrest]

end Derivation
end Lisplet
