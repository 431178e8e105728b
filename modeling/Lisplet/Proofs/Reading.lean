import Lisplet.Proofs.Grammar
/-!
# Reading follows the grammar

A sequence of tokens is read as forms exactly if the grammar derives its lexemes as these forms
(`Cursor.forms_eq_ok_iff`).

One way, a derivation is followed from its first lexeme to its last, whatever lists are open around it
(`readForms_derivation`).  The other way, what has been read so far is at every step the lexemes of complete derivations
and, for every open list, a parenthesis and the derivations of its items: `Reached` says so, and one step keeps it
(`reached_step`).
-/
namespace Lisplet

/-! ## One token -/

namespace Progress

def lists : Progress → OpenLists
  | .partway lists => lists
  | .form _ => []

def forms (reversed : List Expr) : Progress → List Expr
  | .partway _ => reversed
  | .form e => e :: reversed

end Progress

namespace Token

theorem shape_of_open {t : Token} (h : t.lexeme = "(") : t.shape = .opening := by
  rw [shape, if_pos h]

theorem shape_of_close {t : Token} (h : t.lexeme = ")") : t.shape = .closing := by
  rw [shape, h]
  rfl

theorem shape_of_atom {t : Token} (ho : t.lexeme ≠ "(") (hc : t.lexeme ≠ ")") : t.shape = .atom := by
  rw [shape, if_neg ho, if_neg hc]

end Token

namespace OpenLists

variable {lists : OpenLists} {t : Token} {reversed : List Expr}

theorem readForms_cons_ok {progress : Progress} (h : lists.step t = .ok progress) (rest : List Token) :
    readForms lists reversed (t :: rest) = readForms progress.lists (progress.forms reversed) rest := by
  rw [readForms, h]
  cases progress <;> rfl

theorem readForms_cons_error {cause : Malformed} (h : lists.step t = .error cause) (rest : List Token) :
    readForms lists reversed (t :: rest) = (.error cause, rest) := by
  rw [readForms, h]

theorem step_open (h : t.lexeme = "(") : lists.step t = .ok (.partway (lists.openAt t.position)) := by
  rw [step, Token.shape_of_open h]

theorem step_atom {e : Expr} (h : Denotes t.lexeme e) : lists.step t = .ok (place e lists) := by
  rw [step, Token.shape_of_atom h.ne_open h.ne_close, Token.toAtom_of_denotes h]
  rfl

theorem step_close {l : OpenList} {outer : OpenLists} (h : t.lexeme = ")")
    (hl : l.reversed ≠ [] ∨ l.mayBeEmpty = true) : step (l :: outer) t = .ok (place l.toExpr outer) := by
  have hc : (l.reversed.isEmpty && !l.mayBeEmpty) = false := by
    rcases hl with hl | hl
    · rw [List.isEmpty_eq_false_iff.2 hl, Bool.false_and]
    · rw [hl, Bool.not_true, Bool.and_false]
  rw [step, Token.shape_of_close h, closeAt, hc]
  rfl

/-- **What a token may do**: open a list, be an item, or end the innermost open list. -/
theorem step_eq_ok {progress : Progress} (h : lists.step t = .ok progress) :
    (t.lexeme = "(" ∧ progress = .partway (lists.openAt t.position)) ∨
    (∃ e, Denotes t.lexeme e ∧ progress = place e lists) ∨
    (∃ l outer, t.lexeme = ")" ∧ lists = l :: outer ∧ (l.reversed ≠ [] ∨ l.mayBeEmpty = true) ∧
      progress = place l.toExpr outer) := by
  by_cases ho : t.lexeme = "("
  · rw [step_open ho] at h
    cases h
    exact .inl ⟨ho, rfl⟩
  · by_cases hc : t.lexeme = ")"
    · rw [step, Token.shape_of_close hc] at h
      match lists, h with
      | l :: outer, h =>
        simp only [closeAt] at h
        split at h
        · cases h
        · next hl =>
          cases h
          refine .inr (.inr ⟨l, outer, hc, rfl, ?_, rfl⟩)
          by_cases hne : l.reversed = []
          · exact .inr (by simpa [hne] using hl)
          · exact .inl hne
    · cases ha : t.toAtom with
      | error cause => rw [step, Token.shape_of_atom ho hc, ha] at h; cases h
      | ok e =>
        have hw := Token.denotes_of_toAtom ho hc ha
        rw [step_atom hw] at h
        cases h
        exact .inr (.inl ⟨e, hw, rfl⟩)

/-! ## From derivations to forms -/

theorem mayOpenEmpty_cons {l : OpenList} {outer : OpenLists} :
    mayOpenEmpty (l :: outer) = true ↔ l.reversed.reverse = [.keyword .lambda] := by
  rw [mayOpenEmpty, OpenList.atParameters, List.reverse_eq_iff, List.reverse_singleton]
  constructor
  · intro h
    split at h
    · next hl => exact hl
    · cases h
  · intro h
    rw [h]

mutual

/-- **Reading follows a derivation** and puts what it derives in its place. -/
theorem readForms_derivation (d : Derivation) (lists : OpenLists) (reversed : List Expr) (tokens rest : List Token)
    (hd : d.IsForm ∨ d = .list [] ∧ lists.mayOpenEmpty = true) (ht : tokens.map Token.lexeme = d.lexemes) :
    readForms lists reversed (tokens ++ rest) =
      readForms (place d.expr lists).lists ((place d.expr lists).forms reversed) rest := by
  match d with
  | .leaf w e =>
    have hw : Denotes w e := by
      rcases hd with hd | hd
      · rwa [Derivation.IsForm] at hd
      · cases hd.1
    rw [Derivation.lexemes, List.map_eq_singleton_iff] at ht
    obtain ⟨t, rfl, rfl⟩ := ht
    exact readForms_cons_ok (step_atom hw) rest
  | .list items =>
    rw [Derivation.lexemes, List.map_eq_cons_iff] at ht
    obtain ⟨opening, inner, rfl, ho, hinner⟩ := ht
    obtain ⟨inside, closing, rfl, hinside, hclosing⟩ := List.map_eq_append_iff.1 hinner
    obtain ⟨close, rfl, hc⟩ := List.map_eq_singleton_iff.1 hclosing
    have hitems : Derivation.AreItems [] items := by
      rcases hd with hd | ⟨hd, _⟩
      · rw [Derivation.IsForm] at hd
        exact hd.2
      · cases hd
        rw [Derivation.AreItems]
        trivial
    have hends : (Derivation.exprs items).reverse ++ [] ≠ [] ∨ lists.mayOpenEmpty = true := by
      rcases hd with hd | ⟨_, hd⟩
      · rw [Derivation.IsForm] at hd
        left
        rw [List.append_nil, Derivation.exprs_eq_map]
        simpa using hd.1
      · exact .inr hd
    rw [List.cons_append, readForms_cons_ok (step_open ho), List.append_assoc]
    show readForms (⟨opening.position, lists.mayOpenEmpty, []⟩ :: lists) reversed (inside ++ ([close] ++ rest)) = _
    rw [readForms_items items ⟨opening.position, lists.mayOpenEmpty, []⟩ lists reversed inside _ hitems hinside,
      List.singleton_append, readForms_cons_ok (step_close hc hends)]
    simp [OpenList.toExpr, Derivation.expr]

theorem readForms_items (items : List Derivation) (l : OpenList) (outer : OpenLists) (reversed : List Expr)
    (tokens rest : List Token) (hi : Derivation.AreItems l.reversed.reverse items)
    (ht : tokens.map Token.lexeme = Derivation.lexemesItems items) :
    readForms (l :: outer) reversed (tokens ++ rest) =
      readForms ({ l with reversed := (Derivation.exprs items).reverse ++ l.reversed } :: outer) reversed rest := by
  match items with
  | [] =>
    rw [Derivation.lexemesItems, List.map_eq_nil_iff] at ht
    rw [ht]
    rfl
  | d :: more =>
    rw [Derivation.lexemesItems] at ht
    obtain ⟨first, others, rfl, hfirst, hothers⟩ := List.map_eq_append_iff.1 ht
    rw [Derivation.AreItems] at hi
    have hd : d.IsForm ∨ d = .list [] ∧ mayOpenEmpty (l :: outer) = true := by
      rcases hi.1 with hd | ⟨hd, hb⟩
      · exact .inl hd
      · exact .inr ⟨hd, mayOpenEmpty_cons.2 hb⟩
    have hmore : Derivation.AreItems (d.expr :: l.reversed).reverse more := by
      rw [List.reverse_cons]
      exact hi.2
    rw [List.append_assoc, readForms_derivation d (l :: outer) reversed first _ hd hfirst]
    show readForms ({ l with reversed := d.expr :: l.reversed } :: outer) reversed (others ++ rest) = _
    rw [readForms_items more { l with reversed := d.expr :: l.reversed } outer reversed others rest hmore hothers]
    simp [Derivation.exprs]

end

theorem readForms_program : ∀ (program : List Derivation) (reversed : List Expr) (tokens : List Token),
    (∀ d ∈ program, d.IsForm) → tokens.map Token.lexeme = Derivation.lexemesItems program →
    readForms [] reversed tokens = (.ok (reversed.reverse ++ Derivation.exprs program), [])
  | [], reversed, tokens, _, ht => by
    rw [Derivation.lexemesItems, List.map_eq_nil_iff] at ht
    rw [ht, readForms, Derivation.exprs, List.append_nil]
  | d :: more, reversed, tokens, hp, ht => by
    rw [Derivation.lexemesItems] at ht
    obtain ⟨first, others, rfl, hfirst, hothers⟩ := List.map_eq_append_iff.1 ht
    rw [readForms_derivation d [] reversed first others (.inl (hp d List.mem_cons_self)) hfirst]
    show readForms [] (d.expr :: reversed) others = _
    rw [readForms_program more (d.expr :: reversed) others (fun x hx => hp x (List.mem_cons_of_mem _ hx)) hothers]
    simp [Derivation.exprs]

/-! ## From forms to derivations -/

/-- **What has been read**: the lexemes `ws` are those of the forms complete so far and, for each open list, of the
parenthesis that opens it and of its items. -/
inductive Reached : OpenLists → List Expr → List String → Prop where
  | forms {program : List Derivation} (h : ∀ d ∈ program, d.IsForm) :
    Reached [] (Derivation.exprs program).reverse (Derivation.lexemesItems program)
  | within {lists : OpenLists} {reversed : List Expr} {ws : List String} {items : List Derivation} (p : Position)
    (hr : Reached lists reversed ws) (hi : Derivation.AreItems [] items) :
    Reached (⟨p, lists.mayOpenEmpty, (Derivation.exprs items).reverse⟩ :: lists) reversed
      (ws ++ "(" :: Derivation.lexemesItems items)

theorem reached_place {ws : List String} (d : Derivation) (h : Reached lists reversed ws)
    (hd : d.IsForm ∨ d = .list [] ∧ lists.mayOpenEmpty = true) :
    Reached (place d.expr lists).lists ((place d.expr lists).forms reversed) (ws ++ d.lexemes) := by
  cases h with
  | @forms program hp =>
    have hform : d.IsForm := by
      rcases hd with hd | ⟨_, hd⟩
      · exact hd
      · cases hd
    have hall : ∀ x ∈ program ++ [d], x.IsForm := by
      intro x hx
      rcases List.mem_append.1 hx with hx | hx
      · exact hp x hx
      · rw [List.mem_singleton.1 hx]
        exact hform
    have hr := Reached.forms hall
    rw [Derivation.lexemesItems_append, Derivation.exprs_eq_map, List.map_append, List.reverse_append] at hr
    simpa [place, Progress.lists, Progress.forms, Derivation.lexemesItems, Derivation.exprs_eq_map] using hr
  | @within outer _ ws' items p hr hi =>
    have hlast : d.IsForm ∨ d = .list [] ∧ [] ++ Derivation.exprs items = [.keyword .lambda] := by
      rcases hd with hd | ⟨hd, hm⟩
      · exact .inl hd
      · rw [mayOpenEmpty_cons, List.reverse_reverse] at hm
        exact .inr ⟨hd, hm⟩
    have hw := Reached.within p hr ((Derivation.areItems_concat [] items d).2 ⟨hi, hlast⟩)
    rw [Derivation.lexemesItems_append, Derivation.exprs_eq_map, List.map_append, List.reverse_append] at hw
    simpa [place, Progress.lists, Progress.forms, Derivation.lexemesItems, Derivation.exprs_eq_map] using hw

theorem reached_close {l : OpenList} {outer : OpenLists} {ws : List String} (h : Reached (l :: outer) reversed ws)
    (hl : l.reversed ≠ [] ∨ l.mayBeEmpty = true) :
    Reached (place l.toExpr outer).lists ((place l.toExpr outer).forms reversed) (ws ++ [")"]) := by
  cases h with
  | @within _ _ ws' items p hr hi =>
    have hd : (Derivation.list items).IsForm ∨ Derivation.list items = .list [] ∧ outer.mayOpenEmpty = true := by
      by_cases hne : items = []
      · subst hne
        rcases hl with hl | hl
        · exact absurd rfl hl
        · exact .inr ⟨rfl, hl⟩
      · left
        rw [Derivation.IsForm]
        exact ⟨hne, hi⟩
    have hp := reached_place (.list items) hr hd
    rw [Derivation.lexemes] at hp
    simpa [OpenList.toExpr, Derivation.expr] using hp

/-- **One step keeps what has been read.** -/
theorem reached_step {ws : List String} {progress : Progress} (h : Reached lists reversed ws)
    (hs : lists.step t = .ok progress) :
    Reached progress.lists (progress.forms reversed) (ws ++ [t.lexeme]) := by
  rcases step_eq_ok hs with ⟨ho, rfl⟩ | ⟨e, hw, rfl⟩ | ⟨l, outer, hc, rfl, hl, rfl⟩
  · rw [ho]
    exact Reached.within t.position h (by rw [Derivation.AreItems]; trivial)
  · exact reached_place (.leaf t.lexeme e) h (.inl (by rwa [Derivation.IsForm]))
  · rw [hc]
    exact reached_close h hl

theorem exists_derives_of_readForms : ∀ (tokens : List Token) (lists : OpenLists) (reversed : List Expr)
    (ws : List String) (es : List Expr), Reached lists reversed ws → (readForms lists reversed tokens).1 = .ok es →
    ∃ program, Derivation.Derives program (ws ++ tokens.map Token.lexeme) es
  | [], [], reversed, ws, es, h, hr => by
    rw [readForms] at hr
    cases hr
    cases h with
    | @forms program hp => exact ⟨program, hp, by rw [List.map_nil, List.append_nil], by rw [List.reverse_reverse]⟩
  | [], l :: outer, reversed, ws, es, h, hr => by
    rw [readForms] at hr
    cases hr
  | t :: rest, lists, reversed, ws, es, h, hr => by
    cases hs : lists.step t with
    | error cause => rw [readForms_cons_error hs] at hr; cases hr
    | ok progress =>
      rw [readForms_cons_ok hs] at hr
      have hp := exists_derives_of_readForms rest _ _ _ es (reached_step h hs) hr
      rwa [List.append_assoc, List.singleton_append] at hp

theorem readForms_eq_ok_iff (tokens : List Token) (es : List Expr) :
    (readForms [] [] tokens).1 = .ok es ↔ ∃ program, Derivation.Derives program (tokens.map Token.lexeme) es := by
  constructor
  · intro h
    have hnone : ∀ d ∈ ([] : List Derivation), d.IsForm := fun _ hd => by cases hd
    exact exists_derives_of_readForms tokens [] [] [] es (Reached.forms hnone) h
  · rintro ⟨program, hp, hw, rfl⟩
    rw [readForms_program program [] tokens hp hw.symm]
    rfl

end OpenLists

namespace Cursor

theorem forms_eq_ok_iff_readForms (c : Cursor) (es : List Expr) :
    c.forms.1 = .ok es ↔ (OpenLists.readForms [] [] c.rest).1 = .ok es := by
  show (OpenLists.readForms [] [] c.rest).1.mapError Error.malformed = .ok es ↔ _
  cases (OpenLists.readForms [] [] c.rest).1 with
  | error cause =>
    constructor
    · intro h; cases h
    · intro h; cases h
  | ok forms =>
    constructor
    · intro h; cases h; rfl
    · intro h; cases h; rfl

theorem forms_eq_ok_iff (tokens : List Token) (es : List Expr) :
    (Cursor.ofTokens tokens).forms.1 = .ok es ↔
      ∃ program, Derivation.Derives program (tokens.map Token.lexeme) es :=
  (forms_eq_ok_iff_readForms _ es).trans (OpenLists.readForms_eq_ok_iff tokens es)

/-- **Reading accepts exactly the grammar.**  The forms read are those that the grammar derives, the derivation is the
only one, and where the tokens stand in the text makes no difference to any of it. -/
theorem forms_accepts_grammar (tokens : List Token) :
    (∀ es : List Expr, (Cursor.ofTokens tokens).forms.1 = .ok es ↔
      ∃ program, Derivation.Derives program (tokens.map Token.lexeme) es) ∧
    (∀ (program program' : List Derivation) (es es' : List Expr),
      Derivation.Derives program (tokens.map Token.lexeme) es →
      Derivation.Derives program' (tokens.map Token.lexeme) es' → program = program') ∧
    (∀ tokens' : List Token, tokens'.map Token.lexeme = tokens.map Token.lexeme →
      ∀ es : List Expr, (Cursor.ofTokens tokens').forms.1 = .ok es ↔ (Cursor.ofTokens tokens).forms.1 = .ok es) := by
  refine ⟨forms_eq_ok_iff tokens, fun program program' es es' h h' => ?_, fun tokens' ht es => ?_⟩
  · exact Derivation.eq_of_lexemesItems_eq program program' h.isForm h'.isForm (h.lexemes.trans h'.lexemes.symm)
  · rw [forms_eq_ok_iff, forms_eq_ok_iff, ht]

end Cursor
end Lisplet
