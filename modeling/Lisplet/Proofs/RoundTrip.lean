import Lisplet.Expr.Text
import Lisplet.Proofs.NumberText
import Lisplet.Proofs.Reading
import Lisplet.Proofs.Scan
/-!
# Reading what was written

An expression is `Readable` if its text can be taken for it: its floats are finite, its symbols are atoms that stand for
symbols, and an empty list stands only in the place of parameters.  The lexemes of such a text follow the derivation of
the expression (`lexemes_text`), whatever stands before it, so the texts of readable expressions with a space between
them are read as these expressions (`parse_textItems`).

What was read is readable, because a lexeme of a text is a parenthesis or an atom (`readable_of_parse`).  Both together
are the round trip.
-/
namespace Lisplet

/-! ## Atoms -/

theorem Text.isAtomChar_of_isDigit {c : Char} (h : isDigit c = true) : IsAtomChar c := by
  have hlow : 48 ≤ c.toNat := by
    simp only [isDigit, Bool.and_eq_true, decide_eq_true_eq] at h
    exact h.1
  have hhigh : c.toNat ≤ 57 := by
    simp only [isDigit, Bool.and_eq_true, decide_eq_true_eq] at h
    exact h.2
  refine ⟨ne_of_isDigit h (by decide), ne_of_isDigit h (by decide), ?_⟩
  simp only [isBlank, inRanges, blankRanges, List.any_cons, List.any_nil, Bool.or_false, Bool.or_eq_false_iff,
    Bool.and_eq_false_iff, decide_eq_false_iff_not]
  omega

theorem Literal.Sign.isAtomChar {negative : Bool} {sign : List Char} (h : Sign negative sign) :
    ∀ c ∈ sign, Text.IsAtomChar c := by
  intro c hc
  cases h with
  | absent => cases hc
  | plus =>
    rw [List.mem_singleton.1 hc]
    decide
  | minus =>
    rw [List.mem_singleton.1 hc]
    decide

theorem Literal.Spells.isAtom {cs : List Char} {l : Literal} (h : Spells cs l) : Text.IsAtom cs := by
  cases h with
  | integer hs hd hne =>
    refine ⟨List.append_ne_nil_of_right_ne_nil _ hne, fun c hc => ?_⟩
    rcases List.mem_append.1 hc with hc | hc
    · exact hs.isAtomChar c hc
    · exact Text.isAtomChar_of_isDigit (hd c hc)
  | decimal hs hw hf _ =>
    refine ⟨List.append_ne_nil_of_right_ne_nil _ (List.append_ne_nil_of_right_ne_nil _ (List.cons_ne_nil _ _)),
      fun c hc => ?_⟩
    rcases List.mem_append.1 hc with hc | hc
    · exact hs.isAtomChar c hc
    · rcases List.mem_append.1 hc with hc | hc
      · exact Text.isAtomChar_of_isDigit (hw c hc)
      · rcases List.mem_cons.1 hc with rfl | hc
        · decide
        · exact Text.isAtomChar_of_isDigit (hf c hc)

theorem Denotes.isAtom {w : String} {e : Expr} (h : Denotes w e) (hs : e = .symbol w → Text.IsAtom w.toList) :
    Text.IsAtom w.toList := by
  cases h with
  | keyword k => cases k <;> decide
  | integer h => exact h.isAtom
  | decimal h => exact h.isAtom
  | symbol => exact hs rfl

/-! ## Readable expressions -/

namespace Expr

mutual

/-- **The text of the expression can be taken for it.** -/
def Readable : Expr → Prop
  | .num (.int _) => True
  | .num (.float x) => x.isFinite = true
  | .keyword _ => True
  | .symbol name => Text.IsAtom name.toList ∧ Denotes name (.symbol name)
  | .list items => items ≠ [] ∧ ReadableItems [] items

/-- Readable items behind those already there; the empty list is one in the place of parameters. -/
def ReadableItems : List Expr → List Expr → Prop
  | _, [] => True
  | before, e :: rest => (e.Readable ∨ e = .list [] ∧ before = [.keyword .lambda]) ∧ ReadableItems (before ++ [e]) rest

end

mutual

def derivation : Expr → Derivation
  | .num n => .leaf n.text (.num n)
  | .keyword k => .leaf k.spelling (.keyword k)
  | .symbol name => .leaf name (.symbol name)
  | .list items => .list (derivations items)

def derivations : List Expr → List Derivation
  | [] => []
  | e :: rest => e.derivation :: derivations rest

end

mutual

theorem expr_derivation : ∀ e : Expr, e.derivation.expr = e
  | .num n => by rw [derivation, Derivation.expr]
  | .keyword k => by rw [derivation, Derivation.expr]
  | .symbol name => by rw [derivation, Derivation.expr]
  | .list items => by rw [derivation, Derivation.expr, exprs_derivations items]

theorem exprs_derivations : ∀ es : List Expr, Derivation.exprs (derivations es) = es
  | [] => by rw [derivations, Derivation.exprs]
  | e :: rest => by rw [derivations, Derivation.exprs, expr_derivation e, exprs_derivations rest]

end

theorem denotes_num {n : Number} (h : (num n).Readable) : Denotes n.text (.num n) := by
  cases n with
  | int i => exact Denotes.integer_text i
  | float x =>
    rw [Readable] at h
    cases x with
    | finite x => exact Denotes.float_text x
    | infinity s => cases h
    | nan => cases h

mutual

theorem isForm_derivation : ∀ e : Expr, e.Readable → e.derivation.IsForm
  | .num n, h => by
    rw [derivation, Derivation.IsForm]
    exact denotes_num h
  | .keyword k, _ => by
    rw [derivation, Derivation.IsForm]
    exact .keyword k
  | .symbol name, h => by
    rw [Readable] at h
    rw [derivation, Derivation.IsForm]
    exact h.2
  | .list items, h => by
    rw [Readable] at h
    rw [derivation, Derivation.IsForm]
    refine ⟨fun hnil => h.1 ?_, areItems_derivations [] items h.2⟩
    have hexprs := exprs_derivations items
    rw [hnil, Derivation.exprs] at hexprs
    exact hexprs.symm

theorem areItems_derivations : ∀ before es : List Expr, ReadableItems before es →
    Derivation.AreItems before (derivations es)
  | before, [], _ => by
    rw [derivations, Derivation.AreItems]
    trivial
  | before, e :: rest, h => by
    rw [ReadableItems] at h
    rw [derivations, Derivation.AreItems, expr_derivation]
    refine ⟨?_, areItems_derivations (before ++ [e]) rest h.2⟩
    rcases h.1 with he | ⟨rfl, hb⟩
    · exact .inl (isForm_derivation e he)
    · refine .inr ⟨?_, hb⟩
      rw [derivation, derivations]

end

/-! ## The lexemes of a text -/

mutual

/-- **The text of a readable expression adds the lexemes of its derivation**, where no atom is being read. -/
theorem lexemes_text : ∀ (e : Expr) (s : Scan), e.Readable ∨ e = .list [] → s.pending = none →
    (e.text.toList.foldl Scan.step s).lexemes = s.lexemes ++ e.derivation.lexemes
  | .num n, s, h, hp => by
    have hn : Denotes n.text (.num n) := by
      rcases h with h | h
      · exact denotes_num h
      · cases h
    rw [text_num, derivation, Derivation.lexemes]
    exact Scan.lexemes_atom hp (hn.isAtom fun he => by cases he)
  | .keyword k, s, _, hp => by
    rw [text_keyword, derivation, Derivation.lexemes]
    exact Scan.lexemes_atom hp ((Denotes.keyword k).isAtom fun he => by cases he)
  | .symbol name, s, h, hp => by
    have hn : Text.IsAtom name.toList := by
      rcases h with h | h
      · rw [Readable] at h
        exact h.1
      · cases h
    rw [text_symbol, derivation, Derivation.lexemes]
    exact Scan.lexemes_atom hp hn
  | .list items, s, h, hp => by
    have hi : ReadableItems [] items := by
      rcases h with h | h
      · rw [Readable] at h
        exact h.2
      · cases h
        rw [ReadableItems]
        trivial
    obtain ⟨hopen, hopened⟩ := s.lexemes_paren (.inl rfl)
    have hitems := lexemes_textItems [] items (s.step '(') hi hopen
    rw [text_list, String.toList_append, String.toList_append, List.foldl_append, List.foldl_append]
    show (Scan.step ((textItems items).toList.foldl Scan.step (s.step '(')) ')').lexemes = _
    rw [(Scan.lexemes_paren _ (.inr rfl)).2, hitems, hopened, derivation, Derivation.lexemes, List.append_assoc,
      List.append_assoc]
    rfl

theorem lexemes_textItems : ∀ (before es : List Expr) (s : Scan), ReadableItems before es → s.pending = none →
    ((textItems es).toList.foldl Scan.step s).lexemes = s.lexemes ++ Derivation.lexemesItems (derivations es)
  | before, [], s, _, _ => by
    rw [derivations, Derivation.lexemesItems, List.append_nil, textItems_nil]
    rfl
  | before, [e], s, h, hp => by
    rw [ReadableItems] at h
    rw [textItems_singleton, lexemes_text e s (h.1.imp_right And.left) hp, derivations, derivations,
      Derivation.lexemesItems, Derivation.lexemesItems, List.append_nil]
  | before, e :: f :: rest, s, h, hp => by
    rw [ReadableItems] at h
    have he := lexemes_text e s (h.1.imp_right And.left) hp
    obtain ⟨hspace, hspaced⟩ := Scan.lexemes_space (e.text.toList.foldl Scan.step s)
    have hrest := lexemes_textItems (before ++ [e]) (f :: rest) _ h.2 hspace
    rw [textItems_cons_cons, String.toList_append, String.toList_append, List.foldl_append, List.foldl_append,
      derivations, Derivation.lexemesItems]
    show ((textItems (f :: rest)).toList.foldl Scan.step
      (Scan.step (e.text.toList.foldl Scan.step s) ' ')).lexemes = _
    rw [hrest, hspaced, he, List.append_assoc]

end

theorem intercalate_text : ∀ es : List Expr, " ".intercalate (es.map text) = textItems es
  | [] => by rw [List.map_nil, String.intercalate_nil, textItems_nil]
  | [e] => by rw [List.map_singleton, String.intercalate_singleton, textItems_singleton]
  | e :: f :: rest => by
    rw [List.map_cons, List.map_cons, String.intercalate_cons_cons, ← List.map_cons, intercalate_text (f :: rest),
      textItems_cons_cons]

theorem readableItems_of_forall : ∀ (before es : List Expr), (∀ e ∈ es, e.Readable) → ReadableItems before es
  | before, [], _ => by
    rw [ReadableItems]
    trivial
  | before, e :: rest, h => by
    rw [ReadableItems]
    exact ⟨.inl (h e List.mem_cons_self),
      readableItems_of_forall (before ++ [e]) rest fun f hf => h f (List.mem_cons_of_mem e hf)⟩

theorem forall_isForm_derivations : ∀ es : List Expr, (∀ e ∈ es, e.Readable) → ∀ d ∈ derivations es, d.IsForm
  | [], _, d, hd => by
    rw [derivations] at hd
    cases hd
  | e :: rest, h, d, hd => by
    rw [derivations] at hd
    rcases List.mem_cons.1 hd with rfl | hd
    · exact isForm_derivation e (h e List.mem_cons_self)
    · exact forall_isForm_derivations rest (fun f hf => h f (List.mem_cons_of_mem e hf)) d hd

end Expr

theorem parse_textItems {es : List Expr} (h : ∀ e ∈ es, e.Readable) : parse (Expr.textItems es) = .ok es := by
  rw [parse, Cursor.forms_eq_ok_iff]
  refine ⟨Expr.derivations es, Expr.forall_isForm_derivations es h, ?_, Expr.exprs_derivations es⟩
  exact (Expr.lexemes_textItems [] es .start (Expr.readableItems_of_forall [] es h) rfl).symm

theorem parse_text_of_readable {e : Expr} (h : e.Readable) : parse e.text = .ok [e] := by
  rw [← Expr.textItems_singleton]
  exact parse_textItems fun f hf => List.mem_singleton.1 hf ▸ h

/-! ## What was read -/

namespace Derivation

mutual

theorem readable_expr : ∀ d : Derivation, d.IsForm → (∀ w ∈ d.lexemes, Scan.IsLexeme w) → d.expr.Readable
  | .leaf w e, h, hw => by
    rw [IsForm] at h
    rw [lexemes] at hw
    have hatom : Text.IsAtom w.toList := by
      rcases hw w List.mem_cons_self with ho | hc | ha
      · exact absurd ho h.ne_open
      · exact absurd hc h.ne_close
      · exact ha
    rw [expr]
    cases h with
    | keyword k => rw [Expr.Readable]; trivial
    | integer => rw [Expr.Readable]; trivial
    | decimal => rw [Expr.Readable]; rfl
    | symbol ho hc hk hl =>
      rw [Expr.Readable]
      exact ⟨hatom, .symbol ho hc hk hl⟩
  | .list items, h, hw => by
    rw [IsForm] at h
    rw [lexemes] at hw
    rw [expr, Expr.Readable]
    refine ⟨?_, readableItems_exprs [] items h.2 fun w hi => ?_⟩
    · rw [exprs_eq_map]
      simpa using h.1
    · exact hw w (List.mem_cons_of_mem _ (List.mem_append_left _ hi))

theorem readableItems_exprs : ∀ (before : List Expr) (items : List Derivation), AreItems before items →
    (∀ w ∈ lexemesItems items, Scan.IsLexeme w) → Expr.ReadableItems before (exprs items)
  | before, [], _, _ => by
    rw [exprs, Expr.ReadableItems]
    trivial
  | before, d :: rest, h, hw => by
    rw [AreItems] at h
    rw [lexemesItems] at hw
    rw [exprs, Expr.ReadableItems]
    refine ⟨?_, readableItems_exprs _ rest h.2 fun w hr => hw w (List.mem_append_right _ hr)⟩
    rcases h.1 with hd | ⟨rfl, hb⟩
    · exact .inl (readable_expr d hd fun w hl => hw w (List.mem_append_left _ hl))
    · refine .inr ⟨?_, hb⟩
      rw [expr, exprs]

end

theorem mem_lexemesItems {d : Derivation} {w : String} : ∀ {ds : List Derivation}, d ∈ ds → w ∈ d.lexemes →
    w ∈ lexemesItems ds
  | d' :: rest, hd, hw => by
    rw [lexemesItems]
    rcases List.mem_cons.1 hd with rfl | hd
    · exact List.mem_append_left _ hw
    · exact List.mem_append_right _ (mem_lexemesItems hd hw)

end Derivation

/-- **What was read is readable.** -/
theorem readable_of_parse {source : String} {forms : List Expr} (h : parse source = .ok forms) :
    ∀ e ∈ forms, e.Readable := by
  rw [parse, Cursor.forms_eq_ok_iff] at h
  obtain ⟨program, hforms, hlexemes, rfl⟩ := h
  intro e he
  rw [Derivation.exprs_eq_map] at he
  obtain ⟨d, hd, rfl⟩ := List.mem_map.1 he
  apply d.readable_expr (hforms d hd)
  intro w hw
  have hmem := Derivation.mem_lexemesItems hd hw
  rw [hlexemes] at hmem
  obtain ⟨t, ht, rfl⟩ := List.mem_map.1 hmem
  exact mem_tokenize ht

/-- **The round trip.**  What a source is read as is read again, and the same, from its texts with one space between
them. -/
theorem parse_text {source : String} {forms : List Expr} (h : parse source = .ok forms) :
    parse (" ".intercalate (forms.map Expr.text)) = .ok forms := by
  rw [Expr.intercalate_text]
  exact parse_textItems (readable_of_parse h)

theorem parse_text_thunk : ∃ forms, parse "(define f(lambda()(+ 007 -.5)))\n-0." = .ok forms ∧ forms.length = 2 ∧
    parse (" ".intercalate (forms.map Expr.text)) = .ok forms := by
  have h : parse "(define f(lambda()(+ 007 -.5)))\n-0." =
      .ok [.list [.keyword .define, .symbol "f", .list [.keyword .lambda, .list [],
          .list [.symbol "+", .num (.int 7), .num (.float (.ofParts true (2 ^ 52) (-53)))]]],
        .num (.float (.zero true))] := rfl
  exact ⟨_, h, rfl, parse_text h⟩

end Lisplet
