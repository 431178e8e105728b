import Lisplet.Proofs.RoundTrip
/-!
# Which expressions survive printing

An expression need not come from text, and its own text may be read as something else, as several forms or not at all.
`Printable` says of the parts of an expression, wherever they stand, when that cannot happen: floats are finite, symbols
are names, and an empty list stands behind a `lambda` and nowhere else.  The text of an expression is read as that
expression if and only if it is printable.

Nothing can go wrong in two places and come out right: what was read is readable, however strange the text, so an
expression that its text is read as is readable itself.  The same holds if the two are only equal, where the sign of a
zero is not looked at, because equal expressions are readable together (`Readable.of_equal`).
-/
namespace Lisplet

/-! ## Printable expressions -/

/-- **A name**: a text that can only be read as a symbol. -/
structure Text.IsName (name : String) : Prop where
  nonempty : name ≠ ""
  unbroken : ∀ c ∈ name.toList, c ≠ '(' ∧ c ≠ ')' ∧ Text.isBlank c = false
  unreserved : name ≠ "define" ∧ name ≠ "if" ∧ name ≠ "lambda"
  nonliteral : ∀ l, ¬ Literal.Spells name.toList l

namespace Expr

inductive Occurs (part : Expr) : Expr → Prop where
  | here : Occurs part part
  | inside {item : Expr} {items : List Expr} (hitem : item ∈ items) (h : Occurs part item) : Occurs part (.list items)

/-- **The text of the expression cannot be mistaken.** -/
structure Printable (e : Expr) : Prop where
  floats : ∀ x, Occurs (.num (.float x)) e → x.isFinite = true
  symbols : ∀ name, Occurs (.symbol name) e → Text.IsName name
  root : e ≠ .list []
  /-- What stands before an empty list, among the items of a list, is `lambda` and nothing else. -/
  empties : ∀ items, Occurs (.list items) e → ∀ before after, items = before ++ .list [] :: after →
    before = [.keyword .lambda]

theorem Occurs.eq_of_empty {part : Expr} (h : Occurs part (.list [])) : part = .list [] := by
  cases h with
  | here => rfl
  | inside hitem _ => cases hitem

theorem Printable.item {items : List Expr} (h : (list items).Printable) {e : Expr} (he : e ∈ items)
    (hne : e ≠ .list []) : e.Printable where
  floats x hx := h.floats x (.inside he hx)
  symbols name hname := h.symbols name (.inside he hname)
  root := hne
  empties inner hinner := h.empties inner (.inside he hinner)

@[elab_as_elim]
theorem itemsInduction {P : Expr → Prop} (num : ∀ n, P (.num n)) (keyword : ∀ k, P (.keyword k))
    (symbol : ∀ name, P (.symbol name)) (list : ∀ items, (∀ e ∈ items, P e) → P (.list items)) (e : Expr) : P e := by
  cases e with
  | num n => exact num n
  | keyword k => exact keyword k
  | symbol name => exact symbol name
  | list items => exact list items fun e _ => itemsInduction num keyword symbol list e

/-! ## Printable is readable -/

@[simp] theorem readable_int (n : Integer) : (num (.int n)).Readable := by
  rw [Readable]
  trivial

@[simp] theorem readable_keyword (k : Keyword) : (keyword k).Readable := by
  rw [Readable]
  trivial

@[simp] theorem readable_float_iff {x : Binary64} : (num (.float x)).Readable ↔ x.isFinite = true := by
  rw [Readable]

theorem readable_symbol_iff {name : String} : (symbol name).Readable ↔ Text.IsName name := by
  rw [Readable]
  constructor
  · rintro ⟨⟨hne, hchars⟩, hdenotes⟩
    cases hdenotes with
    | symbol _ _ hk hl => exact ⟨fun h => hne (by rw [h]; rfl), hchars, ⟨hk .define, hk .branch, hk .lambda⟩, hl⟩
  · intro h
    have hopen : name ≠ "(" := by
      rintro rfl
      exact (h.unbroken '(' (by decide)).1 rfl
    have hclose : name ≠ ")" := by
      rintro rfl
      exact (h.unbroken ')' (by decide)).2.1 rfl
    refine ⟨⟨fun hnil => h.nonempty (String.toList_eq_nil_iff.1 hnil), h.unbroken⟩, .symbol hopen hclose ?_ h.nonliteral⟩
    intro k
    cases k with
    | define => exact h.unreserved.1
    | branch => exact h.unreserved.2.1
    | lambda => exact h.unreserved.2.2

theorem readableItems_iff : ∀ {items before : List Expr}, ReadableItems before items ↔
    ∀ pre e post, items = pre ++ e :: post → e.Readable ∨ e = .list [] ∧ before ++ pre = [.keyword .lambda]
  | [], before => by
    rw [ReadableItems]
    simp
  | f :: rest, before => by
    rw [ReadableItems, readableItems_iff]
    constructor
    · rintro ⟨hf, hrest⟩ pre e post hsplit
      cases pre with
      | nil =>
        cases hsplit
        rw [List.append_nil]
        exact hf
      | cons g pre =>
        cases hsplit
        have := hrest pre e post rfl
        rwa [List.append_assoc] at this
    · intro h
      refine ⟨?_, fun pre e post hsplit => ?_⟩
      · have := h [] f rest rfl
        rwa [List.append_nil] at this
      · rw [List.append_assoc]
        exact h (f :: pre) e post (by rw [hsplit]; rfl)

theorem readable_list_iff {items : List Expr} : (list items).Readable ↔ items ≠ [] ∧
    ∀ pre e post, items = pre ++ e :: post → e.Readable ∨ e = .list [] ∧ pre = [.keyword .lambda] := by
  rw [Readable, readableItems_iff]
  rfl

theorem not_readable_empty : ¬ (list []).Readable := by
  rw [readable_list_iff]
  exact fun h => h.1 rfl

theorem Readable.item {items : List Expr} (h : (list items).Readable) {e : Expr} (he : e ∈ items) :
    e.Readable ∨ e = .list [] := by
  obtain ⟨pre, post, rfl⟩ := List.append_of_mem he
  exact ((readable_list_iff.1 h).2 pre e post rfl).imp_right And.left

theorem Readable.of_occurs {part e : Expr} (h : Occurs part e) (he : e.Readable) : part.Readable ∨ part = .list [] := by
  induction h with
  | here => exact .inl he
  | inside hitem hpart ih =>
    rcases he.item hitem with hreadable | rfl
    · exact ih hreadable
    · exact .inr hpart.eq_of_empty

theorem Readable.printable {e : Expr} (h : e.Readable) : e.Printable where
  floats x hx := by
    rcases h.of_occurs hx with hreadable | hempty
    · exact readable_float_iff.1 hreadable
    · cases hempty
  symbols name hname := by
    rcases h.of_occurs hname with hreadable | hempty
    · exact readable_symbol_iff.1 hreadable
    · cases hempty
  root := by
    rintro rfl
    exact not_readable_empty h
  empties items hitems before after hsplit := by
    rcases h.of_occurs hitems with hreadable | hempty
    · rcases (readable_list_iff.1 hreadable).2 before _ after hsplit with hinner | hinner
      · exact absurd hinner not_readable_empty
      · exact hinner.2
    · cases hempty
      simp at hsplit

theorem Printable.readable {e : Expr} : e.Printable → e.Readable := by
  induction e using itemsInduction with
  | num n =>
    intro h
    cases n with
    | int i => exact readable_int i
    | float x => exact readable_float_iff.2 (h.floats x .here)
  | keyword k => simp
  | symbol name =>
    intro h
    exact readable_symbol_iff.2 (h.symbols name .here)
  | list items ih =>
    intro h
    rw [readable_list_iff]
    refine ⟨fun hnil => h.root (by rw [hnil]), fun pre e post hsplit => ?_⟩
    have hmem : e ∈ items := by simp [hsplit]
    by_cases he : e = .list []
    · subst he
      exact .inr ⟨rfl, h.empties items .here pre post hsplit⟩
    · exact .inl (ih e hmem (h.item hmem he))

theorem readable_iff_printable {e : Expr} : e.Readable ↔ e.Printable :=
  ⟨Readable.printable, Printable.readable⟩

end Expr

/-! ## Equal expressions -/

theorem Binary64.isFinite_of_equal {x y : Binary64} (h : x.equal y = true) (hx : x.isFinite = true) :
    y.isFinite = true := by
  cases x with
  | nan => cases hx
  | infinity => cases hx
  | finite x =>
    cases y with
    | nan => cases h
    | infinity s => cases s <;> cases h
    | finite y => rfl

namespace Expr

theorem equalItems_self : ∀ {es : List Expr}, (∀ e ∈ es, e.equal e = true) → equalItems es es = true
  | [], _ => by rw [equalItems]
  | e :: rest, h => by
    obtain ⟨he, hrest⟩ := List.forall_mem_cons.1 h
    rw [equalItems, he, equalItems_self hrest]
    rfl

theorem equal_self_of_finite {e : Expr} :
    (∀ x, Occurs (.num (.float x)) e → x.isFinite = true) → e.equal e = true := by
  induction e using itemsInduction with
  | num n =>
    intro h
    cases n with
    | int i => simp [equal, Number.sameLiteral]
    | float x =>
      have hx := h x .here
      cases x with
      | nan => cases hx
      | infinity => cases hx
      | finite x => simp [equal, Number.sameLiteral, Binary64.equal, Binary64.compare?]
  | keyword k => simp [equal]
  | symbol name => simp [equal]
  | list items ih =>
    intro h
    rw [equal]
    exact equalItems_self fun e he => ih e he fun x hx => h x (.inside he hx)

theorem Readable.equal_self {e : Expr} (h : e.Readable) : e.equal e = true :=
  equal_self_of_finite h.printable.floats

theorem equalItems_append_cons : ∀ {pre fs : List Expr} {e : Expr} {post : List Expr},
    equalItems fs (pre ++ e :: post) = true →
    ∃ pre' f post', fs = pre' ++ f :: post' ∧ equalItems pre' pre = true ∧ f.equal e = true
  | pre, [], e, post, h => by cases pre <;> simp [equalItems] at h
  | [], f :: fs, e, post, h => by
    rw [List.nil_append, equalItems, Bool.and_eq_true] at h
    exact ⟨[], f, fs, rfl, by rw [equalItems], h.1⟩
  | g :: pre, f :: fs, e, post, h => by
    rw [List.cons_append, equalItems, Bool.and_eq_true] at h
    obtain ⟨pre', f', post', rfl, hpre, he⟩ := equalItems_append_cons h.2
    refine ⟨f :: pre', f', post', rfl, ?_, he⟩
    rw [equalItems, h.1, hpre]
    rfl

theorem eq_empty_of_equal {e : Expr} (h : (list []).equal e = true) : e = .list [] := by
  cases e with
  | list items =>
    cases items with
    | nil => rfl
    | cons => simp [equal, equalItems] at h
  | num | keyword | symbol => simp [equal] at h

theorem eq_lambda_of_equalItems {es : List Expr} (h : equalItems [.keyword .lambda] es = true) :
    es = [.keyword .lambda] := by
  cases es with
  | nil => simp [equalItems] at h
  | cons e rest =>
    rw [equalItems, Bool.and_eq_true] at h
    have he : e = .keyword .lambda := by
      cases e with
      | keyword k =>
        have hk := h.1
        rw [equal, beq_iff_eq] at hk
        rw [hk]
      | num | symbol | list => simp [equal] at h
    have hrest : rest = [] := by
      cases rest with
      | nil => rfl
      | cons => simp [equalItems] at h
    rw [he, hrest]

/-- **Equal expressions are readable together.** -/
theorem Readable.of_equal {e : Expr} : ∀ {f : Expr}, f.equal e = true → f.Readable → e.Readable := by
  induction e using itemsInduction with
  | num n =>
    intro f h hf
    cases f with
    | num m =>
      rw [equal] at h
      cases n with
      | int i => exact readable_int i
      | float y =>
        cases m with
        | int => simp [Number.sameLiteral] at h
        | float x => exact readable_float_iff.2 (Binary64.isFinite_of_equal h (readable_float_iff.1 hf))
    | keyword | symbol | list => simp [equal] at h
  | keyword k => simp
  | symbol name =>
    intro f h hf
    cases f with
    | symbol other =>
      rw [equal, beq_iff_eq] at h
      rwa [h] at hf
    | num | keyword | list => simp [equal] at h
  | list items ih =>
    intro f h hf
    cases f with
    | list fs =>
      rw [equal] at h
      obtain ⟨hne, hitems⟩ := readable_list_iff.1 hf
      rw [readable_list_iff]
      refine ⟨?_, fun pre e post hsplit => ?_⟩
      · rintro rfl
        cases fs with
        | nil => exact hne rfl
        | cons => simp [equalItems] at h
      · rw [hsplit] at h
        obtain ⟨pre', f, post', hfs, hpre, he⟩ := equalItems_append_cons h
        -- the empty list and the keyword are equal to themselves only, so their places agree
        rcases hitems pre' f post' hfs with hreadable | ⟨rfl, rfl⟩
        · exact .inl (ih e (by simp [hsplit]) he hreadable)
        · exact .inr ⟨eq_empty_of_equal he, eq_lambda_of_equalItems hpre⟩
    | num | keyword | symbol => simp [equal] at h

end Expr

/-- **Which expressions survive printing.**  The text of an expression is read as just that expression if and only if the
expression is printable, and the same if it has only to be equal to what was read. -/
theorem parse_text_iff_printable (e : Expr) :
    (parse e.text = .ok [e] ↔ e.Printable) ∧
      ((∃ f, parse e.text = .ok [f] ∧ (f == e) = true) ↔ e.Printable) := by
  rw [← Expr.readable_iff_printable]
  constructor
  · exact ⟨fun h => readable_of_parse h e List.mem_cons_self, parse_text_of_readable⟩
  · constructor
    · rintro ⟨f, hf, hequal⟩
      exact .of_equal hequal (readable_of_parse hf f List.mem_cons_self)
    · intro h
      exact ⟨e, parse_text_of_readable h, h.equal_self⟩

/-- A symbol with a space in it falls apart. -/
example : parse (Expr.list [.symbol "a b"]).text = .ok [.list [.symbol "a", .symbol "b"]] := by
  rfl

end Lisplet
