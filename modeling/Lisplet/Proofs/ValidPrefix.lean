import Lisplet.Proofs.Reading
/-!
# The first token that cannot be mended

Reading stops at the first error, and it stops no later than it has to: the tokens before the one that it stops at are
the beginning of some program, and with that token they are the beginning of none.  If it runs out of tokens inside a
list instead, then what it has read is still the beginning of a program, and the error names the innermost open list.

`ReadTo` are the states that reading passes through.  From each of them the rest of a program can be supplied
(`viable_of_readTo`), because an open list can always be given an item and closed.  Where the open lists begin is kept
apart from what they hold: `OpenedBy` counts parentheses and knows nothing of forms.
-/
namespace Lisplet

/-- **The tokens are the beginning of a program.** -/
def Viable (tokens : List Token) : Prop :=
  ∃ more es, (Cursor.ofTokens (tokens ++ more)).forms.1 = .ok es

namespace OpenLists

variable {lists : OpenLists} {reversed : List Expr} {tokens : List Token} {t : Token}

/-! ## The states of reading -/

/-- The tokens have been read without an error, and these lists are open and these forms complete behind them. -/
inductive ReadTo : List Token → OpenLists → List Expr → Prop where
  | start : ReadTo [] [] []
  | snoc {tokens : List Token} {lists : OpenLists} {reversed : List Expr} {t : Token} {progress : Progress}
    (h : ReadTo tokens lists reversed) (hs : lists.step t = .ok progress) :
    ReadTo (tokens ++ [t]) progress.lists (progress.forms reversed)

theorem readForms_of_readTo (h : ReadTo tokens lists reversed) (rest : List Token) :
    readForms [] [] (tokens ++ rest) = readForms lists reversed rest := by
  induction h generalizing rest with
  | start => rfl
  | snoc _ hs ih => rw [List.append_assoc, ih, List.singleton_append, readForms_cons_ok hs]

theorem readForms_cases : ∀ (rest done : List Token) (lists : OpenLists) (reversed : List Expr),
    ReadTo done lists reversed →
    (∃ es : List Expr, ReadTo (done ++ rest) [] es.reverse ∧ readForms lists reversed rest = (.ok es, [])) ∨
    (∃ l outer reversed', ReadTo (done ++ rest) (l :: outer) reversed' ∧
      readForms lists reversed rest = (.error (.unclosed l.position), [])) ∨
    (∃ before t left lists' reversed' cause, rest = before ++ t :: left ∧ ReadTo (done ++ before) lists' reversed' ∧
      lists'.step t = .error cause ∧ readForms lists reversed rest = (.error cause, left))
  | [], done, [], reversed, h => by
    refine .inl ⟨reversed.reverse, ?_, by rw [readForms]⟩
    rwa [List.append_nil, List.reverse_reverse]
  | [], done, l :: outer, reversed, h => by
    refine .inr (.inl ⟨l, outer, reversed, ?_, by rw [readForms, atEnd]⟩)
    rwa [List.append_nil]
  | t :: rest, done, lists, reversed, h => by
    cases hs : lists.step t with
    | error cause =>
      refine .inr (.inr ⟨[], t, rest, lists, reversed, cause, rfl, ?_, hs, readForms_cons_error hs rest⟩)
      rwa [List.append_nil]
    | ok progress =>
      have hrest := readForms_cases rest (done ++ [t]) progress.lists (progress.forms reversed) (h.snoc hs)
      rw [← readForms_cons_ok hs, List.append_assoc, List.singleton_append] at hrest
      rcases hrest with hok | hopen | ⟨before, u, left, lists', reversed', cause, rfl, hread, hu, hr⟩
      · exact .inl hok
      · exact .inr (.inl hopen)
      · refine .inr (.inr ⟨t :: before, u, left, lists', reversed', cause, rfl, ?_, hu, hr⟩)
        rwa [List.append_assoc, List.singleton_append] at hread

/-! ## What can be completed -/

theorem exists_readForms_ok : ∀ (n : Nat) (lists : OpenLists) (reversed : List Expr), lists.length = n →
    ∃ more es, readForms lists reversed more = (.ok es, [])
  | 0, lists, reversed, hn => by
    rw [List.length_eq_zero_iff.1 hn]
    exact ⟨[], reversed.reverse, by rw [readForms]⟩
  | n + 1, [], reversed, hn => by cases hn
  | n + 1, l :: outer, reversed, hn => by
    have hx : Denotes (Token.mk "x" .start).lexeme (.symbol "x") := by
      refine .symbol (by decide) (by decide) (fun k => by cases k <;> decide) ?_
      exact Literal.ofLexeme?_eq_none_iff.1 (by decide)
    have hitem : step (l :: outer) ⟨"x", .start⟩ = _ := step_atom hx
    have hclose : step ({ l with reversed := .symbol "x" :: l.reversed } :: outer) ⟨")", .start⟩ = _ :=
      step_close rfl (.inl (List.cons_ne_nil _ _))
    -- the list that was closed is an item of the next one, so as many lists are open as were around it
    have hlen : (place (OpenList.toExpr { l with reversed := .symbol "x" :: l.reversed }) outer).lists.length = n := by
      cases outer with
      | nil => exact Nat.succ.inj hn
      | cons l' outer => exact Nat.succ.inj hn
    obtain ⟨more, es, hmore⟩ := exists_readForms_ok n _ ((place (OpenList.toExpr _) outer).forms reversed) hlen
    refine ⟨⟨"x", .start⟩ :: ⟨")", .start⟩ :: more, es, ?_⟩
    rw [readForms_cons_ok hitem]
    exact (readForms_cons_ok hclose more).trans hmore

/-- **Whatever has been read without an error is the beginning of a program.** -/
theorem viable_of_readTo (h : ReadTo tokens lists reversed) : Viable tokens := by
  obtain ⟨more, es, hmore⟩ := exists_readForms_ok lists.length lists reversed rfl
  refine ⟨more, es, (Cursor.forms_eq_ok_iff_readForms _ es).2 ?_⟩
  show (readForms [] [] (tokens ++ more)).1 = .ok es
  rw [readForms_of_readTo h, hmore]

/-- **A token that is an error where it stands cannot be mended by what follows it.** -/
theorem not_viable_of_step {cause : Malformed} (h : ReadTo tokens lists reversed) (hs : lists.step t = .error cause) :
    ¬ Viable (tokens ++ [t]) := by
  rintro ⟨more, es, hes⟩
  have hr := (Cursor.forms_eq_ok_iff_readForms _ es).1 hes
  have he : readForms [] [] (tokens ++ [t] ++ more) = (.error cause, more) := by
    rw [List.append_assoc, readForms_of_readTo h, List.singleton_append, readForms_cons_error hs]
  have hr' : (readForms [] [] (tokens ++ [t] ++ more)).1 = .ok es := hr
  rw [he] at hr'
  cases hr'

end OpenLists

/-! ## Parentheses -/

/-- How many more lists the tokens open than they close. -/
def rise (tokens : List Token) : Int :=
  tokens.countP (·.lexeme = "(") - tokens.countP (·.lexeme = ")")

def Nested (tokens : List Token) : Prop :=
  ∀ front, front <+: tokens → 0 ≤ rise front

def StaysOpen (t : Token) (after : List Token) : Prop :=
  t.lexeme = "(" ∧ Nested after

/-- **The token opens the innermost list that is open at the end**: the last one opened of those that stay open. -/
def InnermostOpen (tokens : List Token) (t : Token) : Prop :=
  ∃ before after, tokens = before ++ t :: after ∧ StaysOpen t after ∧
    ∀ front u back, after = front ++ u :: back → ¬ StaysOpen u back

structure Balanced (tokens : List Token) : Prop where
  rise : rise tokens = 0
  nested : Nested tokens

theorem rise_append (xs ys : List Token) : rise (xs ++ ys) = rise xs + rise ys := by
  simp only [rise, List.countP_append]
  omega

theorem rise_open {t : Token} (h : t.lexeme = "(") : rise [t] = 1 := by
  simp [rise, h]

theorem rise_close {t : Token} (h : t.lexeme = ")") : rise [t] = -1 := by
  simp [rise, h]

theorem rise_atom {t : Token} (ho : t.lexeme ≠ "(") (hc : t.lexeme ≠ ")") : rise [t] = 0 := by
  simp [rise, ho, hc]

namespace Balanced

theorem nil : Balanced [] := by
  refine ⟨rfl, fun front hf => ?_⟩
  rw [List.prefix_nil.1 hf]
  decide

theorem atom {t : Token} (ho : t.lexeme ≠ "(") (hc : t.lexeme ≠ ")") : Balanced [t] := by
  refine ⟨rise_atom ho hc, fun front hf => ?_⟩
  rcases List.prefix_cons_iff.1 hf with rfl | ⟨more, rfl, hm⟩
  · decide
  · rw [List.prefix_nil.1 hm]
    exact Int.le_of_eq (rise_atom ho hc).symm

theorem append {xs ys : List Token} (hx : Balanced xs) (hy : Balanced ys) : Balanced (xs ++ ys) := by
  refine ⟨by rw [rise_append, hx.rise, hy.rise]; rfl, fun front hf => ?_⟩
  rcases List.prefix_or_prefix_of_prefix hf (List.prefix_append xs ys) with hf | ⟨more, rfl⟩
  · exact hx.nested front hf
  · have := hy.nested more ((List.prefix_append_right_inj xs).1 hf)
    rw [rise_append, hx.rise]
    omega

theorem list {o c : Token} {inside : List Token} (ho : o.lexeme = "(") (hi : Balanced inside) (hc : c.lexeme = ")") :
    Balanced (o :: (inside ++ [c])) := by
  refine ⟨?_, fun front hf => ?_⟩
  · rw [← List.singleton_append, rise_append, rise_append, rise_open ho, rise_close hc, hi.rise]
    rfl
  · rcases List.prefix_cons_iff.1 hf with rfl | ⟨more, rfl, hm⟩
    · decide
    · rw [← List.singleton_append, rise_append, rise_open ho]
      rcases List.prefix_concat_iff.1 hm with rfl | hm
      · rw [rise_append, rise_close hc, hi.rise]
        decide
      · have := hi.nested more hm
        omega

end Balanced

namespace OpenLists

/-! ## Where the open lists begin -/

/-- Each open list was opened by the parenthesis at its place; what stands behind that, up to the next one, is
balanced, and there is nothing while the list is empty. -/
inductive OpenedBy : OpenLists → List Token → Prop where
  | outside {tokens : List Token} (hb : Balanced tokens) : OpenedBy [] tokens
  | inside {l : OpenList} {outer : OpenLists} {before inside : List Token} {o : Token} (h : OpenedBy outer before)
    (ho : o.lexeme = "(") (hp : o.position = l.position) (hb : Balanced inside)
    (he : l.reversed = [] → inside = []) : OpenedBy (l :: outer) (before ++ o :: inside)

theorem openedBy_place {lists : OpenLists} {tokens item : List Token} (h : OpenedBy lists tokens) (hb : Balanced item)
    (e : Expr) : OpenedBy (place e lists).lists (tokens ++ item) := by
  cases h with
  | outside hbefore => exact .outside (hbefore.append hb)
  | inside h ho hp hbefore _ =>
    rw [List.append_assoc, List.cons_append]
    exact .inside h ho hp (hbefore.append hb) fun he => absurd he (List.cons_ne_nil _ _)

theorem openedBy_close {l : OpenList} {outer : OpenLists} {tokens : List Token} {c : Token}
    (h : OpenedBy (l :: outer) tokens) (hc : c.lexeme = ")") (e : Expr) :
    OpenedBy (place e outer).lists (tokens ++ [c]) := by
  cases h with
  | inside h ho _ hb _ =>
    rw [List.append_assoc, List.cons_append]
    exact openedBy_place h (hb.list ho hc) e

theorem openedBy_of_readTo (h : ReadTo tokens lists reversed) : OpenedBy lists tokens := by
  induction h with
  | start => exact .outside .nil
  | @snoc _ _ _ t _ _ hs ih =>
    rcases step_eq_ok hs with ⟨ho, rfl⟩ | ⟨e, hw, rfl⟩ | ⟨l, outer, hc, rfl, _, rfl⟩
    · exact .inside ih ho rfl .nil fun _ => rfl
    · exact openedBy_place ih (.atom hw.ne_open hw.ne_close) e
    · exact openedBy_close ih hc l.toExpr

theorem innermostOpen_of_openedBy {l : OpenList} {outer : OpenLists} (h : OpenedBy (l :: outer) tokens) :
    ∃ o, InnermostOpen tokens o ∧ o.position = l.position := by
  cases h with
  | @inside _ _ before inside o _ ho hp hb _ =>
    refine ⟨o, ⟨before, inside, rfl, ⟨ho, hb.nested⟩, ?_⟩, hp⟩
    rintro front u back rfl ⟨hu, hback⟩
    -- `u` would raise the level, and neither what is before it nor what is behind it can lower it again
    have hfront := hb.nested front (List.prefix_append front _)
    have hend := hback back List.prefix_rfl
    have hrise := hb.rise
    rw [← List.singleton_append, rise_append, rise_append, rise_open hu] at hrise
    omega

end OpenLists

/-! ## Errors -/

inductive Token.OutOfRange (t : Token) : Malformed → Prop where
  | integer {negative : Bool} {digits : List Char} (hs : Literal.Spells t.lexeme.toList (.integer negative digits))
    (hn : Literal.signed negative (Text.ofDigits digits) < -2 ^ 63 ∨
      2 ^ 63 ≤ Literal.signed negative (Text.ofDigits digits)) : OutOfRange t (.integerRange t.lexeme t.position)
  | decimal {negative : Bool} {whole fraction : List Char}
    (hs : Literal.Spells t.lexeme.toList (.decimal negative whole fraction))
    (hx : (Binary64.round negative (Text.ofDigits (whole ++ fraction)) (10 ^ fraction.length)).isFinite = false) :
    OutOfRange t (.decimalRange t.lexeme t.position)

theorem Token.outOfRange_of_toAtom {t : Token} {cause : Malformed} (h : t.toAtom = .error cause) :
    t.OutOfRange cause := by
  unfold toAtom at h
  split at h
  · cases h
  · split at h
    · cases h
    · next literal hl =>
      have hs := Literal.spells_of_ofLexeme? hl
      split at h
      · cases h
      · next hn =>
        cases h
        rw [Literal.number?, Option.map_eq_none_iff, Integer.ofInt?_eq_none] at hn
        exact .integer hs hn
      · next hn =>
        cases h
        refine .decimal hs ?_
        simpa [Literal.number?] using hn

/-- **What is wrong at a token**: it closes a list that was not opened or an empty one, or it is a literal out of
range. -/
theorem OpenLists.step_eq_error {lists : OpenLists} {t : Token} {cause : Malformed} (h : lists.step t = .error cause) :
    (t.lexeme = ")" ∧ cause = .strayClose t.position) ∨
    (∃ l outer, t.lexeme = ")" ∧ lists = l :: outer ∧ l.reversed = [] ∧ cause = .emptyForm l.position) ∨
    t.OutOfRange cause := by
  by_cases ho : t.lexeme = "("
  · rw [step_open ho] at h
    cases h
  · by_cases hc : t.lexeme = ")"
    · rw [step, Token.shape_of_close hc] at h
      cases lists with
      | nil =>
        cases h
        exact .inl ⟨hc, rfl⟩
      | cons l outer =>
        simp only [closeAt] at h
        split at h
        · next hl =>
          cases h
          simp only [Bool.and_eq_true, List.isEmpty_iff] at hl
          exact .inr (.inl ⟨l, outer, hc, rfl, hl.1, rfl⟩)
        · cases h
    · cases ha : t.toAtom with
      | error cause' =>
        rw [step, Token.shape_of_atom ho hc, ha] at h
        cases h
        exact .inr (.inr (Token.outOfRange_of_toAtom ha))
      | ok e => rw [step, Token.shape_of_atom ho hc, ha] at h; cases h

/-- The error speaks of a token just before place `p`: of the last one, or of both where they open and close an empty
form. -/
inductive Blames (tokens : List Token) : Nat → Malformed → Prop where
  | strayClose {k : Nat} {t : Token} (ht : tokens[k]? = some t) (hc : t.lexeme = ")") :
    Blames tokens (k + 1) (.strayClose t.position)
  | literal {k : Nat} {t : Token} {cause : Malformed} (ht : tokens[k]? = some t) (hr : t.OutOfRange cause) :
    Blames tokens (k + 1) cause
  | emptyForm {k : Nat} {o c : Token} (ho : tokens[k]? = some o) (hopen : o.lexeme = "(")
    (hc : tokens[k + 1]? = some c) (hclose : c.lexeme = ")") : Blames tokens (k + 2) (.emptyForm o.position)

/-- **Reading ran out of tokens** at place `p`, inside a list. -/
structure BreaksOff (tokens : List Token) (p : Nat) (cause : Malformed) : Prop where
  place : p = tokens.length
  viable : Viable tokens
  blamed : ∃ o, InnermostOpen tokens o ∧ cause = .unclosed o.position

/-- **Reading stopped at the first token that cannot be mended**, the one before place `p`. -/
structure GoesWrong (tokens : List Token) (p : Nat) (cause : Malformed) : Prop where
  hopeless : ¬ Viable (tokens.take p)
  viable : Viable (tokens.take (p - 1))
  blamed : Blames tokens p cause

namespace OpenLists

theorem breaksOff_of_readTo {tokens : List Token} {l : OpenList} {outer : OpenLists} {reversed : List Expr}
    (h : ReadTo tokens (l :: outer) reversed) : BreaksOff tokens tokens.length (.unclosed l.position) := by
  refine ⟨rfl, viable_of_readTo h, ?_⟩
  obtain ⟨o, ho, hp⟩ := innermostOpen_of_openedBy (openedBy_of_readTo h)
  exact ⟨o, ho, by rw [hp]⟩

theorem blames_of_step {before left : List Token} {lists : OpenLists} {reversed : List Expr} {t : Token}
    {cause : Malformed} (h : ReadTo before lists reversed) (hs : lists.step t = .error cause) :
    Blames (before ++ t :: left) (before.length + 1) cause := by
  have ht : (before ++ t :: left)[before.length]? = some t := by simp
  rcases step_eq_error hs with ⟨hc, rfl⟩ | ⟨l, outer, hc, rfl, he, rfl⟩ | hr
  · exact .strayClose ht hc
  · cases openedBy_of_readTo h with
    | @inside _ _ front inside o _ ho hp _ hempty =>
      -- the list is empty, so the token before this one opened it
      obtain rfl := hempty he
      rw [← hp, List.length_append, List.length_singleton]
      refine .emptyForm ?_ ho ?_ hc
      · simp
      · simp
  · exact .literal ht hr

theorem goesWrong_of_step {before left : List Token} {lists : OpenLists} {reversed : List Expr} {t : Token}
    {cause : Malformed} (h : ReadTo before lists reversed) (hs : lists.step t = .error cause) :
    GoesWrong (before ++ t :: left) (before.length + 1) cause where
  hopeless := by
    have ht : (before ++ t :: left).take (before.length + 1) = before ++ [t] := by
      rw [List.take_length_add_append, List.take_succ_cons, List.take_zero]
    rw [ht]
    exact not_viable_of_step h hs
  viable := by
    have ht : (before ++ t :: left).take (before.length + 1 - 1) = before := by simp
    rw [ht]
    exact viable_of_readTo h
  blamed := blames_of_step h hs

end OpenLists

namespace Cursor

theorem forms_ne_noForm (c : Cursor) : c.forms.1 ≠ .error (.malformed .noForm) := by
  show (OpenLists.readForms [] [] c.rest).1.mapError Error.malformed ≠ _
  rcases OpenLists.readForms_cases c.rest [] [] [] .start with ⟨es, _, hr⟩ | ⟨l, outer, _, _, hr⟩ |
    ⟨before, t, left, lists, _, cause, _, _, hs, hr⟩
  · rw [hr]
    intro h
    cases h
  · rw [hr]
    intro h
    cases h
  · rw [hr]
    intro h
    cases h
    rcases OpenLists.step_eq_error hs with ⟨_, hn⟩ | ⟨_, _, _, _, _, hn⟩ | hn
    · cases hn
    · cases hn
    · cases hn

/-- **Errors are found at the first token that cannot be mended.**  Where reading fails, either the tokens ran out inside
a list, and are the beginning of a program all the same, or the cursor stands behind a token with which they are not,
though they were up to it.  The error gives the place of the token to blame. -/
theorem forms_fail_fast {tokens : List Token} {e : Error} {c : Cursor}
    (h : (Cursor.ofTokens tokens).forms = (.error e, c)) :
    (∃ cause, e = .malformed cause ∧ (BreaksOff tokens c.position cause ∨ GoesWrong tokens c.position cause) ∧
      ¬ (BreaksOff tokens c.position cause ∧ GoesWrong tokens c.position cause)) ∧
    ∀ c' : Cursor, c'.forms.1 ≠ .error (.malformed .noForm) := by
  refine ⟨?_, forms_ne_noForm⟩
  have hforms : (Cursor.ofTokens tokens).forms =
      ((OpenLists.readForms [] [] tokens).1.mapError .malformed, ⟨tokens, (OpenLists.readForms [] [] tokens).2⟩) := rfl
  rw [hforms] at h
  have hexclusive : ∀ p cause, ¬ (BreaksOff tokens p cause ∧ GoesWrong tokens p cause) := by
    rintro p cause ⟨ha, hb⟩
    apply hb.hopeless
    rw [ha.place, List.take_length]
    exact ha.viable
  rcases OpenLists.readForms_cases tokens [] [] [] .start with ⟨es, _, hr⟩ | ⟨l, outer, reversed, hread, hr⟩ |
    ⟨before, t, left, lists, reversed, cause, rfl, hread, hs, hr⟩
  · rw [hr] at h
    cases h
  · rw [hr] at h
    cases h
    refine ⟨_, rfl, .inl ?_, hexclusive _ _⟩
    exact OpenLists.breaksOff_of_readTo hread
  · rw [hr] at h
    cases h
    refine ⟨cause, rfl, .inr ?_, hexclusive _ _⟩
    have hp : position ⟨before ++ t :: left, left⟩ = before.length + 1 := by
      simp only [position, List.length_append, List.length_cons]
      omega
    rw [hp]
    exact OpenLists.goesWrong_of_step hread hs

/-- An empty list inside the parameters of a `lambda`, where only the parameters themselves may be empty. -/
theorem forms_fail_fast_parameters :
    (Cursor.ofTokens (tokenize "(f 1)\n(lambda (()) x)")).forms =
      (.error (.malformed (.emptyForm ⟨2, 10⟩)),
        ⟨tokenize "(f 1)\n(lambda (()) x)", [⟨")", ⟨2, 12⟩⟩, ⟨"x", ⟨2, 14⟩⟩, ⟨")", ⟨2, 15⟩⟩]⟩) ∧
    ∃ cause, Error.malformed (.emptyForm ⟨2, 10⟩) = .malformed cause ∧
      (BreaksOff (tokenize "(f 1)\n(lambda (()) x)") 9 cause ∨ GoesWrong (tokenize "(f 1)\n(lambda (()) x)") 9 cause) ∧
      ¬ (BreaksOff (tokenize "(f 1)\n(lambda (()) x)") 9 cause ∧
        GoesWrong (tokenize "(f 1)\n(lambda (()) x)") 9 cause) := by
  have h : (Cursor.ofTokens (tokenize "(f 1)\n(lambda (()) x)")).forms =
      (.error (.malformed (.emptyForm ⟨2, 10⟩)),
        ⟨tokenize "(f 1)\n(lambda (()) x)", [⟨")", ⟨2, 12⟩⟩, ⟨"x", ⟨2, 14⟩⟩, ⟨")", ⟨2, 15⟩⟩]⟩) := rfl
  exact ⟨h, (forms_fail_fast h).1⟩

end Cursor
end Lisplet
