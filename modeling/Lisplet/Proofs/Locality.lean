import Lisplet.Proofs.ValidPrefix
/-!
# Forms are read one by one

A form ends with the token that completes it: no token behind that one is looked at, and none before it completes
anything.  `Completes` says so of a run of tokens, and reading a form finds such a run at its cursor or stops at an
error (`exists_completes_of_readForm`).  Either way it takes at least one token if there is one (`readForm_suffix`).

All the forms from a cursor on are therefore those that are read by taking one form after the other, up to the first
error (`forms_eq_formByForm`), and forms that are read to the end have no influence on what is read behind them
(`readForms_append`).
-/
namespace Lisplet

namespace OpenLists

variable {lists : OpenLists} {used tokens rest : List Token} {t : Token} {e : Expr}

/-! ## The tokens of one form -/

/-- **The tokens complete a form**: the last of them ends it, and none before.  The lists are those open at the
first. -/
inductive Completes : OpenLists → List Token → Expr → Prop where
  | last {lists : OpenLists} {t : Token} {e : Expr} (hs : lists.step t = .ok (.form e)) : Completes lists [t] e
  | more {lists lists' : OpenLists} {t : Token} {used : List Token} {e : Expr}
    (hs : lists.step t = .ok (.partway lists')) (h : Completes lists' used e) : Completes lists (t :: used) e

theorem Completes.ne_nil (h : Completes lists used e) : used ≠ [] := by
  cases h with
  | last => exact List.cons_ne_nil _ _
  | more => exact List.cons_ne_nil _ _

theorem readForm_of_completes (h : Completes lists used e) (after : List Token) :
    readForm lists (used ++ after) = (.ok e, after) := by
  induction h with
  | last hs => rw [List.singleton_append, readForm, hs]
  | more hs _ ih =>
    rw [List.cons_append, readForm, hs]
    exact ih

theorem readForm_of_proper_prefix (h : Completes lists used e) :
    ∀ front, front <+: used → front ≠ used → ∃ cause, readForm lists front = (.error cause, []) := by
  induction h with
  | last hs =>
    intro front hf hne
    rcases List.prefix_cons_iff.1 hf with rfl | ⟨more, rfl, hm⟩
    · exact ⟨_, rfl⟩
    · rw [List.prefix_nil.1 hm] at hne
      exact absurd rfl hne
  | @more _ _ t used _ hs _ ih =>
    intro front hf hne
    rcases List.prefix_cons_iff.1 hf with rfl | ⟨more, rfl, hm⟩
    · exact ⟨_, rfl⟩
    · obtain ⟨cause, hcause⟩ := ih more hm (fun he => hne (by rw [he]))
      refine ⟨cause, ?_⟩
      rw [readForm, hs]
      exact hcause

/-- **A form that is read has been completed** by the tokens taken. -/
theorem exists_completes_of_readForm : ∀ (tokens : List Token) (lists : OpenLists),
    readForm lists tokens = (.ok e, rest) → ∃ used, tokens = used ++ rest ∧ Completes lists used e
  | [], lists, h => by cases h
  | t :: tokens, lists, h => by
    rw [readForm] at h
    cases hs : lists.step t with
    | error cause => rw [hs] at h; cases h
    | ok progress =>
      cases progress with
      | form e' =>
        rw [hs] at h
        cases h
        exact ⟨[t], rfl, .last hs⟩
      | partway lists' =>
        rw [hs] at h
        obtain ⟨used, rfl, hc⟩ := exists_completes_of_readForm tokens lists' h
        exact ⟨t :: used, rfl, .more hs hc⟩

theorem readForm_suffix : ∀ (tokens : List Token) (lists : OpenLists), (readForm lists tokens).2 <:+ tokens.tail
  | [], lists => List.nil_suffix
  | t :: rest, lists => by
    rw [readForm, List.tail_cons]
    cases lists.step t with
    | error cause => exact List.suffix_rfl
    | ok progress =>
      cases progress with
      | form e => exact List.suffix_rfl
      | partway lists' => exact (readForm_suffix rest lists').trans (List.tail_suffix rest)

/-! ## All the forms -/

theorem ne_nil_of_step {lists' : OpenLists} (hs : lists.step t = .ok (.partway lists')) : lists' ≠ [] := by
  rintro rfl
  rcases step_eq_ok hs with ⟨_, h⟩ | ⟨e, _, h⟩ | ⟨l, outer, _, _, _, h⟩
  · cases h
  · cases lists <;> cases h
  · cases outer <;> cases h

theorem readForms_eq_readForm : ∀ (tokens : List Token) (lists : OpenLists) (reversed : List Expr),
    lists ≠ [] ∨ tokens ≠ [] →
    readForms lists reversed tokens =
      match readForm lists tokens with
      | (.error cause, rest) => (.error cause, rest)
      | (.ok e, rest) => readForms [] (e :: reversed) rest
  | [], [], reversed, h => by simp at h
  | [], l :: outer, reversed, h => by rw [readForms, readForm]
  | t :: rest, lists, reversed, h => by
    rw [readForm]
    cases hs : lists.step t with
    | error cause => exact readForms_cons_error hs rest
    | ok progress =>
      rw [readForms_cons_ok hs]
      cases progress with
      | form e => rfl
      | partway lists' => exact readForms_eq_readForm rest lists' reversed (.inl (ne_nil_of_step hs))

theorem readForms_suffix : ∀ (tokens : List Token) (lists : OpenLists) (reversed : List Expr),
    (readForms lists reversed tokens).2 <:+ tokens
  | [], [], reversed => List.nil_suffix
  | [], l :: outer, reversed => List.nil_suffix
  | t :: rest, lists, reversed => by
    cases hs : lists.step t with
    | error cause =>
      rw [readForms_cons_error hs]
      exact List.suffix_cons t rest
    | ok progress =>
      rw [readForms_cons_ok hs]
      exact (readForms_suffix rest _ _).trans (List.suffix_cons t rest)

theorem forms_eq_append (progress : Progress) (reversed : List Expr) :
    progress.forms reversed = progress.forms [] ++ reversed := by
  cases progress with
  | partway lists => rfl
  | form e => rfl

theorem readForms_reversed : ∀ (tokens : List Token) (lists : OpenLists) (reversed : List Expr),
    readForms lists reversed tokens =
      ((readForms lists [] tokens).1.map (reversed.reverse ++ ·), (readForms lists [] tokens).2)
  | [], [], reversed => by simp [readForms, Except.map]
  | [], l :: outer, reversed => by simp [readForms, Except.map]
  | t :: rest, lists, reversed => by
    cases hs : lists.step t with
    | error cause =>
      rw [readForms_cons_error hs, readForms_cons_error hs]
      rfl
    | ok progress =>
      have hall := readForms_reversed rest progress.lists (progress.forms reversed)
      have hnone := readForms_reversed rest progress.lists (progress.forms [])
      rw [readForms_cons_ok hs, readForms_cons_ok hs, hall, hnone, forms_eq_append progress reversed]
      cases (readForms progress.lists [] rest).1 with
      | error cause => rfl
      | ok es => simp [Except.map]

/-- **Behind tokens that are read as forms, reading starts afresh.** -/
theorem readForms_append {front : List Token} {es : List Expr} (h : (readForms [] [] front).1 = .ok es)
    (rest : List Token) :
    readForms [] [] (front ++ rest) = ((readForms [] [] rest).1.map (es ++ ·), (readForms [] [] rest).2) := by
  rcases readForms_cases front [] [] [] .start with ⟨es', hread, hr⟩ | ⟨l, outer, _, _, hr⟩ |
    ⟨_, _, _, _, _, cause, _, _, _, hr⟩
  · rw [hr] at h
    cases h
    have hfront := readForms_of_readTo hread rest
    rw [List.nil_append] at hfront
    rw [hfront, readForms_reversed, List.reverse_reverse]
  · rw [hr] at h
    cases h
  · rw [hr] at h
    cases h

end OpenLists

namespace Cursor

/-! ## Cursors -/

def atPlace (tokens : List Token) (k : Nat) : Cursor :=
  ⟨tokens, tokens.drop k⟩

theorem eq_atPlace_position {c : Cursor} (h : c.rest <:+ c.tokens) : c = atPlace c.tokens c.position := by
  rw [atPlace, position, ← List.suffix_iff_eq_drop.1 h]

theorem form_eq (c : Cursor) :
    c.form = ((OpenLists.readForm [] c.rest).1.mapError .malformed,
      ⟨c.tokens, (OpenLists.readForm [] c.rest).2⟩) := rfl

theorem forms_eq (c : Cursor) :
    c.forms = ((OpenLists.readForms [] [] c.rest).1.mapError .malformed,
      ⟨c.tokens, (OpenLists.readForms [] [] c.rest).2⟩) := rfl

theorem length_rest_form {c : Cursor} (h : c.isAtEnd = false) : c.form.2.rest.length < c.rest.length := by
  have hs := (OpenLists.readForm_suffix c.rest []).length_le
  have hne : c.rest ≠ [] := List.isEmpty_eq_false_iff.1 h
  have hpos := List.length_pos_iff.2 hne
  rw [List.length_tail] at hs
  show (OpenLists.readForm [] c.rest).2.length < _
  omega

theorem forms_of_isAtEnd {c : Cursor} (h : c.isAtEnd = true) : c.forms = (.ok [], c) := by
  obtain ⟨tokens, rest⟩ := c
  obtain rfl : rest = [] := List.isEmpty_iff.1 h
  rfl

theorem forms_of_not_isAtEnd {c : Cursor} (h : c.isAtEnd = false) :
    c.forms =
      match c.form.1 with
      | .error e => (.error e, c.form.2)
      | .ok form => (c.form.2.forms.1.map (form :: ·), c.form.2.forms.2) := by
  have hne : c.rest ≠ [] := List.isEmpty_eq_false_iff.1 h
  rw [forms_eq, OpenLists.readForms_eq_readForm c.rest [] [] (.inr hne), form_eq]
  cases OpenLists.readForm [] c.rest with
  | mk result rest =>
    cases result with
    | error cause => rfl
    | ok form =>
      simp only [forms_eq, OpenLists.readForms_reversed rest [] [form]]
      cases (OpenLists.readForms [] [] rest).1 with
      | error cause => rfl
      | ok others => rfl

/-- **One form after the other**, until the cursor is at the end or a form cannot be read. -/
def formByForm (c : Cursor) : Except Error (List Expr) × Cursor :=
  if c.isAtEnd then
    (.ok [], c)
  else
    match c.form.1 with
    | .error e => (.error e, c.form.2)
    | .ok form =>
      let (others, last) := c.form.2.formByForm
      (others.map (form :: ·), last)
termination_by c.rest.length
decreasing_by exact length_rest_form (Bool.eq_false_iff.2 ‹_›)

theorem forms_eq_formByForm (c : Cursor) : c.forms = c.formByForm := by
  fun_induction formByForm c with
  | case1 c h => exact forms_of_isAtEnd h
  | case2 c h e he => rw [forms_of_not_isAtEnd (Bool.eq_false_iff.2 h), he]
  | case3 c h form hform others last hrec ih =>
    rw [hrec] at ih
    rw [forms_of_not_isAtEnd (Bool.eq_false_iff.2 h), hform, ih]

/-- **The form `e` is what the tokens between two places say**: they say it wherever they stand, whatever follows them,
and no beginning of them is a form. -/
structure FormBetween (tokens : List Token) (k k' : Nat) (e : Expr) : Prop where
  advances : k < k'
  within : k' ≤ tokens.length
  anywhere : ∀ before after : List Token,
    (atPlace (before ++ tokens.extract k k' ++ after) before.length).form =
      (.ok e, atPlace (before ++ tokens.extract k k' ++ after) (before.length + (k' - k)))
  minimal : ∀ front, front <+: tokens.extract k k' → front ≠ tokens.extract k k' →
    ∃ err, (ofTokens front).form.1 = .error err

theorem formBetween_of_completes {tokens used rest : List Token} {k : Nat} {e : Expr}
    (hd : tokens.drop k = used ++ rest) (hc : OpenLists.Completes [] used e) :
    FormBetween tokens k (position ⟨tokens, rest⟩) e := by
  have hpos := List.length_pos_iff.2 hc.ne_nil
  have hlen := congrArg List.length hd
  rw [List.length_drop, List.length_append] at hlen
  have hk' : position ⟨tokens, rest⟩ = k + used.length := by
    show tokens.length - rest.length = _
    omega
  have hx : tokens.extract k (k + used.length) = used := by
    rw [List.extract_eq_take_drop, Nat.add_sub_cancel_left, hd, List.take_left]
  rw [hk']
  refine ⟨by omega, by omega, fun before after => ?_, fun front hf hne => ?_⟩
  · have hdrop : (before ++ (used ++ after)).drop (before.length + used.length) = after := by
      rw [List.drop_length_add_append, List.drop_left]
    rw [hx, Nat.add_sub_cancel_left, List.append_assoc, form_eq, atPlace, List.drop_left,
      OpenLists.readForm_of_completes hc, atPlace, hdrop]
    rfl
  · rw [hx] at hf hne
    obtain ⟨cause, hcause⟩ := OpenLists.readForm_of_proper_prefix hc front hf hne
    refine ⟨.malformed cause, ?_⟩
    show (OpenLists.readForm [] front).1.mapError Error.malformed = _
    rw [hcause]
    rfl

theorem form_moves {tokens : List Token} {k : Nat} {result : Except Error Expr} {c : Cursor}
    (h : (atPlace tokens k).form = (result, c)) :
    c = atPlace tokens c.position ∧ (k < tokens.length → k < c.position) ∧ c.position ≤ tokens.length := by
  have hs : c.rest <:+ (tokens.drop k).tail := by
    rw [← congrArg (fun p => p.2.rest) h]
    exact OpenLists.readForm_suffix (tokens.drop k) []
  have ht : c.tokens = tokens := congrArg (fun p => p.2.tokens) h.symm
  have hlen := hs.length_le
  rw [List.length_tail, List.length_drop] at hlen
  have hwhole : c.rest <:+ c.tokens := by
    rw [ht]
    exact hs.trans ((List.tail_suffix _).trans (List.drop_suffix k tokens))
  have heq := eq_atPlace_position hwhole
  rw [ht] at heq
  refine ⟨heq, fun hk => ?_, ?_⟩
  · rw [position, ht]
    omega
  · rw [position, ht]
    exact Nat.sub_le _ _

theorem form_eq_ok {c c' : Cursor} {e : Expr} (h : c.form = (.ok e, c')) :
    OpenLists.readForm [] c.rest = (.ok e, c'.rest) := by
  rw [form_eq] at h
  cases hr : OpenLists.readForm [] c.rest with
  | mk result rest =>
    rw [hr] at h
    cases result with
    | error cause => cases h
    | ok form => cases h; rfl

/-- **Behind tokens that are read as forms, the cursor reads as if it started there.** -/
theorem forms_append {t₁ : List Token} {f₁ : List Expr} (h : (ofTokens t₁).forms.1 = .ok f₁) (t₂ : List Token) :
    (ofTokens (t₁ ++ t₂)).forms =
      ((ofTokens t₂).forms.1.map (f₁ ++ ·), atPlace (t₁ ++ t₂) (t₁.length + (ofTokens t₂).forms.2.position)) := by
  have hread := OpenLists.readForms_append ((forms_eq_ok_iff_readForms _ f₁).1 h) t₂
  have hplace := eq_atPlace_position (c := (ofTokens t₂).forms.2) (OpenLists.readForms_suffix t₂ [] [])
  have hrest : (t₁ ++ t₂).drop (t₁.length + (ofTokens t₂).forms.2.position) = (ofTokens t₂).forms.2.rest := by
    rw [List.drop_length_add_append]
    exact (congrArg Cursor.rest hplace).symm
  rw [atPlace, hrest, forms_eq, forms_eq]
  simp only [ofTokens] at hread ⊢
  rw [hread]
  cases (OpenLists.readForms [] [] t₂).1 with
  | error cause => rfl
  | ok es => rfl

/-- **Forms are read one by one.**  A form that is read ends behind the cursor, is said by the tokens taken alone and
by no beginning of them; a form that cannot be read still moves the cursor, unless that is at the end.  All the forms
are the forms read one after the other up to the first error, so tokens that are read as forms make no difference to
what is read behind them. -/
theorem forms_one_by_one (tokens : List Token) (k : Nat) :
    (∀ e c, (atPlace tokens k).form = (.ok e, c) →
      c = atPlace tokens c.position ∧ FormBetween tokens k c.position e) ∧
    (∀ err c, (atPlace tokens k).form = (.error err, c) → k < tokens.length →
      c = atPlace tokens c.position ∧ k < c.position ∧ c.position ≤ tokens.length) ∧
    (atPlace tokens k).forms = (atPlace tokens k).formByForm ∧
    (∀ t₁ t₂ f₁, (ofTokens t₁).forms.1 = .ok f₁ →
      (ofTokens (t₁ ++ t₂)).forms =
        ((ofTokens t₂).forms.1.map (f₁ ++ ·), atPlace (t₁ ++ t₂) (t₁.length + (ofTokens t₂).forms.2.position))) := by
  refine ⟨fun e c h => ?_, fun err c h hk => ?_, forms_eq_formByForm _, fun t₁ t₂ f₁ h => forms_append h t₂⟩
  · obtain ⟨hplace, _, _⟩ := form_moves h
    obtain ⟨used, hd, hc⟩ := OpenLists.exists_completes_of_readForm _ _ (form_eq_ok h)
    have hform := formBetween_of_completes hd hc
    have hat : c = ⟨tokens, c.rest⟩ := by rw [hplace]; rfl
    rw [← hat] at hform
    exact ⟨hplace, hform⟩
  · obtain ⟨hplace, hmoves, hle⟩ := form_moves h
    exact ⟨hplace, hmoves hk, hle⟩

/-- A form, the unmatched parenthesis behind it, and the two as one sequence. -/
theorem forms_one_by_one_stray :
    (atPlace (tokenize "(f 1) (lambda () x))") 4).form.1 =
      .ok (.list [.keyword .lambda, .list [], .symbol "x"]) ∧
    FormBetween (tokenize "(f 1) (lambda () x))") 4 10 (.list [.keyword .lambda, .list [], .symbol "x"]) ∧
    10 < (atPlace (tokenize "(f 1) (lambda () x))") 10).form.2.position ∧
    (ofTokens (tokenize "(f 1)" ++ tokenize ")")).forms =
      (.error (.malformed (.strayClose ⟨1, 1⟩)), atPlace (tokenize "(f 1)" ++ tokenize ")") 5) := by
  have hform : (atPlace (tokenize "(f 1) (lambda () x))") 4).form =
      (.ok (.list [.keyword .lambda, .list [], .symbol "x"]), atPlace (tokenize "(f 1) (lambda () x))") 10) := rfl
  have hstray : (atPlace (tokenize "(f 1) (lambda () x))") 10).form =
      (.error (.malformed (.strayClose ⟨1, 20⟩)), atPlace (tokenize "(f 1) (lambda () x))") 11) := rfl
  have hfirst : (ofTokens (tokenize "(f 1)")).forms.1 = .ok [.list [.symbol "f", .num (.int 1)]] := rfl
  refine ⟨by rw [hform], ((forms_one_by_one _ 4).1 _ _ hform).2, ?_, (forms_one_by_one [] 0).2.2.2 _ _ _ hfirst⟩
  rw [hstray]
  exact ((forms_one_by_one _ 10).2.1 _ _ hstray (by decide)).2.1

end Cursor
end Lisplet
