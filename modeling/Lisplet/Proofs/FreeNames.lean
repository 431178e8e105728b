import Lisplet.Proofs.Frame
/-!
# The names that expressions take from outside

A symbol is a variable from outside unless it is the target of a definition or a parameter.  `Expr.free` lists these
names, and the parts that an evaluation goes into take no others from outside than the whole does, parameters apart
(`ClosedOver.of_define` and its neighbours).  In a program each form may use what the forms before it define, and a form
that defines a function may use the name of the function.
-/
namespace Lisplet

/-! ## Expressions -/

namespace Expr

mutual

/-- The symbols of an expression, without the targets of definitions and the parameters of functions; in the body of a
function its parameters are left out too. -/
def free : Expr → List String
  | .num _ => []
  | .keyword _ => []
  | .symbol name => [name]
  | .list (.keyword .define :: .symbol _ :: operands) => freeItems operands
  | .list (.keyword .lambda :: .list params :: operands) =>
    (freeItems operands).filter (· ∉ params.filterMap symbol?)
  | .list items => freeItems items

def freeItems : List Expr → List String
  | [] => []
  | e :: rest => e.free ++ freeItems rest

end

theorem mem_freeItems {name : String} {es : List Expr} : name ∈ freeItems es ↔ ∃ e ∈ es, name ∈ e.free := by
  induction es with
  | nil => simp [freeItems]
  | cons e rest ih => simp [freeItems, ih]

def ClosedOver (names : String → Prop) (e : Expr) : Prop :=
  ∀ name ∈ e.free, names name

section ClosedOver

variable {names names' : String → Prop} {e : Expr}

theorem ClosedOver.mono (h : e.ClosedOver names) (hn : ∀ name, names name → names' name) : e.ClosedOver names' :=
  fun name hname => hn name (h name hname)

theorem ClosedOver.of_define {name : String} {value : Expr} (hf : e.form = .ok (.define name value))
    (h : e.ClosedOver names) : value.ClosedOver names := by
  rw [eq_of_form_define hf] at h
  intro other hother
  exact h other (by simpa [free, freeItems] using hother)

theorem ClosedOver.of_branch {c a b part : Expr} (hf : e.form = .ok (.branch c a b)) (hm : part ∈ [c, a, b])
    (h : e.ClosedOver names) : part.ClosedOver names := by
  rw [eq_of_form_branch hf] at h
  intro name hname
  refine h name ?_
  rw [free]
  · exact mem_freeItems.2 ⟨part, List.mem_cons_of_mem _ hm, hname⟩
  · simp
  · simp

theorem parametersFrom_eq_ok : ∀ {params : List Expr} {seen found : List String},
    Form.parametersFrom seen params = .ok found → found = seen.reverse ++ params.filterMap symbol?
  | [], seen, found, h => by
    cases h
    simp
  | e :: rest, seen, found, h => by
    rw [Form.parametersFrom] at h
    cases hs : e.symbol? with
    | none => simp [hs] at h
    | some name =>
      simp only [hs] at h
      split at h
      · cases h
      · rw [parametersFrom_eq_ok h, List.filterMap_cons_some hs]
        simp

theorem ClosedOver.of_lambda {params : List String} {body : Expr} (hf : e.form = .ok (.lambda params body))
    (h : e.ClosedOver names) : body.ClosedOver fun name => names name ∨ name ∈ params := by
  obtain ⟨items, rfl, hparams⟩ := eq_of_form_lambda hf
  have hfound : params = items.filterMap symbol? := parametersFrom_eq_ok hparams
  intro name hname
  by_cases hp : name ∈ params
  · exact .inr hp
  · rw [hfound] at hp
    refine .inl (h name ?_)
    rw [free, List.mem_filter]
    exact ⟨by simpa [freeItems] using hname, by simpa using hp⟩

theorem ClosedOver.of_call {head part : Expr} {operands : List Expr} (hf : e.form = .ok (.call head operands))
    (hm : part ∈ head :: operands) (h : e.ClosedOver names) : part.ClosedOver names := by
  have hkeyword := head_ne_keyword_of_form hf
  rw [eq_of_form_call hf] at h
  intro name hname
  refine h name ?_
  rw [free]
  · exact mem_freeItems.2 ⟨part, hm, hname⟩
  · intro _ _ he
    exact hkeyword _ (List.cons.inj he).1
  · intro _ _ he
    exact hkeyword _ (List.cons.inj he).1

end ClosedOver

/-! ## Programs -/

def target? : Expr → Option String
  | .list (.keyword .define :: .symbol name :: _) => some name
  | _ => none

def functionName? : Expr → Option String
  | .list [.keyword .define, .symbol name, .list (.keyword .lambda :: _)] => some name
  | _ => none

end Expr

/-- **Each form is closed over the names given, those that the forms before it define, and its own name if it defines a
function.** -/
def ClosedProgram (names : String → Prop) (program : List Expr) : Prop :=
  ∀ before form after, program = before ++ form :: after →
    form.ClosedOver fun name => names name ∨ (∃ e ∈ before, e.target? = some name) ∨ form.functionName? = some name

section ClosedProgram

variable {names names' : String → Prop}

theorem ClosedProgram.mono {program : List Expr} (h : ClosedProgram names program)
    (hn : ∀ name, names name → names' name) : ClosedProgram names' program := by
  intro before form after hprogram
  exact (h before form after hprogram).mono fun name hname => hname.imp_left (hn name)

theorem closedProgram_nil : ClosedProgram names [] := by
  intro before form after hprogram
  cases before <;> cases hprogram

theorem closedProgram_cons {form : Expr} {rest : List Expr} :
    ClosedProgram names (form :: rest) ↔
      (form.ClosedOver fun name => names name ∨ form.functionName? = some name) ∧
      ClosedProgram (fun name => names name ∨ form.target? = some name) rest := by
  constructor
  · intro h
    refine ⟨(h [] form rest rfl).mono fun name hname => ?_, fun before e after hrest => ?_⟩
    · simpa using hname
    · rw [hrest] at h
      refine (h (form :: before) e after rfl).mono fun name hname => ?_
      simpa [or_assoc] using hname
  · rintro ⟨hform, hrest⟩ before e after hprogram
    cases before with
    | nil =>
      cases hprogram
      exact hform.mono fun name hname => by simpa using hname
    | cons first before =>
      cases hprogram
      refine (hrest before e after rfl).mono fun name hname => ?_
      simpa [or_assoc] using hname

end ClosedProgram
end Lisplet
