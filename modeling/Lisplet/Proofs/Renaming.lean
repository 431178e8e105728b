import Lisplet.Proofs.Whole
import Mathlib.Logic.Function.Basic
/-!
# Other names for variables

A renaming gives every variable another name, no two of them the same.  It is carried out in expressions, in the values
that hold names (aliases and closures) and in all scopes of a store; keywords are no names, and a tool keeps what it does
under whatever name it is bound.

Nothing looks at a name except to see whether it is the same as another, so each operation does to renamed arguments what
it does to the arguments themselves, renamed: expressions have the same form (`Expr.form_rename`), names resolve to the
same value (`Store.resolve_rename`), and operators give the same result (`Operator.run_rename`).
-/
namespace Lisplet

variable {ε : Type} (r : String → String)

/-! ## Expressions -/

namespace Expr

mutual

def rename (r : String → String) : Expr → Expr
  | .num n => .num n
  | .keyword k => .keyword k
  | .symbol name => .symbol (r name)
  | .list items => .list (renameItems r items)

def renameItems (r : String → String) : List Expr → List Expr
  | [] => []
  | e :: rest => e.rename r :: renameItems r rest

end

theorem renameItems_eq_map (es : List Expr) : renameItems r es = es.map (rename r) := by
  induction es with
  | nil => rfl
  | cons e rest ih => rw [renameItems, ih, List.map_cons]

@[simp] theorem length_renameItems (es : List Expr) : (renameItems r es).length = es.length := by
  rw [renameItems_eq_map, List.length_map]

theorem symbol?_rename (e : Expr) : (e.rename r).symbol? = e.symbol?.map r := by
  cases e <;> simp [rename, symbol?]

end Expr

/-! ## Forms -/

def Malformed.rename : Malformed → Malformed
  | .defineTarget target => .defineTarget (target.rename r)
  | .lambdaParameters found => .lambdaParameters (found.rename r)
  | .lambdaParameter found => .lambdaParameter (found.rename r)
  | .duplicateParameter name => .duplicateParameter (r name)
  | .notCallable head kind => .notCallable (head.rename r) kind
  | .aliasCycle name => .aliasCycle (r name)
  | cause => cause

def Form.rename : Form → Form
  | .constant n => .constant n
  | .reference name => .reference (r name)
  | .define name value => .define (r name) (value.rename r)
  | .branch condition consequent alternative =>
    .branch (condition.rename r) (consequent.rename r) (alternative.rename r)
  | .lambda params body => .lambda (params.map r) (body.rename r)
  | .call head operands => .call (head.rename r) (Expr.renameItems r operands)

namespace Form

variable {r} (hr : Function.Injective r)

include hr in
theorem parametersFrom_rename : ∀ (seen : List String) (es : List Expr),
    parametersFrom (seen.map r) (Expr.renameItems r es) =
      ((parametersFrom seen es).map (List.map r)).mapError (Malformed.rename r)
  | seen, [] => by simp [Expr.renameItems, parametersFrom, Except.map, Except.mapError]
  | seen, e :: rest => by
    rw [Expr.renameItems, parametersFrom, parametersFrom, Expr.symbol?_rename]
    cases e.symbol? with
    | none => rfl
    | some name =>
      have hmem : r name ∈ seen.map r ↔ name ∈ seen := by simp [hr.eq_iff]
      by_cases h : name ∈ seen
      · simp [hmem, h, Except.map, Except.mapError, Malformed.rename]
      · simpa [hmem, h] using parametersFrom_rename (name :: seen) rest

theorem ofDefine_rename : ∀ operands : List Expr,
    ofDefine (Expr.renameItems r operands) = ((ofDefine operands).map (rename r)).mapError (Malformed.rename r)
  | [] | [_] => rfl
  | [target, value] => by
    simp only [Expr.renameItems, ofDefine, Expr.symbol?_rename]
    cases target.symbol? with
    | none => rfl
    | some name => rfl
  | _ :: _ :: _ :: _ => by simp [Expr.renameItems, ofDefine, Except.map, Except.mapError, Malformed.rename]

theorem ofBranch_rename : ∀ operands : List Expr,
    ofBranch (Expr.renameItems r operands) = ((ofBranch operands).map (rename r)).mapError (Malformed.rename r)
  | [] | [_] | [_, _] | [_, _, _] => rfl
  | _ :: _ :: _ :: _ :: _ => by simp [Expr.renameItems, ofBranch, Except.map, Except.mapError, Malformed.rename]

include hr in
theorem ofLambda_rename : ∀ operands : List Expr,
    ofLambda (Expr.renameItems r operands) = ((ofLambda operands).map (rename r)).mapError (Malformed.rename r)
  | [] | [.num _] | [.keyword _] | [.symbol _] | [.list _] => rfl
  | [.num _, _] | [.keyword _, _] | [.symbol _, _] => rfl
  | [.list params, body] => by
    have hp := parametersFrom_rename hr [] params
    simp only [Expr.renameItems, Expr.rename, ofLambda, List.map_nil] at hp ⊢
    rw [hp]
    cases parametersFrom [] params with
    | error cause => rfl
    | ok names => rfl
  | _ :: _ :: _ :: _ => by simp [Expr.renameItems, ofLambda, Except.map, Except.mapError, Malformed.rename]

end Form

variable {r} (hr : Function.Injective r)

include hr in
/-- **The form of a renamed expression is the form of the expression, renamed**, and so is a fault of its shape. -/
theorem Expr.form_rename :
    ∀ e : Expr, (e.rename r).form = (e.form.map (Form.rename r)).mapError (Malformed.rename r)
  | .num _ | .symbol _ | .keyword _ | .list [] => rfl
  | .list (.keyword .define :: operands) => Form.ofDefine_rename operands
  | .list (.keyword .branch :: operands) => Form.ofBranch_rename operands
  | .list (.keyword .lambda :: operands) => Form.ofLambda_rename hr operands
  | .list (.num _ :: _) | .list (.symbol _ :: _) | .list (.list _ :: _) => rfl

include hr in
theorem Expr.form_rename_ok {e : Expr} {f : Form} (h : e.form = .ok f) : (e.rename r).form = .ok (f.rename r) := by
  rw [form_rename hr, h]
  rfl

include hr in
theorem Expr.form_rename_error {e : Expr} {cause : Malformed} (h : e.form = .error cause) :
    (e.rename r).form = .error (cause.rename r) := by
  rw [form_rename hr, h]
  rfl

/-! ## Values -/

variable (r)

def Closure.rename (c : Closure) : Closure :=
  { c with params := c.params.map r, body := c.body.rename r }

namespace Value

def rename : Value ε → Value ε
  | .symbol name => .symbol (r name)
  | .closure c => .closure (c.rename r)
  | v => v

@[simp] theorem kind_rename (v : Value ε) : (v.rename r).kind = v.kind := by
  cases v <;> rfl

@[simp] theorem isTruthy_rename (v : Value ε) : (v.rename r).isTruthy = v.isTruthy := by
  cases v <;> rfl

@[simp] theorem number_rename (v : Value ε) : (v.rename r).number = v.number := by
  cases v <;> rfl

theorem alias?_rename (v : Value ε) : (v.rename r).alias? = v.alias?.map r := by
  cases v <;> rfl

include hr in
theorem rename_beq_rename [Named ε] (v w : Value ε) : (v.rename r == w.rename r) = (v == w) := by
  cases v with
  | symbol a =>
    cases w with
    | symbol b =>
      show (r a == r b) = (a == b)
      rw [Bool.eq_iff_iff, beq_iff_eq, beq_iff_eq]
      exact hr.eq_iff
    | null | bool | num | closure | builtin => rfl
  | null | bool | num | closure | builtin => cases w <;> rfl

end Value

def Callable.rename : Callable ε → Callable ε
  | .closure c => .closure (c.rename r)
  | .builtin tool => .builtin tool

theorem Value.callable?_rename (v : Value ε) : (v.rename r).callable? = v.callable?.map (Callable.rename r) := by
  cases v <;> rfl

/-- An error with the names that it speaks of renamed; the name under which a call is reported is left as it is. -/
def Error.rename : Error → Error
  | .malformed cause => .malformed (cause.rename r)
  | .unbound name => .unbound (r name)
  | e => e

theorem Operator.Fault.rename_eq {e : Error} (h : Fault e) : e.rename r = e := by
  cases h <;> rfl

include hr in
theorem Operator.run_rename [Named ε] (op : Operator) (args : List (Value ε)) :
    op.run (args.map (Value.rename r)) = ((op.run args).map (Value.rename r)).mapError (Error.rename r) := by
  have hfaults := op.faults_run args
  rw [run_map (Value.number_rename r) (Value.rename_beq_rename r hr)]
  cases hrun : op.run args with
  | error e => simp only [Except.map, Except.mapError, (hfaults e hrun).rename_eq]
  | ok v =>
    rcases run_eq_ok hrun with ⟨n, rfl⟩ | ⟨b, rfl⟩
    · rfl
    · rfl

/-! ## Scopes and stores -/

namespace Bindings

def rename (bs : Bindings ε) : Bindings ε :=
  bs.map fun b => (r b.1, b.2.rename r)

variable {r}

include hr in
theorem find?_rename (name : String) :
    ∀ bs : Bindings ε, (bs.rename r).find? (r name) = (bs.find? name).map (Value.rename r)
  | [] => rfl
  | b :: rest => by
    have hrest := find?_rename name rest
    by_cases h : b.1 = name
    · simp [rename, find?, h]
    · simpa [rename, find?, h, hr.eq_iff] using hrest

include hr in
theorem insert_rename (name : String) (v : Value ε) :
    ∀ bs : Bindings ε, (bs.rename r).insert (r name) (v.rename r) = (bs.insert name v).rename r
  | [] => rfl
  | b :: rest => by
    have hrest := insert_rename name v rest
    by_cases h : b.1 = name
    · simp [rename, insert, h]
    · simpa [rename, insert, h, hr.eq_iff] using hrest

end Bindings

def Scope.rename (x : Scope ε) : Scope ε :=
  { x with vars := x.vars.rename r }

theorem Scope.define_rename {r : String → String} (hr : Function.Injective r) (x : Scope ε) (name : String)
    (v : Value ε) : (x.rename r).define (r name) (v.rename r) = (x.define name v).rename r := by
  simp only [Scope.rename, Scope.define, Bindings.insert_rename hr]

namespace Store

def rename (s : Store ε) : Store ε :=
  { s with scopes := s.scopes.map (Scope.rename r) }

theorem getElem?_rename (s : Store ε) (i : ScopeId) : (s.rename r).scopes[i]? = s.scopes[i]?.map (Scope.rename r) :=
  Array.getElem?_map

/-! ### Looking up -/

theorem bindings_rename (s : Store ε) (env : ScopeId) : (s.rename r).bindings env = (s.bindings env).rename r := by
  unfold bindings
  rw [getElem?_rename]
  cases s.scopes[env]? with
  | none => rfl
  | some x => rfl

@[simp] theorem parent?_rename (s : Store ε) (env : ScopeId) : (s.rename r).parent? env = s.parent? env := by
  unfold parent?
  rw [getElem?_rename]
  cases s.scopes[env]? with
  | none => rfl
  | some x => rfl

variable {r}

include hr in
theorem find?_bindings_rename (s : Store ε) (env : ScopeId) (name : String) :
    ((s.rename r).bindings env).find? (r name) = ((s.bindings env).find? name).map (Value.rename r) := by
  rw [bindings_rename, Bindings.find?_rename hr]

include hr in
theorem get?_rename (s : Store ε) (env : ScopeId) (name : String) :
    (s.rename r).get? env (r name) = (s.get? env name).map (Value.rename r) := by
  fun_induction Store.get? s env name with
  | case1 env v hv =>
    rw [Store.get?, find?_bindings_rename hr, hv]
    rfl
  | case2 env hv hp =>
    rw [Store.get?, find?_bindings_rename hr, hv, parent?_rename, hp]
    rfl
  | case3 env hv p hlt hp ih =>
    rw [Store.get?, find?_bindings_rename hr, hv, parent?_rename, hp]
    exact ih

include hr in
/-- **A renamed name resolves to the renamed value**, or to the renamed error. -/
theorem resolve_rename (s : Store ε) (env : ScopeId) (name : String) :
    (s.rename r).resolve env (r name) =
      ((s.resolve env name).map (Value.rename r)).mapError (Error.rename r) := by
  unfold resolve
  rw [← List.map_singleton]
  generalize [name] = met
  fun_induction Store.resolveFrom s env met name with
  | case1 met name hget =>
    have hget' : (s.rename r).get? env (r name) = none := by rw [get?_rename hr, hget]; rfl
    rw [resolveFrom_of_none hget']
    rfl
  | case2 met name target hget hmet =>
    have hget' : (s.rename r).get? env (r name) = some (.symbol (r target)) := by rw [get?_rename hr, hget]; rfl
    rw [resolveFrom_of_alias hget', if_pos (List.mem_map_of_mem hmet)]
    rfl
  | case3 met name target hget hmet hlt ih =>
    have hget' : (s.rename r).get? env (r name) = some (.symbol (r target)) := by rw [get?_rename hr, hget]; rfl
    have hmet' : r target ∉ met.map r := by simpa [hr.eq_iff] using hmet
    rw [resolveFrom_of_alias hget', if_neg hmet']
    exact ih
  | case4 met name v hv hget =>
    have hget' : (s.rename r).get? env (r name) = some (v.rename r) := by rw [get?_rename hr, hget]; rfl
    rw [resolveFrom_of_value hget' (by rw [Value.alias?_rename, Value.alias?_eq_none hv]; rfl)]
    rfl

/-! ### Changes -/

include hr in
theorem define_rename (s : Store ε) (env : ScopeId) (name : String) (v : Value ε) :
    (s.rename r).define env (r name) (v.rename r) = (s.define env name v).rename r := by
  simp only [Store.define, Store.rename, Store.mk.injEq, and_true]
  refine Array.ext_getElem? fun i => ?_
  rw [Array.getElem?_modify, Array.getElem?_map, Array.getElem?_map, Array.getElem?_modify]
  by_cases h : env = i
  · cases s.scopes[i]? with
    | none => simp
    | some x => simp [h, Scope.define_rename hr]
  · simp [h]

include hr in
theorem defineAll_rename (env : ScopeId) : ∀ (names : List String) (vs : List (Value ε)) (s : Store ε),
    (s.rename r).defineAll env ((names.map r).zip (vs.map (Value.rename r))) =
      (s.defineAll env (names.zip vs)).rename r
  | [], _, _ | _ :: _, [], _ => rfl
  | name :: names, v :: vs, s => by
    have hrest := defineAll_rename env names vs (s.define env name v)
    rw [← define_rename hr] at hrest
    exact hrest

theorem child_rename (s : Store ε) (env : ScopeId) :
    (s.rename r).child env = ((s.child env).1, (s.child env).2.rename r) := by
  simp [child, alloc, rename, Scope.rename, Bindings.rename]

theorem newClosure_rename (s : Store ε) (params : List String) (body : Expr) (env : ScopeId) :
    (s.rename r).newClosure (params.map r) (body.rename r) env =
      ((s.newClosure params body env).1.rename r, (s.newClosure params body env).2.rename r) := rfl

end Store
end Lisplet
