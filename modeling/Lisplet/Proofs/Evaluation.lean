import Lisplet.Evaluator.Lemmas
/-!
# Induction on evaluations

An evaluation is put together from smaller ones, and where a part fails the whole fails with it: `Answer.bind` says so
once, and `eval_define` and its neighbours give the answer of each form through it.

`Closed` lists, for three properties of answers (of an expression, of operands, of a call), what each rule of evaluation
asks of them.  Properties that are closed under the rules hold of every evaluation (`Closed.eval` and its neighbours).
The parts of an expression are smaller than the expression, and the body of a closure, which may be any expression, is
evaluated with one call less to spare: this induction is made here and nowhere else.
-/
namespace Lisplet

variable {ε α β : Type}

namespace Semantics

/-- Goes on with the value of an answer, in the session that it left; an error goes past. -/
def Answer.bind (a : Answer ε α) (f : α → Session ε → Answer ε β) : Answer ε β :=
  match a with
  | (.error e, session) => (.error e, session)
  | (.ok v, session) => f v session

@[simp] theorem Answer.bind_error (e : Error) (session : Session ε) (f : α → Session ε → Answer ε β) :
    Answer.bind (.error e, session) f = (.error e, session) := rfl

@[simp] theorem Answer.bind_ok (v : α) (session : Session ε) (f : α → Session ε → Answer ε β) :
    Answer.bind (.ok v, session) f = f v session := rfl

/-- **What both parts do to the session, the whole does**, for anything that carries over from step to step. -/
theorem Answer.session_bind {R : Session ε → Session ε → Prop} (trans : ∀ {s t u}, R s t → R t u → R s u)
    {s : Session ε} {a : Answer ε α} {f : α → Session ε → Answer ε β} (ha : R s a.2) (hf : ∀ v t, R t (f v t).2) :
    R s (a.bind f).2 := by
  match a, ha with
  | (.error _, _), ha => exact ha
  | (.ok v, t), ha => exact trans ha (hf v t)

def callWith (head : Expr) (operands : Session ε → Answer ε (List (Value ε)))
    (call : Callable ε → List (Value ε) → Session ε → Answer ε (Value ε)) (v : Value ε) (s : Session ε) :
    Answer ε (Value ε) :=
  match v.callable? with
  | none => (.error (.malformed (.notCallable head v.kind)), s)
  | some callee => (operands s).bind (call callee)

/-! ## Invariants of the store -/

/-- **The answer keeps the invariant `I`** and changes the store of `s` only as `R` allows.  A value of it is as `P` says,
and an error as `F` says. -/
structure Kept (I : Store ε → Prop) (R : Store ε → Store ε → Prop) (P : Store ε → α → Prop) (F : Error → Prop)
    (s : Session ε) (a : Answer ε α) : Prop where
  invariant : I a.2.store
  related : R s.store a.2.store
  value : ∀ v, a.1 = .ok v → P a.2.store v
  cause : ∀ e, a.1 = .error e → F e

namespace Kept

variable {I : Store ε → Prop} {R : Store ε → Store ε → Prop} {P : Store ε → α → Prop} {Q : Store ε → β → Prop}
  {F : Error → Prop} {s t : Session ε}

theorem error (hI : I t.store) (hR : R s.store t.store) {e : Error} (he : F e) : Kept I R P F s (.error e, t) := by
  refine ⟨hI, hR, nofun, fun e' h => ?_⟩
  cases h
  exact he

theorem ok (hI : I t.store) (hR : R s.store t.store) {v : α} (hv : P t.store v) : Kept I R P F s (.ok v, t) := by
  refine ⟨hI, hR, fun w h => ?_, nofun⟩
  cases h
  exact hv

theorem bind {a : Answer ε α} {f : α → Session ε → Answer ε β}
    (trans : ∀ {x y z : Store ε}, R x y → R y z → R x z) (ha : Kept I R P F s a)
    (hf : ∀ v t, I t.store → R s.store t.store → P t.store v → Kept I R Q F t (f v t)) : Kept I R Q F s (a.bind f) := by
  match a, ha with
  | (.error e, t), ha => exact .error ha.invariant ha.related (ha.cause e rfl)
  | (.ok v, t), ha =>
    have hnext := hf v t ha.invariant ha.related (ha.value v rfl)
    exact ⟨hnext.invariant, trans ha.related hnext.related, hnext.value, hnext.cause⟩

end Kept

/-! ## The answer of each form -/

variable [Host ε] {limit depth : Nat} {e : Expr} {env : ScopeId} {session : Session ε}

theorem eval_malformed {cause : Malformed} (h : e.form = .error cause) :
    eval limit depth e env session = (.error (.malformed cause), session) := by
  rw [eval_eq, h]

theorem eval_constant {n : Number} (h : e.form = .ok (.constant n)) :
    eval limit depth e env session = (.ok (.num n), session) := by
  rw [eval_eq, h]

theorem eval_reference {name : String} (h : e.form = .ok (.reference name)) :
    eval limit depth e env session = (session.store.resolve env name, session) := by
  rw [eval_eq, h]

theorem eval_define {name : String} {value : Expr} (h : e.form = .ok (.define name value)) :
    eval limit depth e env session =
      (eval limit depth value env session).bind fun v s => (.ok .null, s.define env name v) := by
  rw [eval_eq]
  simp only [h]
  obtain ⟨v, s⟩ := eval limit depth value env session
  cases v with
  | error _ => rfl
  | ok _ => rfl

theorem eval_branch {c a b : Expr} (h : e.form = .ok (.branch c a b)) :
    eval limit depth e env session =
      (eval limit depth c env session).bind fun v s =>
        if v.isTruthy then eval limit depth a env s else eval limit depth b env s := by
  rw [eval_eq]
  simp only [h]
  obtain ⟨v, s⟩ := eval limit depth c env session
  cases v with
  | error _ => rfl
  | ok _ => rfl

theorem eval_lambda {params : List String} {body : Expr} (h : e.form = .ok (.lambda params body)) :
    eval limit depth e env session =
      (.ok (session.newClosure params body env).1, (session.newClosure params body env).2) := by
  rw [eval_eq, h]

theorem eval_call {head : Expr} {operands : List Expr} (h : e.form = .ok (.call head operands)) :
    eval limit depth e env session =
      (eval limit depth head env session).bind
        (callWith head (evalOperands limit depth operands env) (call limit depth head.calleeName)) := by
  rw [eval_eq]
  simp only [h]
  obtain ⟨r, s⟩ := eval limit depth head env session
  cases r with
  | error _ => rfl
  | ok v =>
    simp only [Answer.bind_ok, callWith]
    cases v.callable? with
    | none => rfl
    | some callee =>
      obtain ⟨r, s⟩ := evalOperands limit depth operands env s
      cases r with
      | error _ => rfl
      | ok _ => rfl

theorem evalOperands_cons_bind (rest : List Expr) :
    evalOperands limit depth (e :: rest) env session =
      (eval limit depth e env session).bind fun v s =>
        (evalOperands limit depth rest env s).bind fun vs s => (.ok (v :: vs), s) := by
  rw [evalOperands_cons]
  obtain ⟨r, s⟩ := eval limit depth e env session
  cases r with
  | error _ => rfl
  | ok v =>
    simp only [Answer.bind_ok]
    obtain ⟨r, s⟩ := evalOperands limit depth rest env s
    cases r with
    | error _ => rfl
    | ok _ => rfl

theorem call_refused {name : String} {c : Closure} {args : List (Value ε)} {cause : Error} {s : Session ε}
    (h : session.beginCall limit depth name c args = .error (cause, s)) :
    call limit depth name (.closure c) args session = (.error cause, s) := by
  rw [call_closure, h]

theorem call_entered {name : String} {c : Closure} {args : List (Value ε)} {frame : ScopeId} {s : Session ε}
    (h : session.beginCall limit depth name c args = .ok (frame, s)) :
    call limit depth name (.closure c) args session = eval limit (depth + 1) c.body frame s := by
  rw [call_closure, h]

theorem eval_call_builtin {head : Expr} {tool : Tool ε} {s : Session ε}
    (h : (Expr.list [head]).form = .ok (.call head []))
    (hhead : eval limit depth head env session = (.ok (.builtin tool), s)) :
    eval limit depth (.list [head]) env session = (tool.run [], s.record (.builtin tool.name 0)) := by
  rw [eval_call h, hhead, Answer.bind_ok, callWith]
  show Answer.bind (evalOperands limit depth [] env s) _ = _
  rw [evalOperands_nil, Answer.bind_ok, call_builtin]
  rfl

/-! ## Closed properties -/

/-- **Properties that the rules of evaluation keep.**  The answers of the parts are any that have the property, and a
part that comes later has it in whatever session it is reached. -/
structure Closed (limit : Nat) (E : Nat → Expr → ScopeId → Session ε → Answer ε (Value ε) → Prop)
    (O : Nat → List Expr → ScopeId → Session ε → Answer ε (List (Value ε)) → Prop)
    (C : Nat → String → Callable ε → List (Value ε) → Session ε → Answer ε (Value ε) → Prop) : Prop where
  malformed : ∀ {depth e env s cause}, e.form = .error cause → E depth e env s (.error (.malformed cause), s)
  constant : ∀ {depth e env s n}, e.form = .ok (.constant n) → E depth e env s (.ok (.num n), s)
  reference : ∀ {depth e env s name}, e.form = .ok (.reference name) → E depth e env s (s.store.resolve env name, s)
  define : ∀ {depth e env s name value a}, e.form = .ok (.define name value) → E depth value env s a →
    E depth e env s (a.bind fun v t => (.ok .null, t.define env name v))
  branch : ∀ {depth e env s c x y a} {A B : Session ε → Answer ε (Value ε)}, e.form = .ok (.branch c x y) →
    E depth c env s a → (∀ t, E depth x env t (A t)) → (∀ t, E depth y env t (B t)) →
    E depth e env s (a.bind fun v t => if v.isTruthy then A t else B t)
  lambda : ∀ {depth e env s params body}, e.form = .ok (.lambda params body) →
    E depth e env s (.ok (s.newClosure params body env).1, (s.newClosure params body env).2)
  call : ∀ {depth e env s head operands a A B}, e.form = .ok (.call head operands) → E depth head env s a →
    (∀ t, O depth operands env t (A t)) →
    (∀ callee args t, C depth head.calleeName callee args t (B callee args t)) →
    E depth e env s (a.bind (callWith head A B))
  nil : ∀ {depth env s}, O depth [] env s (.ok [], s)
  cons : ∀ {depth e rest env s a} {A : Session ε → Answer ε (List (Value ε))}, E depth e env s a →
    (∀ t, O depth rest env t (A t)) →
    O depth (e :: rest) env s (a.bind fun v t => (A t).bind fun vs t => (.ok (v :: vs), t))
  builtin : ∀ {depth name tool args s},
    C depth name (.builtin tool) args s (tool.run args, s.record (.builtin tool.name args.length))
  refused : ∀ {depth name c args s cause t}, s.beginCall limit depth name c args = .error (cause, t) →
    C depth name (.closure c) args s (.error cause, t)
  entered : ∀ {depth name c args s frame t a}, s.beginCall limit depth name c args = .ok (frame, t) →
    E (depth + 1) c.body frame t a → C depth name (.closure c) args s a

namespace Closed

variable {E : Nat → Expr → ScopeId → Session ε → Answer ε (Value ε) → Prop}
  {O : Nat → List Expr → ScopeId → Session ε → Answer ε (List (Value ε)) → Prop}
  {C : Nat → String → Callable ε → List (Value ε) → Session ε → Answer ε (Value ε) → Prop}

mutual

/-- **A closed property holds of the answer of every expression.** -/
theorem eval (h : Closed limit E O C) (depth : Nat) (e : Expr) (env : ScopeId) (s : Session ε) :
    E depth e env s (Semantics.eval limit depth e env s) := by
  match hf : e.form with
  | .error cause => rw [eval_malformed hf]; exact h.malformed hf
  | .ok (.constant n) => rw [eval_constant hf]; exact h.constant hf
  | .ok (.reference name) => rw [eval_reference hf]; exact h.reference hf
  | .ok (.define name value) =>
    have := Expr.nodes_define_lt hf
    rw [eval_define hf]
    exact h.define hf (Closed.eval h depth value env s)
  | .ok (.branch c x y) =>
    have := Expr.nodes_branch_lt hf
    rw [eval_branch hf]
    exact h.branch hf (Closed.eval h depth c env s) (fun t => Closed.eval h depth x env t)
      (fun t => Closed.eval h depth y env t)
  | .ok (.lambda params body) => rw [eval_lambda hf]; exact h.lambda hf
  | .ok (.call head operands) =>
    have := Expr.nodes_call_lt hf
    rw [eval_call hf]
    exact h.call hf (Closed.eval h depth head env s) (fun t => Closed.operands h depth operands env t)
      (fun callee args t => Closed.apply h depth head.calleeName callee args t)
termination_by (limit - depth, 2 * e.nodes)
decreasing_by all_goals exact Prod.Lex.right _ (by omega)

theorem operands (h : Closed limit E O C) (depth : Nat) (es : List Expr) (env : ScopeId) (s : Session ε) :
    O depth es env s (evalOperands limit depth es env s) := by
  match es with
  | [] => rw [evalOperands_nil]; exact h.nil
  | e :: rest =>
    have := Expr.nodes_pos e
    rw [evalOperands_cons_bind]
    exact h.cons (Closed.eval h depth e env s) (fun t => Closed.operands h depth rest env t)
termination_by (limit - depth, 2 * Expr.nodesItems es + 1)
decreasing_by all_goals exact Prod.Lex.right _ (by simp only [Expr.nodesItems]; omega)

theorem apply (h : Closed limit E O C) (depth : Nat) (name : String) (callee : Callable ε) (args : List (Value ε))
    (s : Session ε) : C depth name callee args s (Semantics.call limit depth name callee args s) := by
  match callee with
  | .builtin tool => rw [call_builtin]; exact h.builtin
  | .closure c =>
    cases hb : s.beginCall limit depth name c args with
    | error refused => rw [call_refused hb]; exact h.refused hb
    | ok opened =>
      have := Session.depth_lt_of_beginCall hb
      rw [call_entered hb]
      exact h.entered hb (Closed.eval h (depth + 1) c.body opened.1 opened.2)
termination_by (limit - depth, 0)

end

end Closed
end Semantics

/-! ## Evaluators -/

def Outcome.answer (o : Outcome ε) : Semantics.Answer ε (Value ε) :=
  (o.result, o.session)

namespace Evaluator

variable [Host ε]

theorem answer_evaluate (ev : Evaluator) (e : Expr) (env : ScopeId) (session : Session ε) :
    (ev.evaluate e env session).answer = Semantics.eval ev.config.maxDepth ev.depth e env session := by
  rw [evaluate_eq]
  rfl

theorem answer_executeFrom_cons (ev : Evaluator) (last : Value ε) (session : Session ε) (form : Expr)
    (rest : List Expr) :
    (ev.executeFrom last session (form :: rest)).answer =
      (Semantics.eval ev.config.maxDepth ev.depth form ev.env session).bind fun v s =>
        (ev.executeFrom v s rest).answer := by
  rw [executeFrom_cons]
  obtain ⟨v, s⟩ := Semantics.eval ev.config.maxDepth ev.depth form ev.env session
  cases v with
  | error _ => rfl
  | ok _ => rfl

end Evaluator
end Lisplet
