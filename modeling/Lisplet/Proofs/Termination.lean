import Lisplet.Proofs.Evaluation
/-!
# Every evaluation ends

The rules of evaluation, told as a relation between what is evaluated and its answer (`Evaluates` and its neighbours).
Where the relation holds there is a tree of finitely many evaluations that leads to the answer, with no bound on its size
given beforehand.

A `Task` is anything that such a tree has at a node, and `Invokes` says which tasks a task has evaluated on the way.  The
body of a closure may be larger than the call that runs it, and may make the same call again; but it runs with one call
less to spare, and all other tasks are about parts of the expression.  So the rank of a task, the calls to spare first
and the size of what is evaluated second, sinks from a task to each one that it invokes (`rank_lt_of_invokes`).  A task
ends if all that it invokes end (`ends_of_invokes`), hence every task does.
-/
namespace Lisplet

variable {ε : Type}

namespace Semantics

/-! ## Tasks -/

inductive Task (ε : Type) where
  | eval (depth : Nat) (e : Expr) (env : ScopeId) (s : Session ε)
  | operands (depth : Nat) (es : List Expr) (env : ScopeId) (s : Session ε)
  | call (depth : Nat) (name : String) (callee : Callable ε) (args : List (Value ε)) (s : Session ε)

namespace Task

/-- **The rank of a task**: how many calls there are to spare, and the size of what is evaluated.  Sizes are doubled to
leave room for a list of operands between an expression and the first of the operands. -/
def rank (limit : Nat) : Task ε → Nat × Nat
  | .eval depth e _ _ => (limit - depth, 2 * e.nodes)
  | .operands depth es _ _ => (limit - depth, 2 * Expr.nodesItems es + 1)
  | .call depth _ _ _ _ => (limit - depth, 0)

def Below (limit : Nat) (u t : Task ε) : Prop :=
  Prod.Lex (· < ·) (· < ·) (u.rank limit) (t.rank limit)

theorem wellFounded_below (limit : Nat) : WellFounded (@Below ε limit) :=
  InvImage.wf (rank limit) (Prod.lex Nat.lt_wfRel Nat.lt_wfRel).wf

end Task

variable [Host ε]

/-! ## Evaluation trees -/

mutual

/-- **A tree of evaluations with an expression at its root**, and the answer that it comes to. -/
inductive Evaluates (limit : Nat) : Nat → Expr → ScopeId → Session ε → Answer ε (Value ε) → Prop where
  | malformed {depth e env s cause} (hf : e.form = .error cause) :
    Evaluates limit depth e env s (.error (.malformed cause), s)
  | constant {depth e env s n} (hf : e.form = .ok (.constant n)) : Evaluates limit depth e env s (.ok (.num n), s)
  | reference {depth e env s name} (hf : e.form = .ok (.reference name)) :
    Evaluates limit depth e env s (s.store.resolve env name, s)
  | define {depth e env s name value v t} (hf : e.form = .ok (.define name value))
    (hv : Evaluates limit depth value env s (.ok v, t)) :
    Evaluates limit depth e env s (.ok .null, t.define env name v)
  | defineFails {depth e env s name value cause t} (hf : e.form = .ok (.define name value))
    (hv : Evaluates limit depth value env s (.error cause, t)) : Evaluates limit depth e env s (.error cause, t)
  | consequent {depth e env s c x y v t a} (hf : e.form = .ok (.branch c x y))
    (hc : Evaluates limit depth c env s (.ok v, t)) (hv : v.isTruthy = true)
    (hx : Evaluates limit depth x env t a) : Evaluates limit depth e env s a
  | alternative {depth e env s c x y v t a} (hf : e.form = .ok (.branch c x y))
    (hc : Evaluates limit depth c env s (.ok v, t)) (hv : v.isTruthy = false)
    (hy : Evaluates limit depth y env t a) : Evaluates limit depth e env s a
  | conditionFails {depth e env s c x y cause t} (hf : e.form = .ok (.branch c x y))
    (hc : Evaluates limit depth c env s (.error cause, t)) : Evaluates limit depth e env s (.error cause, t)
  | lambda {depth e env s params body} (hf : e.form = .ok (.lambda params body)) :
    Evaluates limit depth e env s (.ok (s.newClosure params body env).1, (s.newClosure params body env).2)
  | call {depth e env s head operands v t callee args u a} (hf : e.form = .ok (.call head operands))
    (hh : Evaluates limit depth head env s (.ok v, t)) (hv : v.callable? = some callee)
    (ho : EvaluatesAll limit depth operands env t (.ok args, u))
    (hc : Calls limit depth head.calleeName callee args u a) : Evaluates limit depth e env s a
  | operandFails {depth e env s head operands v t callee cause u} (hf : e.form = .ok (.call head operands))
    (hh : Evaluates limit depth head env s (.ok v, t)) (hv : v.callable? = some callee)
    (ho : EvaluatesAll limit depth operands env t (.error cause, u)) : Evaluates limit depth e env s (.error cause, u)
  | notCallable {depth e env s head operands v t} (hf : e.form = .ok (.call head operands))
    (hh : Evaluates limit depth head env s (.ok v, t)) (hv : v.callable? = none) :
    Evaluates limit depth e env s (.error (.malformed (.notCallable head v.kind)), t)
  | headFails {depth e env s head operands cause t} (hf : e.form = .ok (.call head operands))
    (hh : Evaluates limit depth head env s (.error cause, t)) : Evaluates limit depth e env s (.error cause, t)

inductive EvaluatesAll (limit : Nat) :
    Nat → List Expr → ScopeId → Session ε → Answer ε (List (Value ε)) → Prop where
  | nil {depth env s} : EvaluatesAll limit depth [] env s (.ok [], s)
  | cons {depth e rest env s v t vs u} (he : Evaluates limit depth e env s (.ok v, t))
    (hr : EvaluatesAll limit depth rest env t (.ok vs, u)) :
    EvaluatesAll limit depth (e :: rest) env s (.ok (v :: vs), u)
  | restFails {depth e rest env s v t cause u} (he : Evaluates limit depth e env s (.ok v, t))
    (hr : EvaluatesAll limit depth rest env t (.error cause, u)) :
    EvaluatesAll limit depth (e :: rest) env s (.error cause, u)
  | firstFails {depth e rest env s cause t} (he : Evaluates limit depth e env s (.error cause, t)) :
    EvaluatesAll limit depth (e :: rest) env s (.error cause, t)

/-- A tree with a call at its root.  A closure that is let in goes on with its body, one call deeper. -/
inductive Calls (limit : Nat) :
    Nat → String → Callable ε → List (Value ε) → Session ε → Answer ε (Value ε) → Prop where
  | builtin {depth name tool args s} :
    Calls limit depth name (.builtin tool) args s (tool.run args, s.record (.builtin tool.name args.length))
  | refused {depth name c args s cause t} (hb : s.beginCall limit depth name c args = .error (cause, t)) :
    Calls limit depth name (.closure c) args s (.error cause, t)
  | entered {depth name c args s frame t a} (hb : s.beginCall limit depth name c args = .ok (frame, t))
    (ha : Evaluates limit (depth + 1) c.body frame t a) : Calls limit depth name (.closure c) args s a

end

variable {limit : Nat}

mutual

theorem Evaluates.eq : ∀ {depth : Nat} {e : Expr} {env : ScopeId} {s : Session ε} {a : Answer ε (Value ε)},
    Evaluates limit depth e env s a → a = eval limit depth e env s
  | _, _, _, _, _, .malformed hf => (eval_malformed hf).symm
  | _, _, _, _, _, .constant hf => (eval_constant hf).symm
  | _, _, _, _, _, .reference hf => (eval_reference hf).symm
  | _, _, _, _, _, .define hf hv => by rw [eval_define hf, ← hv.eq, Answer.bind_ok]
  | _, _, _, _, _, .defineFails hf hv => by rw [eval_define hf, ← hv.eq, Answer.bind_error]
  | _, _, _, _, _, .consequent hf hc hv hx => by rw [eval_branch hf, ← hc.eq, Answer.bind_ok, if_pos hv, ← hx.eq]
  | _, _, _, _, _, .alternative hf hc hv hy => by
    rw [eval_branch hf, ← hc.eq, Answer.bind_ok, hv, if_neg Bool.false_ne_true, ← hy.eq]
  | _, _, _, _, _, .conditionFails hf hc => by rw [eval_branch hf, ← hc.eq, Answer.bind_error]
  | _, _, _, _, _, .lambda hf => (eval_lambda hf).symm
  | _, _, _, _, _, .call hf hh hv ho hc => by
    rw [eval_call hf, ← hh.eq, Answer.bind_ok]
    simp only [callWith, hv]
    rw [← ho.eq, Answer.bind_ok, ← hc.eq]
  | _, _, _, _, _, .operandFails hf hh hv ho => by
    rw [eval_call hf, ← hh.eq, Answer.bind_ok]
    simp only [callWith, hv]
    rw [← ho.eq, Answer.bind_error]
  | _, _, _, _, _, .notCallable hf hh hv => by
    rw [eval_call hf, ← hh.eq, Answer.bind_ok]
    simp only [callWith, hv]
  | _, _, _, _, _, .headFails hf hh => by rw [eval_call hf, ← hh.eq, Answer.bind_error]

theorem EvaluatesAll.eq : ∀ {depth : Nat} {es : List Expr} {env : ScopeId} {s : Session ε}
    {a : Answer ε (List (Value ε))}, EvaluatesAll limit depth es env s a → a = evalOperands limit depth es env s
  | _, _, _, _, _, .nil => (evalOperands_nil ..).symm
  | _, _, _, _, _, .cons he hr => by
    rw [evalOperands_cons_bind, ← he.eq, Answer.bind_ok, ← hr.eq, Answer.bind_ok]
  | _, _, _, _, _, .restFails he hr => by
    rw [evalOperands_cons_bind, ← he.eq, Answer.bind_ok, ← hr.eq, Answer.bind_error]
  | _, _, _, _, _, .firstFails he => by rw [evalOperands_cons_bind, ← he.eq, Answer.bind_error]

theorem Calls.eq : ∀ {depth : Nat} {name : String} {callee : Callable ε} {args : List (Value ε)} {s : Session ε}
    {a : Answer ε (Value ε)}, Calls limit depth name callee args s a → a = call limit depth name callee args s
  | _, _, _, _, _, _, .builtin => (call_builtin ..).symm
  | _, _, _, _, _, _, .refused hb => (call_refused hb).symm
  | _, _, _, _, _, _, .entered hb ha => by rw [call_entered hb, ← ha.eq]

end

/-! ## What is evaluated on the way -/

/-- **The first task has the second one evaluated** on the way to its answer. -/
inductive Invokes (limit : Nat) : Task ε → Task ε → Prop where
  | define {depth e env s name value} (hf : e.form = .ok (.define name value)) :
    Invokes limit (.eval depth e env s) (.eval depth value env s)
  | condition {depth e env s c x y} (hf : e.form = .ok (.branch c x y)) :
    Invokes limit (.eval depth e env s) (.eval depth c env s)
  | consequent {depth e env s c x y v t} (hf : e.form = .ok (.branch c x y))
    (hc : Evaluates limit depth c env s (.ok v, t)) (hv : v.isTruthy = true) :
    Invokes limit (.eval depth e env s) (.eval depth x env t)
  | alternative {depth e env s c x y v t} (hf : e.form = .ok (.branch c x y))
    (hc : Evaluates limit depth c env s (.ok v, t)) (hv : v.isTruthy = false) :
    Invokes limit (.eval depth e env s) (.eval depth y env t)
  | head {depth e env s head operands} (hf : e.form = .ok (.call head operands)) :
    Invokes limit (.eval depth e env s) (.eval depth head env s)
  | operands {depth e env s head operands v t callee} (hf : e.form = .ok (.call head operands))
    (hh : Evaluates limit depth head env s (.ok v, t)) (hv : v.callable? = some callee) :
    Invokes limit (.eval depth e env s) (.operands depth operands env t)
  | call {depth e env s head operands v t callee args u} (hf : e.form = .ok (.call head operands))
    (hh : Evaluates limit depth head env s (.ok v, t)) (hv : v.callable? = some callee)
    (ho : EvaluatesAll limit depth operands env t (.ok args, u)) :
    Invokes limit (.eval depth e env s) (.call depth head.calleeName callee args u)
  | first {depth e rest env s} : Invokes limit (.operands depth (e :: rest) env s) (.eval depth e env s)
  | rest {depth e rest env s v t} (he : Evaluates limit depth e env s (.ok v, t)) :
    Invokes limit (.operands depth (e :: rest) env s) (.operands depth rest env t)
  | body {depth name c args s frame t} (hb : s.beginCall limit depth name c args = .ok (frame, t)) :
    Invokes limit (.call depth name (.closure c) args s) (.eval (depth + 1) c.body frame t)

def Task.Ends (limit : Nat) : Task ε → Prop
  | .eval depth e env s => ∃ a, Evaluates limit depth e env s a
  | .operands depth es env s => ∃ a, EvaluatesAll limit depth es env s a
  | .call depth name callee args s => ∃ a, Calls limit depth name callee args s a

/-- **The rank sinks from a task to each one that it invokes.** -/
theorem rank_lt_of_invokes {t u : Task ε} (h : Invokes limit t u) : u.Below limit t := by
  cases h with
  | define hf =>
    have := Expr.nodes_define_lt hf
    exact .right _ (by omega)
  | condition hf | consequent hf | alternative hf =>
    have := Expr.nodes_branch_lt hf
    exact .right _ (by omega)
  | head hf | operands hf =>
    have := Expr.nodes_call_lt hf
    exact .right _ (by omega)
  | call hf =>
    have := Expr.nodes_call_lt hf
    exact .right _ (by omega)
  | @first _ e =>
    exact .right _ (by rw [Expr.nodesItems]; omega)
  | @rest _ e =>
    have := Expr.nodes_pos e
    exact .right _ (by rw [Expr.nodesItems]; omega)
  | body hb =>
    -- nothing is known of the size of the body
    have := Session.depth_lt_of_beginCall hb
    exact .left _ _ (by omega)

theorem ends_operands {depth : Nat} {es : List Expr} {env : ScopeId} {s : Session ε}
    (h : ∀ u, Invokes limit (.operands depth es env s) u → u.Ends limit) :
    (Task.operands depth es env s).Ends limit := by
  cases es with
  | nil => exact ⟨_, .nil⟩
  | cons e rest =>
    obtain ⟨⟨_ | v, t⟩, he⟩ := h _ .first
    · exact ⟨_, .firstFails he⟩
    · obtain ⟨⟨_ | vs, u⟩, hr⟩ := h _ (.rest he)
      · exact ⟨_, .restFails he hr⟩
      · exact ⟨_, .cons he hr⟩

theorem ends_call {depth : Nat} {name : String} {callee : Callable ε} {args : List (Value ε)} {s : Session ε}
    (h : ∀ u, Invokes limit (.call depth name callee args s) u → u.Ends limit) :
    (Task.call depth name callee args s).Ends limit := by
  cases callee with
  | builtin tool => exact ⟨_, .builtin⟩
  | closure c =>
    cases hb : s.beginCall limit depth name c args with
    | error refusal => exact ⟨_, .refused hb⟩
    | ok opened =>
      obtain ⟨a, ha⟩ := h _ (.body hb)
      exact ⟨a, .entered hb ha⟩

theorem ends_eval {depth : Nat} {e : Expr} {env : ScopeId} {s : Session ε}
    (h : ∀ u, Invokes limit (.eval depth e env s) u → u.Ends limit) : (Task.eval depth e env s).Ends limit := by
  cases hf : e.form with
  | error cause => exact ⟨_, .malformed hf⟩
  | ok form =>
    cases form with
    | constant n => exact ⟨_, .constant hf⟩
    | reference name => exact ⟨_, .reference hf⟩
    | define name value =>
      obtain ⟨⟨_ | v, t⟩, hv⟩ := h _ (.define hf)
      · exact ⟨_, .defineFails hf hv⟩
      · exact ⟨_, .define hf hv⟩
    | branch c x y =>
      obtain ⟨⟨_ | v, t⟩, hc⟩ := h _ (.condition hf)
      · exact ⟨_, .conditionFails hf hc⟩
      · cases hv : v.isTruthy with
        | true =>
          obtain ⟨a, hx⟩ := h _ (.consequent hf hc hv)
          exact ⟨a, .consequent hf hc hv hx⟩
        | false =>
          obtain ⟨a, hy⟩ := h _ (.alternative hf hc hv)
          exact ⟨a, .alternative hf hc hv hy⟩
    | lambda params body => exact ⟨_, .lambda hf⟩
    | call head operands =>
      obtain ⟨⟨_ | v, t⟩, hh⟩ := h _ (.head hf)
      · exact ⟨_, .headFails hf hh⟩
      · cases hv : v.callable? with
        | none => exact ⟨_, .notCallable hf hh hv⟩
        | some callee =>
          obtain ⟨⟨_ | args, u⟩, ho⟩ := h _ (.operands hf hh hv)
          · exact ⟨_, .operandFails hf hh hv ho⟩
          · obtain ⟨a, hc⟩ := h _ (.call hf hh hv ho)
            exact ⟨a, .call hf hh hv ho hc⟩

theorem ends_of_invokes {t : Task ε} (h : ∀ u, Invokes limit t u → u.Ends limit) : t.Ends limit := by
  cases t with
  | eval depth e env s => exact ends_eval h
  | operands depth es env s => exact ends_operands h
  | call depth name callee args s => exact ends_call h

theorem ends (limit : Nat) (t : Task ε) : t.Ends limit := by
  induction t using (Task.wellFounded_below limit).induction with
  | _ t ih => exact ends_of_invokes fun u hu => ih u (rank_lt_of_invokes hu)

theorem evaluates_iff {depth : Nat} {e : Expr} {env : ScopeId} {s : Session ε} {a : Answer ε (Value ε)} :
    Evaluates limit depth e env s a ↔ a = eval limit depth e env s := by
  constructor
  · exact Evaluates.eq
  · rintro rfl
    obtain ⟨b, hb⟩ := ends limit (.eval depth e env s)
    rwa [← hb.eq]

theorem calls_iff {depth : Nat} {name : String} {callee : Callable ε} {args : List (Value ε)} {s : Session ε}
    {a : Answer ε (Value ε)} : Calls limit depth name callee args s a ↔ a = call limit depth name callee args s := by
  constructor
  · exact Calls.eq
  · rintro rfl
    obtain ⟨b, hb⟩ := ends limit (.call depth name callee args s)
    rwa [← hb.eq]

end Semantics

/-! ## Evaluators -/

namespace Evaluator

variable [Host ε]

/-- Trees of the forms of a program, in order up to the first error; `last` is the value of the form before them. -/
inductive Executes (ev : Evaluator) :
    Value ε → List Expr → Session ε → Semantics.Answer ε (Value ε) → Prop where
  | nil {last s} : Executes ev last [] s (.ok last, s)
  | cons {last form rest s v t a} (hf : Semantics.Evaluates ev.config.maxDepth ev.depth form ev.env s (.ok v, t))
    (hr : Executes ev v rest t a) : Executes ev last (form :: rest) s a
  | fails {last form rest s cause t}
    (hf : Semantics.Evaluates ev.config.maxDepth ev.depth form ev.env s (.error cause, t)) :
    Executes ev last (form :: rest) s (.error cause, t)

inductive Applies (ev : Evaluator) (name : String) :
    Value ε → List (Value ε) → Session ε → Semantics.Answer ε (Value ε) → Prop where
  | callable {v args s callee a} (hv : v.callable? = some callee)
    (hc : Semantics.Calls ev.config.maxDepth ev.depth name callee args s a) : Applies ev name v args s a
  | notCallable {v args s} (hv : v.callable? = none) :
    Applies ev name v args s (.error (.malformed (.notCallable (.symbol name) v.kind)), s)

theorem executes_iff (ev : Evaluator) (program : List Expr) (last : Value ε) (s : Session ε)
    (a : Semantics.Answer ε (Value ε)) : ev.Executes last program s a ↔ a = (ev.executeFrom last s program).answer := by
  induction program generalizing last s a with
  | nil =>
    constructor
    · rintro ⟨⟩
      rfl
    · rintro rfl
      exact .nil
  | cons form rest ih =>
    rw [answer_executeFrom_cons]
    constructor
    · intro h
      cases h with
      | cons hf hr => rw [← hf.eq, Semantics.Answer.bind_ok, ← (ih _ _ _).1 hr]
      | fails hf => rw [← hf.eq, Semantics.Answer.bind_error]
    · rintro rfl
      obtain ⟨⟨_ | v, t⟩, hf⟩ := Semantics.ends ev.config.maxDepth (.eval ev.depth form ev.env s)
      · rw [← hf.eq]
        exact .fails hf
      · rw [← hf.eq, Semantics.Answer.bind_ok]
        exact .cons hf ((ih v t _).2 rfl)

theorem applies_iff (ev : Evaluator) (name : String) (v : Value ε) (args : List (Value ε)) (s : Session ε)
    (a : Semantics.Answer ε (Value ε)) : ev.Applies name v args s a ↔ a = (ev.apply name v args s).answer := by
  rw [apply_eq]
  cases hv : v.callable? with
  | none =>
    constructor
    · intro h
      cases h with
      | callable hc => rw [hv] at hc; cases hc
      | notCallable => rfl
    · rintro rfl
      exact .notCallable hv
  | some callee =>
    constructor
    · intro h
      cases h with
      | callable hc ha => rw [hv] at hc; cases hc; exact ha.eq
      | notCallable hc => rw [hv] at hc; cases hc
    · rintro rfl
      exact .callable hv (Semantics.calls_iff.2 rfl)

/-- **Every evaluation ends.**  Whatever the store holds and however many calls are in progress already, evaluating an
expression, executing a program and applying a value each have one tree of evaluations, with the answer that the
evaluator gives; the rank of a task sinks at every step down such a tree.  The machine, too, comes to its outcome in
finitely many steps. -/
theorem evaluation_ends (ev : Evaluator) (session : Session ε) :
    WellFounded (@Semantics.Task.Below ε ev.config.maxDepth) ∧
    (∀ t u : Semantics.Task ε, Semantics.Invokes ev.config.maxDepth t u → u.Below ev.config.maxDepth t) ∧
    (∀ (e : Expr) (env : ScopeId) (a : Semantics.Answer ε (Value ε)),
      Semantics.Evaluates ev.config.maxDepth ev.depth e env session a ↔ a = (ev.evaluate e env session).answer) ∧
    (∀ (program : List Expr) (a : Semantics.Answer ε (Value ε)),
      ev.Executes .null program (session.record (.program program.length)) a ↔
        a = (ev.execute program session).answer) ∧
    (∀ (name : String) (callee : Value ε) (args : List (Value ε)) (a : Semantics.Answer ε (Value ε)),
      ev.Applies name callee args session a ↔ a = (ev.apply name callee args session).answer) ∧
    ∀ st : Machine.State ε, Machine.Ends ev.config.maxDepth st := by
  refine ⟨Semantics.Task.wellFounded_below _, fun t u h => Semantics.rank_lt_of_invokes h, fun e env a => ?_,
    fun program a => ?_, fun name callee args a => ?_, fun st => (Machine.wellFounded_next _).apply st⟩
  · rw [answer_evaluate]
    exact Semantics.evaluates_iff
  · exact ev.executes_iff program .null _ a
  · exact ev.applies_iff name callee args session a

end Evaluator
end Lisplet
