import Lisplet.Form
import Lisplet.Session
/-!
# Evaluation by recursion

What an expression means, told by recursion on the expression and on the calls that are still to spare.  The count of
calls in progress is handed down and never handed back, so it needs no undoing.  The machine does the same work with a
stack of its own; this is the account of it that statements are made about.
-/
namespace Lisplet

variable {ε : Type} [Host ε]

namespace Semantics

abbrev Answer (ε : Type) (α : Type) := Except Error α × Session ε

mutual

/-- **The answer of an expression** in the scope `env`, with `depth` calls in progress. -/
def eval (limit depth : Nat) (e : Expr) (env : ScopeId) (session : Session ε) : Answer ε (Value ε) :=
  match h : e.form with
  | .error cause => (.error (.malformed cause), session)
  | .ok (.constant n) => (.ok (.num n), session)
  | .ok (.reference name) => (session.store.resolve env name, session)
  | .ok (.define name value) =>
    have := Expr.nodes_define_lt h
    match eval limit depth value env session with
    | (.error e, session) => (.error e, session)
    | (.ok v, session) => (.ok .null, session.define env name v)
  | .ok (.branch condition consequent alternative) =>
    have := Expr.nodes_branch_lt h
    match eval limit depth condition env session with
    | (.error e, session) => (.error e, session)
    | (.ok v, session) =>
      if v.isTruthy then eval limit depth consequent env session else eval limit depth alternative env session
  | .ok (.lambda params body) =>
    let (v, session) := session.newClosure params body env
    (.ok v, session)
  | .ok (.call head operands) =>
    have := Expr.nodes_call_lt h
    match eval limit depth head env session with
    | (.error e, session) => (.error e, session)
    | (.ok v, session) =>
      match v.callable? with
      | none => (.error (.malformed (.notCallable head v.kind)), session)
      | some callee =>
        match evalOperands limit depth operands env session with
        | (.error e, session) => (.error e, session)
        | (.ok args, session) => call limit depth head.calleeName callee args session
termination_by (limit - depth, 2 * e.nodes)
decreasing_by all_goals exact Prod.Lex.right _ (by omega)

def evalOperands (limit depth : Nat) (es : List Expr) (env : ScopeId) (session : Session ε) :
    Answer ε (List (Value ε)) :=
  match es with
  | [] => (.ok [], session)
  | e :: rest =>
    match eval limit depth e env session with
    | (.error e, session) => (.error e, session)
    | (.ok v, session) =>
      match evalOperands limit depth rest env session with
      | (.error e, session) => (.error e, session)
      | (.ok vs, session) => (.ok (v :: vs), session)
termination_by (limit - depth, 2 * Expr.nodesItems es + 1)
decreasing_by all_goals have := Expr.nodes_pos e; exact Prod.Lex.right _ (by simp only [Expr.nodesItems]; omega)

def call (limit depth : Nat) (name : String) (callee : Callable ε) (args : List (Value ε)) (session : Session ε) :
    Answer ε (Value ε) :=
  match callee with
  | .builtin tool => (tool.run args, session.record (.builtin tool.name args.length))
  | .closure c =>
    match h : session.beginCall limit depth name c args with
    | .error (e, session) => (.error e, session)
    | .ok (frame, session) =>
      have := Session.depth_lt_of_beginCall h
      eval limit (depth + 1) c.body frame session
termination_by (limit - depth, 0)

end

/-! ## One equation for each -/

theorem eval_eq (limit depth : Nat) (e : Expr) (env : ScopeId) (session : Session ε) :
    eval limit depth e env session =
      match e.form with
      | .error cause => (.error (.malformed cause), session)
      | .ok (.constant n) => (.ok (.num n), session)
      | .ok (.reference name) => (session.store.resolve env name, session)
      | .ok (.define name value) =>
        match eval limit depth value env session with
        | (.error e, session) => (.error e, session)
        | (.ok v, session) => (.ok .null, session.define env name v)
      | .ok (.branch condition consequent alternative) =>
        match eval limit depth condition env session with
        | (.error e, session) => (.error e, session)
        | (.ok v, session) =>
          if v.isTruthy then eval limit depth consequent env session else eval limit depth alternative env session
      | .ok (.lambda params body) =>
        (.ok (session.newClosure params body env).1, (session.newClosure params body env).2)
      | .ok (.call head operands) =>
        match eval limit depth head env session with
        | (.error e, session) => (.error e, session)
        | (.ok v, session) =>
          match v.callable? with
          | none => (.error (.malformed (.notCallable head v.kind)), session)
          | some callee =>
            match evalOperands limit depth operands env session with
            | (.error e, session) => (.error e, session)
            | (.ok args, session) => call limit depth head.calleeName callee args session := by
  rw [eval]
  split <;> (rename_i h; simp only [h])

theorem evalOperands_nil (limit depth : Nat) (env : ScopeId) (session : Session ε) :
    evalOperands limit depth [] env session = (.ok [], session) := by
  rw [evalOperands]

theorem evalOperands_cons (limit depth : Nat) (e : Expr) (rest : List Expr) (env : ScopeId) (session : Session ε) :
    evalOperands limit depth (e :: rest) env session =
      match eval limit depth e env session with
      | (.error e, session) => (.error e, session)
      | (.ok v, session) =>
        match evalOperands limit depth rest env session with
        | (.error e, session) => (.error e, session)
        | (.ok vs, session) => (.ok (v :: vs), session) := by
  rw [evalOperands]

theorem call_builtin (limit depth : Nat) (name : String) (tool : Tool ε) (args : List (Value ε))
    (session : Session ε) :
    call limit depth name (.builtin tool) args session =
      (tool.run args, session.record (.builtin tool.name args.length)) := by
  rw [call]

theorem call_closure (limit depth : Nat) (name : String) (c : Closure) (args : List (Value ε))
    (session : Session ε) :
    call limit depth name (.closure c) args session =
      match session.beginCall limit depth name c args with
      | .error (e, session) => (.error e, session)
      | .ok (frame, session) => eval limit (depth + 1) c.body frame session := by
  rw [call]
  split <;> (rename_i h; simp only [h])

end Semantics
end Lisplet
