import Lisplet.Form
import Lisplet.Session
/-!
# The machine: states and steps

Evaluation as a machine that keeps its own stack, so that nesting in a program costs no call stack.  A state has a focus,
an expression to be evaluated or an answer, and a stack of frames, each of which says what to do with the answer to come.
An error passes through the frames and undoes only the count of calls in progress.

One step looks at the focus or at the frame on top and at nothing below it.
-/
namespace Lisplet

variable {ε : Type}

/-- What is still to be done with an answer. -/
inductive Frame (ε : Type) where
  | define (name : String) (env : ScopeId)
  | branch (consequent alternative : Expr) (env : ScopeId)
  | head (head : Expr) (operands : List Expr) (env : ScopeId)
  /-- It is an operand; `done` are those before it, the last one first, and `rest` those behind it. -/
  | operand (name : String) (callee : Callable ε) (done : List (Value ε)) (rest : List Expr) (env : ScopeId)
  | leave

inductive Focus (ε : Type) where
  | eval (e : Expr) (env : ScopeId)
  | answer (result : Except Error (Value ε))

structure Outcome (ε : Type) where
  result : Except Error (Value ε)
  /-- Closure calls in progress afterwards. -/
  depth : Nat
  session : Session ε

namespace Machine

structure State (ε : Type) where
  focus : Focus ε
  stack : List (Frame ε)
  depth : Nat
  session : Session ε

namespace State

def answer (result : Except Error (Value ε)) (stack : List (Frame ε)) (depth : Nat) (session : Session ε) : State ε :=
  ⟨.answer result, stack, depth, session⟩

def eval (e : Expr) (env : ScopeId) (stack : List (Frame ε)) (depth : Nat) (session : Session ε) : State ε :=
  ⟨.eval e env, stack, depth, session⟩

end State

variable [Host ε]

def enter (e : Expr) (env : ScopeId) (stack : List (Frame ε)) (depth : Nat) (session : Session ε) : State ε :=
  match e.form with
  | .error cause => .answer (.error (.malformed cause)) stack depth session
  | .ok (.constant n) => .answer (.ok (.num n)) stack depth session
  | .ok (.reference name) => .answer (session.store.resolve env name) stack depth session
  | .ok (.define name value) => .eval value env (.define name env :: stack) depth session
  | .ok (.branch condition consequent alternative) =>
    .eval condition env (.branch consequent alternative env :: stack) depth session
  | .ok (.lambda params body) =>
    let (v, session) := session.newClosure params body env
    .answer (.ok v) stack depth session
  | .ok (.call head operands) => .eval head env (.head head operands env :: stack) depth session

def call (limit : Nat) (name : String) (callee : Callable ε) (args : List (Value ε)) (stack : List (Frame ε))
    (depth : Nat) (session : Session ε) : State ε :=
  match callee with
  | .builtin tool => .answer (tool.run args) stack depth (session.record (.builtin tool.name args.length))
  | .closure c =>
    match session.beginCall limit depth name c args with
    | .error (e, session) => .answer (.error e) stack depth session
    | .ok (frame, session) => .eval c.body frame (.leave :: stack) (depth + 1) session

/-- Goes on with the operands of a call: the next one is evaluated, and behind the last one the call is made. -/
def operands (limit : Nat) (name : String) (callee : Callable ε) (done : List (Value ε)) (rest : List Expr)
    (env : ScopeId) (stack : List (Frame ε)) (depth : Nat) (session : Session ε) : State ε :=
  match rest with
  | [] => call limit name callee done.reverse stack depth session
  | e :: rest => .eval e env (.operand name callee done rest env :: stack) depth session

def resume (limit : Nat) (v : Value ε) (frame : Frame ε) (stack : List (Frame ε)) (depth : Nat)
    (session : Session ε) : State ε :=
  match frame with
  | .define name env => .answer (.ok .null) stack depth (session.define env name v)
  | .branch consequent alternative env =>
    .eval (if v.isTruthy then consequent else alternative) env stack depth session
  | .head head rest env =>
    match v.callable? with
    | none => .answer (.error (.malformed (.notCallable head v.kind))) stack depth session
    | some callee => operands limit head.calleeName callee [] rest env stack depth session
  | .operand name callee done rest env => operands limit name callee (v :: done) rest env stack depth session
  | .leave => .answer (.ok v) stack (depth - 1) session

def unwind (e : Error) (frame : Frame ε) (stack : List (Frame ε)) (depth : Nat) (session : Session ε) : State ε :=
  match frame with
  | .leave => .answer (.error e) stack (depth - 1) session
  | _ => .answer (.error e) stack depth session

/-- **One step**: to the next state, or to the outcome where there is an answer and no frame is left. -/
def step (limit : Nat) : State ε → State ε ⊕ Outcome ε
  | ⟨.eval e env, stack, depth, session⟩ => .inl (enter e env stack depth session)
  | ⟨.answer result, [], depth, session⟩ => .inr ⟨result, depth, session⟩
  | ⟨.answer (.ok v), frame :: stack, depth, session⟩ => .inl (resume limit v frame stack depth session)
  | ⟨.answer (.error e), frame :: stack, depth, session⟩ => .inl (unwind e frame stack depth session)

end Machine
end Lisplet
