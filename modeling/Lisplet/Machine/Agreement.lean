import Lisplet.Machine.Run
import Lisplet.Semantics
/-!
# The machine and the recursion agree

From an expression the machine comes to the answer that the recursion gives it, on the same stack and with the same count
of calls in progress (`run_eval_eq`).  So a run from an empty stack has that answer for its outcome, and the count after
it is the count before it, whether it ended in a value or in an error (`run_eval_nil`).
-/
namespace Lisplet

variable {ε : Type} [Host ε]

namespace Machine

abbrev runAnswer (limit : Nat) (answer : Semantics.Answer ε (Value ε)) (stack : List (Frame ε)) (depth : Nat) :
    Outcome ε :=
  run limit (.answer answer.1 stack depth answer.2)

def runOperands (limit : Nat) (name : String) (callee : Callable ε) (done : List (Value ε))
    (answer : Semantics.Answer ε (List (Value ε))) (stack : List (Frame ε)) (depth : Nat) : Outcome ε :=
  match answer with
  | (.error e, session) => run limit (.answer (.error e) stack depth session)
  | (.ok args, session) => run limit (call limit name callee (done.reverse ++ args) stack depth session)

mutual

/-- **The machine comes to the answer of the recursion**, whatever waits on the stack. -/
theorem run_eval_eq (limit depth : Nat) (e : Expr) (env : ScopeId) (stack : List (Frame ε)) (session : Session ε) :
    run limit (.eval e env stack depth session) =
      runAnswer limit (Semantics.eval limit depth e env session) stack depth := by
  rw [run_eval, Semantics.eval_eq]
  split
  · next cause h => simp only [enter, h]
  · next n h => simp only [enter, h]
  · next name h => simp only [enter, h]
  · next name value h =>
    have := Expr.nodes_define_lt h
    simp only [enter, h]
    rw [run_eval_eq limit depth value env, runAnswer]
    split
    · next er s hv => rw [hv]; exact run_error ..
    · next v s hv => rw [hv]; exact run_ok ..
  · next c a b h =>
    have := Expr.nodes_branch_lt h
    simp only [enter, h]
    rw [run_eval_eq limit depth c env, runAnswer]
    split
    · next er s hv => rw [hv]; exact run_error ..
    · next v s hv =>
      rw [hv]
      refine (run_ok ..).trans ?_
      simp only [resume]
      split
      · exact run_eval_eq limit depth a env stack s
      · exact run_eval_eq limit depth b env stack s
  · next params body h => simp only [enter, h]
  · next head operands h =>
    have := Expr.nodes_call_lt h
    simp only [enter, h]
    rw [run_eval_eq limit depth head env, runAnswer]
    split
    · next er s hv => rw [hv]; exact run_error ..
    · next v s hv =>
      rw [hv]
      refine (run_ok ..).trans ?_
      simp only [resume]
      cases v.callable? with
      | none => rfl
      | some callee =>
        refine (run_operands_eq limit depth head.calleeName callee [] operands env stack s).trans ?_
        match Semantics.evalOperands limit depth operands env s with
        | (.error er, s') => rfl
        | (.ok args, s') => exact run_call_eq limit depth head.calleeName callee args stack s'
termination_by (limit - depth, 2 * e.nodes)
decreasing_by all_goals exact Prod.Lex.right _ (by omega)

theorem run_operands_eq (limit depth : Nat) (name : String) (callee : Callable ε) (done : List (Value ε))
    (es : List Expr) (env : ScopeId) (stack : List (Frame ε)) (session : Session ε) :
    run limit (operands limit name callee done es env stack depth session) =
      runOperands limit name callee done (Semantics.evalOperands limit depth es env session) stack depth := by
  match es with
  | [] => rw [Semantics.evalOperands_nil]; simp [operands, runOperands]
  | e :: rest =>
    have := Expr.nodes_pos e
    rw [Semantics.evalOperands_cons, operands, run_eval_eq limit depth e env, runAnswer]
    split
    · next er s hv => rw [hv]; exact run_error ..
    · next v s hv =>
      rw [hv]
      refine (run_ok ..).trans ?_
      simp only [resume]
      rw [run_operands_eq limit depth name callee (v :: done) rest env stack s]
      match Semantics.evalOperands limit depth rest env s with
      | (.error er, s') => rfl
      | (.ok args, s') => simp only [runOperands, List.reverse_cons, List.append_assoc, List.singleton_append]
termination_by (limit - depth, 2 * Expr.nodesItems es + 1)
decreasing_by all_goals exact Prod.Lex.right _ (by simp only [Expr.nodesItems]; omega)

theorem run_call_eq (limit depth : Nat) (name : String) (callee : Callable ε) (args : List (Value ε))
    (stack : List (Frame ε)) (session : Session ε) :
    run limit (call limit name callee args stack depth session) =
      runAnswer limit (Semantics.call limit depth name callee args session) stack depth := by
  match callee with
  | .builtin tool => rw [Semantics.call_builtin, call]
  | .closure c =>
    rw [Semantics.call_closure, call]
    cases h : session.beginCall limit depth name c args with
    | error refused => rfl
    | ok opened =>
      obtain ⟨frame, s⟩ := opened
      have := Session.depth_lt_of_beginCall h
      show run limit (.eval c.body frame (.leave :: stack) (depth + 1) s) =
        runAnswer limit (Semantics.eval limit (depth + 1) c.body frame s) stack depth
      rw [run_eval_eq limit (depth + 1) c.body frame]
      match Semantics.eval limit (depth + 1) c.body frame s with
      | (.error er, s') => exact run_error limit er .leave stack (depth + 1) s'
      | (.ok v, s') => exact run_ok limit v .leave stack (depth + 1) s'
termination_by (limit - depth, 0)

end

theorem run_eval_nil (limit depth : Nat) (e : Expr) (env : ScopeId) (session : Session ε) :
    run limit (.eval e env [] depth session) =
      ⟨(Semantics.eval limit depth e env session).1, depth, (Semantics.eval limit depth e env session).2⟩ := by
  rw [run_eval_eq, runAnswer, run_answer]

theorem run_call_nil (limit depth : Nat) (name : String) (callee : Callable ε) (args : List (Value ε))
    (session : Session ε) :
    run limit (call limit name callee args [] depth session) =
      ⟨(Semantics.call limit depth name callee args session).1, depth,
        (Semantics.call limit depth name callee args session).2⟩ := by
  rw [run_call_eq, runAnswer, run_answer]

end Machine
end Lisplet
