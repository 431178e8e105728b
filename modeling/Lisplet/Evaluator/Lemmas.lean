import Lisplet.Evaluator
import Lisplet.Machine.Agreement
/-!
# What evaluators do, by recursion

The operations of an evaluator in terms of `Semantics`.  None of them changes how many calls are in progress, so a program
runs its forms with one and the same evaluator, also after an error.
-/
namespace Lisplet
namespace Evaluator

variable {ε : Type} [Host ε]

theorem evaluate_eq (ev : Evaluator) (e : Expr) (env : ScopeId) (session : Session ε) :
    ev.evaluate e env session =
      ⟨(Semantics.eval ev.config.maxDepth ev.depth e env session).1, ev.depth,
        (Semantics.eval ev.config.maxDepth ev.depth e env session).2⟩ :=
  Machine.run_eval_nil ..

theorem apply_eq (ev : Evaluator) (name : String) (callee : Value ε) (args : List (Value ε)) (session : Session ε) :
    ev.apply name callee args session =
      match callee.callable? with
      | none => ⟨.error (.malformed (.notCallable (.symbol name) callee.kind)), ev.depth, session⟩
      | some callee =>
        ⟨(Semantics.call ev.config.maxDepth ev.depth name callee args session).1, ev.depth,
          (Semantics.call ev.config.maxDepth ev.depth name callee args session).2⟩ := by
  unfold apply
  cases callee.callable? with
  | none => rfl
  | some callee => exact Machine.run_call_nil ..

@[simp] theorem executeFrom_nil (ev : Evaluator) (last : Value ε) (session : Session ε) :
    ev.executeFrom last session [] = ⟨.ok last, ev.depth, session⟩ := rfl

theorem executeFrom_cons (ev : Evaluator) (last : Value ε) (session : Session ε) (form : Expr) (rest : List Expr) :
    ev.executeFrom last session (form :: rest) =
      match Semantics.eval ev.config.maxDepth ev.depth form ev.env session with
      | (.error e, session) => ⟨.error e, ev.depth, session⟩
      | (.ok v, session) => ev.executeFrom v session rest := by
  rw [executeFrom, evaluate_eq]
  cases Semantics.eval ev.config.maxDepth ev.depth form ev.env session with
  | mk result session =>
    cases result with
    | error e => rfl
    | ok v => rfl

theorem depth_executeFrom (ev : Evaluator) (last : Value ε) (session : Session ε) (program : List Expr) :
    (ev.executeFrom last session program).depth = ev.depth := by
  induction program generalizing last session with
  | nil => rfl
  | cons form rest ih =>
    rw [executeFrom_cons]
    split
    · rfl
    · exact ih _ _

end Evaluator
end Lisplet
