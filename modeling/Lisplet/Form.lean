import Lisplet.Error
import Lisplet.Expr.Shape
/-!
# Forms

What an expression asks an evaluator to do.  `Expr.form` sorts expressions by their shape and finds every fault that the
shape alone shows, before anything is evaluated.  What a form still has to evaluate is a proper part of the expression
(`Expr.nodes_call_lt` and its neighbours), which is what keeps evaluation from going round in circles.
-/
namespace Lisplet

inductive Form where
  | constant (n : Number)
  | reference (name : String)
  | define (name : String) (value : Expr)
  | branch (condition consequent alternative : Expr)
  | lambda (params : List String) (body : Expr)
  | call (head : Expr) (operands : List Expr)

namespace Form

/-- The names of a parameter list behind those already `seen`, the last one first. -/
def parametersFrom : List String → List Expr → Except Malformed (List String)
  | seen, [] => .ok seen.reverse
  | seen, e :: rest =>
    match e.symbol? with
    | none => .error (.lambdaParameter e)
    | some name => if name ∈ seen then .error (.duplicateParameter name) else parametersFrom (name :: seen) rest

def ofDefine : List Expr → Except Malformed Form
  | [target, value] =>
    match target.symbol? with
    | some name => .ok (.define name value)
    | none => .error (.defineTarget target)
  | operands => .error (.defineOperands operands.length)

def ofBranch : List Expr → Except Malformed Form
  | [condition, consequent, alternative] => .ok (.branch condition consequent alternative)
  | operands => .error (.branchOperands operands.length)

def ofLambda : List Expr → Except Malformed Form
  | [.list params, body] => (parametersFrom [] params).map (.lambda · body)
  | [params, _] => .error (.lambdaParameters params)
  | operands => .error (.lambdaOperands operands.length)

end Form

def Expr.form : Expr → Except Malformed Form
  | .num n => .ok (.constant n)
  | .symbol name => .ok (.reference name)
  | .keyword k => .error (.keywordValue k)
  | .list [] => .error .emptyCall
  | .list (.keyword .define :: operands) => Form.ofDefine operands
  | .list (.keyword .branch :: operands) => Form.ofBranch operands
  | .list (.keyword .lambda :: operands) => Form.ofLambda operands
  | .list (head :: operands) => .ok (.call head operands)

/-- The name under which a call is reported: the head's, if the head is a symbol. -/
def Expr.calleeName (head : Expr) : String :=
  head.symbol?.getD "lambda"

/-! ## The parts of a form are smaller than the expression -/

namespace Form

theorem ofDefine_eq {operands : List Expr} {name : String} {value : Expr}
    (h : ofDefine operands = .ok (.define name value)) : operands = [.symbol name, value] := by
  unfold ofDefine at h
  split at h
  · split at h
    · next hs => cases h; rw [Expr.symbol?_eq_some.1 hs]
    · cases h
  · cases h

theorem ofBranch_eq {operands : List Expr} {c a b : Expr} (h : ofBranch operands = .ok (.branch c a b)) :
    operands = [c, a, b] := by
  unfold ofBranch at h
  split at h
  · cases h; rfl
  · cases h

theorem ofLambda_eq {operands : List Expr} {names : List String} {body : Expr}
    (h : ofLambda operands = .ok (.lambda names body)) :
    ∃ params, operands = [.list params, body] ∧ parametersFrom [] params = .ok names := by
  unfold ofLambda at h
  split at h
  · next params body =>
    cases hp : parametersFrom [] params with
    | error m => rw [hp] at h; cases h
    | ok found => rw [hp] at h; cases h; exact ⟨params, rfl, hp⟩
  · cases h
  · cases h

theorem ofDefine_ok {operands : List Expr} {f : Form} (h : ofDefine operands = .ok f) :
    ∃ name value, f = .define name value := by
  unfold ofDefine at h
  split at h
  · split at h
    · cases h; exact ⟨_, _, rfl⟩
    · cases h
  · cases h

theorem ofBranch_ok {operands : List Expr} {f : Form} (h : ofBranch operands = .ok f) :
    ∃ c a b, f = .branch c a b := by
  unfold ofBranch at h
  split at h
  · cases h; exact ⟨_, _, _, rfl⟩
  · cases h

theorem ofLambda_ok {operands : List Expr} {f : Form} (h : ofLambda operands = .ok f) :
    ∃ params body, f = .lambda params body := by
  unfold ofLambda at h
  split at h
  · next params body =>
    cases hp : parametersFrom [] params with
    | error m => rw [hp] at h; cases h
    | ok names => rw [hp] at h; cases h; exact ⟨_, _, rfl⟩
  · cases h
  · cases h

end Form

namespace Expr

theorem eq_of_form_reference {e : Expr} {name : String} (h : e.form = .ok (.reference name)) : e = .symbol name := by
  unfold form at h
  split at h
  · cases h
  · cases h; rfl
  · cases h
  · cases h
  · obtain ⟨_, _, hf⟩ := Form.ofDefine_ok h; cases hf
  · obtain ⟨_, _, _, hf⟩ := Form.ofBranch_ok h; cases hf
  · obtain ⟨_, _, hf⟩ := Form.ofLambda_ok h; cases hf
  · cases h

theorem eq_of_form_define {e : Expr} {name : String} {value : Expr} (h : e.form = .ok (.define name value)) :
    e = .list [.keyword .define, .symbol name, value] := by
  unfold form at h
  split at h
  · cases h
  · cases h
  · cases h
  · cases h
  · rw [Form.ofDefine_eq h]
  · obtain ⟨_, _, _, hf⟩ := Form.ofBranch_ok h; cases hf
  · obtain ⟨_, _, hf⟩ := Form.ofLambda_ok h; cases hf
  · cases h

theorem eq_of_form_branch {e c a b : Expr} (h : e.form = .ok (.branch c a b)) :
    e = .list [.keyword .branch, c, a, b] := by
  unfold form at h
  split at h
  · cases h
  · cases h
  · cases h
  · cases h
  · obtain ⟨_, _, hf⟩ := Form.ofDefine_ok h; cases hf
  · rw [Form.ofBranch_eq h]
  · obtain ⟨_, _, hf⟩ := Form.ofLambda_ok h; cases hf
  · cases h

theorem eq_of_form_lambda {e : Expr} {names : List String} {body : Expr} (h : e.form = .ok (.lambda names body)) :
    ∃ params, e = .list [.keyword .lambda, .list params, body] ∧ Form.parametersFrom [] params = .ok names := by
  unfold form at h
  split at h
  · cases h
  · cases h
  · cases h
  · cases h
  · obtain ⟨_, _, hf⟩ := Form.ofDefine_ok h; cases hf
  · obtain ⟨_, _, _, hf⟩ := Form.ofBranch_ok h; cases hf
  · obtain ⟨params, rfl, hp⟩ := Form.ofLambda_eq h; exact ⟨params, rfl, hp⟩
  · cases h

theorem eq_of_form_call {e head : Expr} {operands : List Expr} (h : e.form = .ok (.call head operands)) :
    e = .list (head :: operands) := by
  unfold form at h
  split at h
  · cases h
  · cases h
  · cases h
  · cases h
  · obtain ⟨_, _, hf⟩ := Form.ofDefine_ok h; cases hf
  · obtain ⟨_, _, _, hf⟩ := Form.ofBranch_ok h; cases hf
  · obtain ⟨_, _, hf⟩ := Form.ofLambda_ok h; cases hf
  · cases h; rfl

theorem nodes_define_lt {e : Expr} {name : String} {value : Expr} (h : e.form = .ok (.define name value)) :
    value.nodes < e.nodes := by
  rw [eq_of_form_define h]; simp only [nodes, nodesItems]; omega

theorem nodes_branch_lt {e c a b : Expr} (h : e.form = .ok (.branch c a b)) :
    c.nodes < e.nodes ∧ a.nodes < e.nodes ∧ b.nodes < e.nodes := by
  rw [eq_of_form_branch h]; simp only [nodes, nodesItems]; omega

theorem nodes_call_lt {e head : Expr} {operands : List Expr} (h : e.form = .ok (.call head operands)) :
    head.nodes + nodesItems operands < e.nodes := by
  rw [eq_of_form_call h]; simp only [nodes, nodesItems]; omega

end Expr
end Lisplet
