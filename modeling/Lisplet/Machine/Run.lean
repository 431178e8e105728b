import Lisplet.Machine.Step
/-!
# The machine: runs

Every run of the machine ends (`wellFounded_next`).  An answer on a stack is settled once what lies below it is, and an
expression is settled on a stack on which every answer is: its parts are smaller, and the body of a closure, which may be
any expression, is evaluated with one call less to spare.  So `run` needs no bound on the number of its steps.
-/
namespace Lisplet

variable {ε : Type} [Host ε]

namespace Machine

def Next (limit : Nat) (t s : State ε) : Prop :=
  step limit s = .inl t

/-- From `s` on, the machine takes finitely many steps. -/
abbrev Ends (limit : Nat) (s : State ε) : Prop :=
  Acc (Next limit) s

/-- Every answer on this stack leads to an end. -/
def Settles (limit : Nat) (stack : List (Frame ε)) (depth : Nat) : Prop :=
  ∀ (result : Except Error (Value ε)) (session : Session ε), Ends limit (.answer result stack depth session)

theorem ends_of_step {limit : Nat} {s t : State ε} (h : step limit s = .inl t) (ht : Ends limit t) : Ends limit s :=
  ⟨_, fun u hu => by
    have : u = t := Sum.inl.inj (hu.symm.trans h)
    exact this ▸ ht⟩

theorem ends_of_final {limit : Nat} {s : State ε} {o : Outcome ε} (h : step limit s = .inr o) : Ends limit s :=
  ⟨_, fun _ hu => by cases hu.symm.trans h⟩

theorem ends_eval {limit : Nat} {e : Expr} {env : ScopeId} {stack : List (Frame ε)} {depth : Nat}
    {session : Session ε} (h : Ends limit (enter e env stack depth session)) :
    Ends limit (.eval e env stack depth session) :=
  ends_of_step rfl h

theorem settles_cons {limit : Nat} {frame : Frame ε} {stack : List (Frame ε)} {depth : Nat}
    (hv : ∀ (v : Value ε) (session : Session ε), Ends limit (resume limit v frame stack depth session))
    (he : ∀ (e : Error) (session : Session ε), Ends limit (unwind e frame stack depth session)) :
    Settles limit (frame :: stack) depth
  | .ok v, session => ends_of_step rfl (hv v session)
  | .error e, session => ends_of_step rfl (he e session)

theorem settles_leave {limit : Nat} {stack : List (Frame ε)} {depth : Nat} (h : Settles limit stack (depth - 1)) :
    Settles limit (.leave :: stack) depth :=
  settles_cons (fun v session => h (.ok v) session) (fun e session => h (.error e) session)

/-- Every expression ends that is evaluated with at most `budget` calls to spare on a settled stack. -/
def EvalEnds (ε : Type) [Host ε] (limit budget : Nat) (e : Expr) : Prop :=
  ∀ (env : ScopeId) (stack : List (Frame ε)) (depth : Nat) (session : Session ε),
    limit - depth ≤ budget → Settles limit stack depth → Ends limit (.eval e env stack depth session)

theorem ends_call {limit budget : Nat} (hb : ∀ b, b < budget → ∀ e, EvalEnds ε limit b e) (name : String)
    (callee : Callable ε) (args : List (Value ε)) (stack : List (Frame ε)) (depth : Nat) (session : Session ε)
    (hd : limit - depth ≤ budget) (hs : Settles limit stack depth) :
    Ends limit (call limit name callee args stack depth session) := by
  unfold call
  split
  · exact hs _ _
  · split
    · exact hs _ _
    · next h =>
      have := Session.depth_lt_of_beginCall h
      exact hb (limit - (depth + 1)) (by omega) _ _ _ _ _ (Nat.le_refl _) (settles_leave hs)

theorem ends_operands {limit budget : Nat} (hb : ∀ b, b < budget → ∀ e, EvalEnds ε limit b e) (name : String)
    (callee : Callable ε) (env : ScopeId) (stack : List (Frame ε)) (depth : Nat) (hd : limit - depth ≤ budget)
    (hs : Settles limit stack depth) :
    ∀ (rest : List Expr), (∀ e ∈ rest, EvalEnds ε limit budget e) → ∀ (done : List (Value ε)) (session : Session ε),
      Ends limit (operands limit name callee done rest env stack depth session)
  | [], _, done, session => ends_call hb name callee done.reverse stack depth session hd hs
  | e :: rest, he, done, session => by
    refine he e List.mem_cons_self env _ depth session hd (settles_cons (fun v session => ?_) (fun e session => hs _ _))
    exact ends_operands hb name callee env stack depth hd hs rest (fun f hf => he f (List.mem_cons_of_mem _ hf))
      (v :: done) session

theorem ends_head {limit budget : Nat} (hb : ∀ b, b < budget → ∀ e, EvalEnds ε limit b e) (head : Expr)
    (rest : List Expr) (he : ∀ e ∈ rest, EvalEnds ε limit budget e) (env : ScopeId) (stack : List (Frame ε))
    (depth : Nat) (hd : limit - depth ≤ budget) (hs : Settles limit stack depth) :
    Settles limit (.head head rest env :: stack) depth := by
  refine settles_cons (fun v session => ?_) (fun e session => hs _ _)
  simp only [resume]
  split
  · exact hs _ _
  · exact ends_operands hb _ _ env stack depth hd hs rest he [] session

theorem nodes_lt_of_mem {e : Expr} : ∀ {es : List Expr}, e ∈ es → e.nodes ≤ Expr.nodesItems es
  | f :: rest, h => by
    rw [Expr.nodesItems]
    rcases List.mem_cons.1 h with rfl | h
    · omega
    · have := nodes_lt_of_mem h; omega

theorem evalEnds_of_smaller {limit budget : Nat} (hb : ∀ b, b < budget → ∀ e, EvalEnds ε limit b e) (e : Expr) :
    EvalEnds ε limit budget e := by
  intro env stack depth session hd hs
  refine ends_eval ?_
  unfold enter
  split
  · exact hs _ _
  · exact hs _ _
  · exact hs _ _
  · next name value h =>
    have := Expr.nodes_define_lt h
    exact evalEnds_of_smaller hb value env _ depth session hd
      (settles_cons (fun v session => hs _ _) (fun e session => hs _ _))
  · next c a b h =>
    have := Expr.nodes_branch_lt h
    refine evalEnds_of_smaller hb c env _ depth session hd (settles_cons (fun v session => ?_) (fun e session => hs _ _))
    cases hv : v.isTruthy
    · simp only [resume, hv]; exact evalEnds_of_smaller hb b env stack depth session hd hs
    · simp only [resume, hv]; exact evalEnds_of_smaller hb a env stack depth session hd hs
  · exact hs _ _
  · next head rest h =>
    have := Expr.nodes_call_lt h
    have hrest : ∀ f ∈ rest, EvalEnds ε limit budget f := fun f hf =>
      have := nodes_lt_of_mem hf
      evalEnds_of_smaller hb f
    exact evalEnds_of_smaller hb head env _ depth session hd (ends_head hb head rest hrest env stack depth hd hs)
termination_by e.nodes
decreasing_by all_goals omega

theorem evalEnds (limit budget : Nat) (e : Expr) : EvalEnds ε limit budget e := by
  induction budget using Nat.strongRecOn generalizing e with
  | ind budget ih => exact evalEnds_of_smaller (fun b hb e => ih b hb e) e

theorem settles (limit : Nat) : ∀ (stack : List (Frame ε)) (depth : Nat), Settles limit stack depth
  | [], _ => fun _ _ => ends_of_final rfl
  | .leave :: stack, depth => settles_leave (settles limit stack (depth - 1))
  | .define _ _ :: stack, depth =>
    settles_cons (fun _ _ => settles limit stack depth _ _) (fun _ _ => settles limit stack depth _ _)
  | .branch _ _ env :: stack, depth =>
    settles_cons (fun _ session => evalEnds limit _ _ env stack depth session (Nat.le_refl _) (settles limit stack depth))
      (fun _ _ => settles limit stack depth _ _)
  | .head head rest env :: stack, depth =>
    ends_head (fun b _ e => evalEnds limit b e) head rest (fun e _ => evalEnds limit _ e) env stack depth
      (Nat.le_refl _) (settles limit stack depth)
  | .operand name callee done rest env :: stack, depth =>
    settles_cons
      (fun v session => ends_operands (fun b _ e => evalEnds limit b e) name callee env stack depth (Nat.le_refl _)
        (settles limit stack depth) rest (fun e _ => evalEnds limit _ e) (v :: done) session)
      (fun _ _ => settles limit stack depth _ _)

/-- **Every run of the machine ends.** -/
theorem wellFounded_next (limit : Nat) : WellFounded (@Next ε _ limit) :=
  ⟨fun
    | ⟨.answer result, stack, depth, session⟩ => settles limit stack depth result session
    | ⟨.eval e env, stack, depth, session⟩ =>
      evalEnds limit _ e env stack depth session (Nat.le_refl _) (settles limit stack depth)⟩

/-- **Runs the machine** to its outcome. -/
def run (limit : Nat) (s : State ε) : Outcome ε :=
  match h : step limit s with
  | .inl t =>
    have : Next limit t s := h
    run limit t
  | .inr outcome => outcome
termination_by (wellFounded_next limit).wrap s

theorem run_of_step {limit : Nat} {s t : State ε} (h : step limit s = .inl t) : run limit s = run limit t := by
  rw [run]; split
  · next u hu =>
    show run limit u = run limit t
    rw [Sum.inl.inj (hu.symm.trans h)]
  · next hu => cases hu.symm.trans h

@[simp] theorem run_answer (limit : Nat) (result : Except Error (Value ε)) (depth : Nat) (session : Session ε) :
    run limit (.answer result [] depth session) = ⟨result, depth, session⟩ := by
  rw [run]; split
  · next hu => cases hu
  · next hu => cases hu; rfl

theorem run_eval (limit : Nat) (e : Expr) (env : ScopeId) (stack : List (Frame ε)) (depth : Nat)
    (session : Session ε) :
    run limit (.eval e env stack depth session) = run limit (enter e env stack depth session) :=
  run_of_step rfl

theorem run_ok (limit : Nat) (v : Value ε) (frame : Frame ε) (stack : List (Frame ε)) (depth : Nat)
    (session : Session ε) :
    run limit (.answer (.ok v) (frame :: stack) depth session) =
      run limit (resume limit v frame stack depth session) :=
  run_of_step rfl

theorem run_error (limit : Nat) (e : Error) (frame : Frame ε) (stack : List (Frame ε)) (depth : Nat)
    (session : Session ε) :
    run limit (.answer (.error e) (frame :: stack) depth session) =
      run limit (unwind e frame stack depth session) :=
  run_of_step rfl

/-! ## The states on the way -/

inductive Passes (limit : Nat) (s : State ε) : State ε → Prop where
  | start : Passes limit s s
  | next {t u : State ε} (ht : Passes limit s t) (hs : step limit t = .inl u) : Passes limit s u

theorem Passes.of_step {limit : Nat} {s t u : State ε} (hs : step limit s = .inl t) (h : Passes limit t u) :
    Passes limit s u := by
  induction h with
  | start => exact .next .start hs
  | next _ hnext ih => exact .next ih hnext

/-- **What every step keeps holds all the way.** -/
theorem Passes.invariant {limit : Nat} {I : State ε → Prop} (hstep : ∀ t u, I t → step limit t = .inl u → I u)
    {s t : State ε} (hs : I s) (h : Passes limit s t) : I t := by
  induction h with
  | start => exact hs
  | next _ hnext ih => exact hstep _ _ ih hnext

theorem eq_answer_of_final {limit : Nat} {s : State ε} {o : Outcome ε} (h : step limit s = .inr o) :
    s = .answer o.result [] o.depth o.session := by
  obtain ⟨focus, stack, depth, session⟩ := s
  cases focus with
  | eval e env => cases h
  | answer result =>
    cases stack with
    | nil => cases h; rfl
    | cons frame stack => cases result <;> cases h

/-- **The last state of a run holds its outcome.** -/
theorem passes_outcome (limit : Nat) (s : State ε) :
    Passes limit s (.answer (run limit s).result [] (run limit s).depth (run limit s).session) := by
  fun_induction run limit s with
  | case1 s t hs _ ih => exact ih.of_step hs
  | case2 s outcome hs =>
    rw [← eq_answer_of_final hs]
    exact .start

end Machine
end Lisplet
