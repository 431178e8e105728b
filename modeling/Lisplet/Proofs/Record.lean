import Lisplet.Proofs.Evaluation
import Lisplet.Proofs.Session
/-!
# Evaluation does not look at the record

Events are written down and never read.  From two sessions with the same store, whatever each has recorded, evaluation
comes to the same result and the same store and records the same events (`oblivious_closed`).
-/
namespace Lisplet

variable {ε α β : Type}

namespace Semantics

/-- **The answer `a`, which `run` gives in the session `s`, has nothing to do with what `s` has recorded**: with any
other record `run` gives the same result and the same store, and records the same on top. -/
def Oblivious (run : Session ε → Answer ε α) (s : Session ε) (a : Answer ε α) : Prop :=
  ∃ new, a.2.recorded = new ++ s.recorded ∧ ∀ recorded, run ⟨s.store, recorded⟩ = (a.1, ⟨a.2.store, new ++ recorded⟩)

namespace Oblivious

variable {run : Session ε → Answer ε α} {s t : Session ε} {a : Answer ε α}

theorem of_step {r : Except Error α} {store : Store ε} (new : List Event)
    (h : ∀ recorded, run ⟨s.store, recorded⟩ = (r, ⟨store, new ++ recorded⟩)) :
    Oblivious run s (r, ⟨store, new ++ s.recorded⟩) :=
  ⟨new, rfl, h⟩

theorem silent {r : Except Error α} {store : Store ε}
    (h : ∀ recorded, run ⟨s.store, recorded⟩ = (r, ⟨store, recorded⟩)) :
    Oblivious run s (r, ⟨store, s.recorded⟩) :=
  of_step [] h

theorem bind {f : α → Session ε → Answer ε β} {g : α → Session ε → Answer ε β} (ha : Oblivious run s a)
    (hf : ∀ v t, Oblivious (g v) t (f v t)) : Oblivious (fun u => (run u).bind g) s (a.bind f) := by
  obtain ⟨new, hnew, hrun⟩ := ha
  match a, hnew, hrun with
  | (.error e, t), hnew, hrun => exact ⟨new, hnew, fun recorded => by simp only [hrun, Answer.bind_error]⟩
  | (.ok v, t), hnew, hrun =>
    obtain ⟨more, hmore, hg⟩ := hf v t
    refine ⟨more ++ new, ?_, fun recorded => ?_⟩
    · show (f v t).2.recorded = _
      rw [hmore, hnew, List.append_assoc]
    · simp only [hrun, Answer.bind_ok, hg, List.append_assoc]

theorem congr {run' : Session ε → Answer ε α} (h : Oblivious run s a) (he : ∀ u, run' u = run u) :
    Oblivious run' s a := by
  obtain ⟨new, hnew, hrun⟩ := h
  exact ⟨new, hnew, fun recorded => (he _).trans (hrun recorded)⟩

end Oblivious

theorem oblivious_callWith {head : Expr} {operands operands' : Session ε → Answer ε (List (Value ε))}
    {enter enter' : Callable ε → List (Value ε) → Session ε → Answer ε (Value ε)}
    (ho : ∀ t, Oblivious operands' t (operands t))
    (hc : ∀ callee args t, Oblivious (enter' callee args) t (enter callee args t)) (v : Value ε) (t : Session ε) :
    Oblivious (callWith head operands' enter' v) t (callWith head operands enter v t) := by
  unfold callWith
  cases v.callable? with
  | none => exact .silent fun _ => rfl
  | some callee => exact (ho t).bind (hc callee)

variable [Host ε]

theorem oblivious_refused {limit depth : Nat} {name : String} {c : Closure} {args : List (Value ε)} {s t : Session ε}
    {cause : Error} (h : s.beginCall limit depth name c args = .error (cause, t)) :
    Oblivious (call limit depth name (.closure c) args) s (.error cause, t) := by
  rcases Session.beginCall_eq_error h with ⟨hp, rfl, rfl⟩ | ⟨hp, hl, rfl, rfl⟩
  · exact .silent fun recorded => call_refused (Session.beginCall_of_length_ne hp)
  · exact .of_step [.tooDeep limit] fun recorded => call_refused (Session.beginCall_of_le hp hl)

theorem oblivious_entered {limit depth : Nat} {name : String} {c : Closure} {args : List (Value ε)} {s t : Session ε}
    {frame : ScopeId} {a : Answer ε (Value ε)} (h : s.beginCall limit depth name c args = .ok (frame, t))
    (ha : Oblivious (eval limit (depth + 1) c.body frame) t a) :
    Oblivious (call limit depth name (.closure c) args) s a := by
  obtain ⟨hp, hl, rfl, rfl⟩ := Session.beginCall_eq_ok h
  obtain ⟨new, hnew, hrun⟩ := ha
  refine ⟨new ++ [.closure name c.params.length depth], ?_, fun recorded => ?_⟩
  · rw [hnew, List.append_assoc]
    rfl
  · -- the frame is opened in the store alone, so the body is entered with the same store as before
    rw [call_entered (Session.beginCall_of_lt hp hl), List.append_assoc]
    exact hrun (.closure name c.params.length depth :: recorded)

/-- **No rule of evaluation looks at the record.** -/
theorem oblivious_closed (limit : Nat) :
    Closed limit
      (fun depth e env (s : Session ε) a => Oblivious (eval limit depth e env) s a)
      (fun depth es env s a => Oblivious (evalOperands limit depth es env) s a)
      (fun depth name callee args s a => Oblivious (call limit depth name callee args) s a) where
  malformed hf := .silent fun _ => eval_malformed hf
  constant hf := .silent fun _ => eval_constant hf
  reference hf := .silent fun _ => eval_reference hf
  define {depth e env s name value a} hf hv := by
    refine (hv.bind fun v t => ?_).congr fun u => eval_define hf
    exact .of_step [.define name v.text] fun _ => rfl
  branch hf hc hx hy := by
    refine (hc.bind fun v t => ?_).congr fun u => eval_branch hf
    cases v.isTruthy with
    | true => exact hx t
    | false => exact hy t
  lambda hf := .silent fun _ => eval_lambda hf
  call hf hh ho hc := (hh.bind (oblivious_callWith ho hc)).congr fun u => eval_call hf
  nil := .silent fun _ => evalOperands_nil ..
  cons he hr := by
    refine (he.bind fun v t => ?_).congr fun u => evalOperands_cons_bind _
    exact (hr t).bind fun vs u => .silent fun _ => rfl
  builtin {depth name tool args s} := .of_step [.builtin tool.name args.length] fun _ => call_builtin ..
  refused hb := oblivious_refused hb
  entered hb ha := oblivious_entered hb ha

end Semantics

namespace Evaluator

variable [Host ε]

theorem oblivious_executeFrom (ev : Evaluator) (last : Value ε) (program : List Expr) (session : Session ε) :
    Semantics.Oblivious (fun s => (ev.executeFrom last s program).answer) session
      (ev.executeFrom last session program).answer := by
  induction program generalizing last session with
  | nil => exact .silent fun _ => rfl
  | cons form rest ih =>
    have hform := (Semantics.oblivious_closed ev.config.maxDepth).eval ev.depth form ev.env session
    rw [answer_executeFrom_cons]
    exact (hform.bind fun v t => ih v t).congr fun u => answer_executeFrom_cons ev last u form rest

end Evaluator
end Lisplet
