import Lisplet.Probe
import Lisplet.Proofs.Evaluation
import Lisplet.Proofs.Operators
import Lisplet.Proofs.Session
/-!
# The limit only truncates

A run under a limit of calls and a run under a larger one are the same run for as long as the first one goes on.  Either
the first one is never refused a call, and then both have the same answer and leave the same session, or it ends at the
first refusal, and what it recorded up to there the other one recorded too (`Truncates`).

The argument follows the rules of evaluation (`truncates_closed`).  A run that has parted from the other stays parted, so
all that has to be known of the longer run from there on is that it only adds to the record (`grows_closed`).
-/
namespace Lisplet

variable {ε α β : Type}

/-! ## What is never refused for the limit -/

def WithinLimit (r : Except Error α) : Prop :=
  ∀ limit : Nat, r ≠ .error (.tooDeep limit)

namespace WithinLimit

theorem ok (v : α) : WithinLimit (.ok v) := by
  intro limit h
  cases h

theorem of_error {r : Except Error α} {e : Error} (h : WithinLimit r) (hr : r = .error e) :
    WithinLimit (.error e : Except Error β) := by
  intro limit he
  cases he
  exact h limit hr

end WithinLimit

theorem Faults.withinLimit {r : Except Error α} (h : Faults r) : WithinLimit r := by
  intro limit hr
  cases h _ hr

theorem Tool.withinLimit_run [Host ε] (hosts : ∀ (tool : ε) (args : List (Value ε)), WithinLimit (Host.run tool args))
    (tool : Tool ε) (args : List (Value ε)) : WithinLimit (tool.run args) := by
  cases tool with
  | operator op => exact (op.faults_run args).withinLimit
  | host tool => exact hosts tool args

theorem Store.withinLimit_resolve (s : Store ε) (env : ScopeId) (name : String) :
    WithinLimit (s.resolve env name) := by
  rcases s.resolve_cases env name with ⟨_, v, _, _, h⟩ | ⟨_, _, h⟩ | ⟨_, h⟩
  · rw [h]
    exact .ok v
  · rw [h]
    intro limit he
    cases he
  · rw [h]
    intro limit he
    cases he

/-! ## Parts of a run -/

namespace Semantics

theorem grows_bind {s : Session ε} {a : Answer ε α} {f : α → Session ε → Answer ε β}
    (ha : s.events <+: a.2.events) (hf : ∀ v (t : Session ε), t.events <+: (f v t).2.events) :
    s.events <+: (a.bind f).2.events :=
  Answer.session_bind (R := fun s t => s.events <+: t.events) (fun h h' => h.trans h') ha hf

theorem grows_callWith {head : Expr} {operands : Session ε → Answer ε (List (Value ε))}
    {call : Callable ε → List (Value ε) → Session ε → Answer ε (Value ε)}
    (ho : ∀ t : Session ε, t.events <+: (operands t).2.events)
    (hc : ∀ callee args (t : Session ε), t.events <+: (call callee args t).2.events) (v : Value ε) (t : Session ε) :
    t.events <+: (callWith head operands call v t).2.events := by
  unfold callWith
  split
  · exact List.prefix_rfl
  · next callee _ => exact grows_bind (ho t) (hc callee)

/-- **The answer `a` is the answer `b` or breaks off on the way to it.**  Unless `a` is a refusal under the limit `n`
the two are the same; if it is one, then what was recorded since `start`, the refusal itself apart, was recorded on the
way to `b` too. -/
structure Truncates (n : Nat) (start : Session ε) (a b : Answer ε α) : Prop where
  same : a.1 ≠ .error (.tooDeep n) → a = b
  cut : a.1 = .error (.tooDeep n) →
    ∃ log, a.2.events = start.events ++ log ++ [.tooDeep n] ∧ start.events ++ log <+: b.2.events

namespace Truncates

variable {n : Nat} {s t : Session ε}

theorem rfl_of_within {a : Answer ε α} (h : WithinLimit a.1) : Truncates n s a a :=
  ⟨fun _ => rfl, fun hd => absurd hd (h n)⟩

theorem rebase {a b : Answer ε α} (hst : s.events <+: t.events) (h : Truncates n t a b) : Truncates n s a b where
  same := h.same
  cut hd := by
    obtain ⟨log, ha, hb⟩ := h.cut hd
    obtain ⟨before, hbefore⟩ := hst
    refine ⟨before ++ log, ?_, ?_⟩
    · rw [ha, ← hbefore, List.append_assoc s.events]
    · rwa [← List.append_assoc, hbefore]

/-- **Where the parts are truncated the whole is.**  Once the runs have parted, the rest of the longer one only adds to
the record. -/
theorem bind {a b : Answer ε α} {f g : α → Session ε → Answer ε β} (h : Truncates n s a b)
    (hb : s.events <+: b.2.events) (hf : ∀ v t, Truncates n t (f v t) (g v t))
    (hg : ∀ v (t : Session ε), t.events <+: (g v t).2.events) : Truncates n s (a.bind f) (b.bind g) := by
  by_cases hd : a.1 = .error (.tooDeep n)
  · obtain ⟨r, t⟩ := a
    have hr : r = .error (.tooDeep n) := hd
    subst hr
    obtain ⟨log, ha, hlog⟩ := h.cut hd
    refine ⟨fun hne => absurd rfl hne, fun _ => ⟨log, ha, ?_⟩⟩
    have hgb : b.2.events <+: (b.bind g).2.events := grows_bind List.prefix_rfl hg
    exact hlog.trans hgb
  · have hab := h.same hd
    subst hab
    match a, hb, hd with
    | (.error e, t), _, hd => exact ⟨fun _ => rfl, fun he => absurd (by cases he; rfl) hd⟩
    | (.ok v, t), hb, _ => exact (hf v t).rebase hb

end Truncates

/-! ## Every rule of evaluation -/

variable [Host ε]

/-- **Every rule of evaluation adds to the record** and takes nothing away. -/
theorem grows_closed (limit : Nat) :
    Closed limit
      (fun _ _ _ (s : Session ε) a => s.events <+: a.2.events)
      (fun _ _ _ s a => s.events <+: a.2.events)
      (fun _ _ _ _ s a => s.events <+: a.2.events) where
  malformed _ := List.prefix_rfl
  constant _ := List.prefix_rfl
  reference _ := List.prefix_rfl
  define _ hv := grows_bind hv fun v t => t.prefix_record _
  branch _ hc hx hy := grows_bind hc fun v t => by
    split
    · exact hx t
    · exact hy t
  lambda _ := List.prefix_rfl
  call _ hh ho hc := grows_bind hh (grows_callWith ho hc)
  nil := List.prefix_rfl
  cons he hr := grows_bind he fun v t => grows_bind (hr t) fun _ _ => List.prefix_rfl
  builtin {_ _ _ _ s} := s.prefix_record _
  refused hb := Session.prefix_of_refused hb
  entered hb ha := (Session.prefix_of_entered hb).trans ha

theorem truncates_callWith {n m depth : Nat} {head : Expr} {es : List Expr} {env : ScopeId} {name : String}
    {operands : Session ε → Answer ε (List (Value ε))}
    {enter : Callable ε → List (Value ε) → Session ε → Answer ε (Value ε)}
    (ho : ∀ t, Truncates n t (operands t) (evalOperands m depth es env t))
    (hc : ∀ callee args t, Truncates n t (enter callee args t) (call m depth name callee args t))
    (v : Value ε) (t : Session ε) :
    Truncates n t (callWith head operands enter v t)
      (callWith head (evalOperands m depth es env) (call m depth name) v t) := by
  have hgo := (grows_closed (ε := ε) m).operands depth es env
  have hgc := (grows_closed (ε := ε) m).apply depth name
  unfold callWith
  cases v.callable? with
  | none => exact .rfl_of_within fun limit h => by cases h
  | some callee => exact (ho t).bind (hgo t) (hc callee) (hgc callee)

theorem truncates_refused {n m depth : Nat} {name : String} {c : Closure} {args : List (Value ε)} {s t : Session ε}
    {cause : Error} (h : s.beginCall n depth name c args = .error (cause, t)) :
    Truncates n s (.error cause, t) (call m depth name (.closure c) args s) := by
  rcases Session.beginCall_eq_error h with ⟨hp, rfl, rfl⟩ | ⟨_, _, rfl, rfl⟩
  · rw [call_refused (Session.beginCall_of_length_ne hp)]
    exact .rfl_of_within fun limit he => by cases he
  · refine ⟨fun hne => absurd rfl hne, fun _ => ⟨[], ?_, ?_⟩⟩
    · rw [Session.events_record, List.append_nil]
    · rw [List.append_nil]
      exact (grows_closed m).apply depth name (.closure c) args s

theorem truncates_entered {n m depth : Nat} {name : String} {c : Closure} {args : List (Value ε)} {s t : Session ε}
    {frame : ScopeId} {a : Answer ε (Value ε)} (hnm : n ≤ m) (h : s.beginCall n depth name c args = .ok (frame, t))
    (ha : Truncates n t a (eval m (depth + 1) c.body frame t)) :
    Truncates n s a (call m depth name (.closure c) args s) := by
  have grows := Session.prefix_of_entered h
  obtain ⟨hp, hl, rfl, rfl⟩ := Session.beginCall_eq_ok h
  rw [call_entered (Session.beginCall_of_lt hp (Nat.lt_of_lt_of_le hl hnm))]
  exact ha.rebase grows

/-- **Every rule of evaluation keeps a truncated run a truncated run.** -/
theorem truncates_closed {n m : Nat} (hnm : n ≤ m)
    (hosts : ∀ (tool : ε) (args : List (Value ε)), WithinLimit (Host.run tool args)) :
    Closed n
      (fun depth e env (s : Session ε) a => Truncates n s a (eval m depth e env s))
      (fun depth es env s a => Truncates n s a (evalOperands m depth es env s))
      (fun depth name callee args s a => Truncates n s a (call m depth name callee args s)) where
  malformed hf := by
    rw [eval_malformed hf]
    exact .rfl_of_within fun limit h => by cases h
  constant hf := by
    rw [eval_constant hf]
    exact .rfl_of_within (.ok _)
  reference hf := by
    rw [eval_reference hf]
    exact .rfl_of_within (Store.withinLimit_resolve _ _ _)
  define {depth e env s name value a} hf hv := by
    rw [eval_define hf]
    refine hv.bind ((grows_closed m).eval depth value env s) (fun v t => ?_) fun v t => ?_
    · exact .rfl_of_within (.ok _)
    · exact t.prefix_record _
  branch {depth e env s c x y a A B} hf hc hx hy := by
    have grows := (grows_closed (ε := ε) m).eval depth
    rw [eval_branch hf]
    refine hc.bind (grows c env s) (fun v t => ?_) fun v t => ?_
    · split
      · exact hx t
      · exact hy t
    · split
      · exact grows x env t
      · exact grows y env t
  lambda hf := by
    rw [eval_lambda hf]
    exact .rfl_of_within (.ok _)
  call {depth e env s head operands a A B} hf hh ho hc := by
    have grows := grows_closed (ε := ε) m
    rw [eval_call hf]
    exact hh.bind (grows.eval depth head env s) (truncates_callWith ho hc)
      (grows_callWith (grows.operands depth operands env) (grows.apply depth head.calleeName))
  nil := by
    intro depth env s
    rw [evalOperands_nil]
    exact .rfl_of_within (.ok _)
  cons {depth e rest env s a A} he hr := by
    have grows := grows_closed (ε := ε) m
    rw [evalOperands_cons_bind]
    refine he.bind (grows.eval depth e env s) (fun v t => ?_) fun v t => ?_
    · exact (hr t).bind (grows.operands depth rest env t) (fun vs u => .rfl_of_within (.ok _))
        fun vs u => List.prefix_rfl
    · exact grows_bind (grows.operands depth rest env t) fun vs u => List.prefix_rfl
  builtin {depth name tool args s} := by
    rw [call_builtin]
    exact .rfl_of_within (tool.withinLimit_run hosts args)
  refused hb := truncates_refused hb
  entered hb ha := truncates_entered hnm hb ha

end Semantics

/-! ## Evaluators -/

namespace Evaluator

def withLimit (ev : Evaluator) (limit : Nat) : Evaluator :=
  { ev with config := ⟨limit⟩ }

variable [Host ε]

theorem grows_executeFrom (ev : Evaluator) (last : Value ε) (session : Session ε) (program : List Expr) :
    session.events <+: (ev.executeFrom last session program).answer.2.events := by
  induction program generalizing last session with
  | nil => exact List.prefix_rfl
  | cons form rest ih =>
    rw [answer_executeFrom_cons]
    exact Semantics.grows_bind ((Semantics.grows_closed _).eval ev.depth form ev.env session) ih

theorem truncates_executeFrom {n m : Nat} (hnm : n ≤ m)
    (hosts : ∀ (tool : ε) (args : List (Value ε)), WithinLimit (Host.run tool args)) (ev : Evaluator)
    (last : Value ε) (session : Session ε) (program : List Expr) :
    Semantics.Truncates n session ((ev.withLimit n).executeFrom last session program).answer
      ((ev.withLimit m).executeFrom last session program).answer := by
  induction program generalizing last session with
  | nil => exact .rfl_of_within (.ok _)
  | cons form rest ih =>
    rw [answer_executeFrom_cons, answer_executeFrom_cons]
    refine ((Semantics.truncates_closed hnm hosts).eval ev.depth form ev.env session).bind ?_ ih ?_
    · exact (Semantics.grows_closed m).eval ev.depth form ev.env session
    · exact fun v t => (ev.withLimit m).grows_executeFrom v t rest

/-- **The limit only truncates.**  Under two limits, the lower one first, an expression or a program ends in the same
answer and leaves the same session, unless the first run is refused a call; then all that it recorded before the refusal
the second run recorded too.  Tools are taken not to refuse for a limit of calls by themselves. -/
theorem truncates_withLimit (hosts : ∀ (tool : ε) (args : List (Value ε)), WithinLimit (Host.run tool args))
    {n m : Nat} (hnm : n ≤ m) (ev : Evaluator) (session : Session ε) :
    (∀ (e : Expr) (env : ScopeId), Semantics.Truncates n session ((ev.withLimit n).evaluate e env session).answer
      ((ev.withLimit m).evaluate e env session).answer) ∧
    ∀ program : List Expr, Semantics.Truncates n session ((ev.withLimit n).execute program session).answer
      ((ev.withLimit m).execute program session).answer := by
  refine ⟨fun e env => ?_, fun program => ?_⟩
  · rw [answer_evaluate, answer_evaluate]
    exact (Semantics.truncates_closed hnm hosts).eval ev.depth e env session
  · have h := truncates_executeFrom hnm hosts ev .null (session.record (.program program.length)) program
    exact h.rebase (session.prefix_record _)

end Evaluator

namespace Probe

theorem withinLimit_run (p : Probe) (args : List (Value Probe)) : WithinLimit (Host.run p args) := by
  intro limit h
  change p.run args = .error (.tooDeep limit) at h
  rcases p.run_cases args with ⟨_, hr⟩ | hr | ⟨_, hr⟩ | ⟨_, hr⟩ | hr <;> cases hr.symm.trans h

end Probe

namespace Evaluator

/-- A function that calls itself for ever, under the limits 2 and 5. -/
theorem truncates_selfCall :
    Semantics.Truncates 2 (.ofStore (Store.fresh .empty).2)
      (((Evaluator.inScope 1).withLimit 2).execute
        [.list [.keyword .define, .symbol "f", .list [.keyword .lambda, .list [], .list [.symbol "f"]]],
          .list [.symbol "f"]] (.ofStore (Store.fresh (ε := Probe) .empty).2)).answer
      (((Evaluator.inScope 1).withLimit 5).execute
        [.list [.keyword .define, .symbol "f", .list [.keyword .lambda, .list [], .list [.symbol "f"]]],
          .list [.symbol "f"]] (.ofStore (Store.fresh .empty).2)).answer :=
  (truncates_withLimit Probe.withinLimit_run (by decide) (Evaluator.inScope 1) _).2 _

end Evaluator
end Lisplet
