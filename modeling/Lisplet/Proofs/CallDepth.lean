import Lisplet.Proofs.Limit
import Mathlib.Data.List.Chain
/-!
# Calls in progress

The counter of an evaluator counts the calls in progress: those at the start of a run and those that have left a frame on
the stack since (`State.Counts.step`).  A call is let in below the limit only, so the counter never goes beyond the limit,
and when the stack is empty again it is where it was, after an error too.

What a run records tells the same story.  The counts at which closures are called begin with the count at the start, stay
at or above it and below the limit, and never rise by more than one at a time (`Climbs`).  A refusal for the limit is the
last event of the run that it ends, and there is none in any other run (`Warns`).
-/
namespace Lisplet

variable {ε α β : Type}

/-! ## The counter -/

namespace Machine

def callsOn : List (Frame ε) → Nat
  | [] => 0
  | .leave :: stack => callsOn stack + 1
  | _ :: stack => callsOn stack

/-- **The counter of the state counts the calls in progress**, `start` of them from before, and is within the limit. -/
structure State.Counts (limit start : Nat) (st : State ε) : Prop where
  depth : st.depth = start + callsOn st.stack
  le : st.depth ≤ limit

variable {limit start : Nat} {stack : List (Frame ε)} {depth : Nat} {session : Session ε}

theorem counts_enter (hd : depth = start + callsOn stack) (hl : depth ≤ limit) (e : Expr) (env : ScopeId) :
    (enter e env stack depth session).Counts limit start := by
  unfold enter
  split <;> exact ⟨hd, hl⟩

theorem counts_leave (hd : depth = start + callsOn (.leave :: stack)) (hl : depth ≤ limit)
    (r : Except Error (Value ε)) : (State.answer r stack (depth - 1) session).Counts limit start := by
  have hstack : depth = start + (callsOn stack + 1) := hd
  refine ⟨?_, Nat.le_trans (Nat.sub_le depth 1) hl⟩
  show depth - 1 = start + callsOn stack
  omega

theorem counts_unwind {frame : Frame ε} (hd : depth = start + callsOn (frame :: stack)) (hl : depth ≤ limit)
    (e : Error) : (unwind e frame stack depth session).Counts limit start := by
  cases frame with
  | define | branch | head | operand => exact ⟨hd, hl⟩
  | leave => exact counts_leave hd hl _

variable [Host ε]

theorem counts_call (hd : depth = start + callsOn stack) (hl : depth ≤ limit) (name : String) (callee : Callable ε)
    (args : List (Value ε)) : (call limit name callee args stack depth session).Counts limit start := by
  cases callee with
  | builtin tool => exact ⟨hd, hl⟩
  | closure c =>
    cases hb : session.beginCall limit depth name c args with
    | error refusal =>
      simp only [call, hb]
      exact ⟨hd, hl⟩
    | ok opened =>
      have hlt := Session.depth_lt_of_beginCall hb
      simp only [call, hb]
      refine ⟨?_, hlt⟩
      show depth + 1 = start + (callsOn stack + 1)
      omega

theorem counts_operands (hd : depth = start + callsOn stack) (hl : depth ≤ limit) (name : String) (callee : Callable ε)
    (done : List (Value ε)) (rest : List Expr) (env : ScopeId) :
    (operands limit name callee done rest env stack depth session).Counts limit start := by
  cases rest with
  | nil => exact counts_call hd hl name callee done.reverse
  | cons e rest => exact ⟨hd, hl⟩

theorem counts_resume {frame : Frame ε} (hd : depth = start + callsOn (frame :: stack)) (hl : depth ≤ limit)
    (v : Value ε) : (resume limit v frame stack depth session).Counts limit start := by
  cases frame with
  | define name env => exact ⟨hd, hl⟩
  | branch consequent alternative env => exact ⟨hd, hl⟩
  | head head rest env =>
    have hstack : depth = start + callsOn stack := hd
    simp only [resume]
    cases v.callable? with
    | none => exact ⟨hstack, hl⟩
    | some callee => exact counts_operands hstack hl _ callee [] rest env
  | operand name callee done rest env =>
    have hstack : depth = start + callsOn stack := hd
    exact counts_operands hstack hl name callee (v :: done) rest env
  | leave => exact counts_leave hd hl _

/-- **A step keeps the count.** -/
theorem State.Counts.step {s t : State ε} (h : s.Counts limit start) (hs : step limit s = .inl t) :
    t.Counts limit start := by
  obtain ⟨focus, stack, depth, session⟩ := s
  obtain ⟨hd, hl⟩ := h
  cases focus with
  | eval e env =>
    cases hs
    exact counts_enter hd hl e env
  | answer result =>
    cases stack with
    | nil => cases hs
    | cons frame stack =>
      cases result with
      | error e =>
        cases hs
        exact counts_unwind hd hl e
      | ok v =>
        cases hs
        exact counts_resume hd hl v

theorem State.Counts.passes {s t : State ε} (h : s.Counts limit start) (hp : Passes limit s t) : t.Counts limit start :=
  hp.invariant (fun _ _ hc hs => hc.step hs) h

end Machine

/-! ## The counts in the record -/

def Event.callDepth? : Event → Option Nat
  | .closure _ _ depth => some depth
  | _ => none

def callDepths (log : List Event) : List Nat :=
  log.filterMap Event.callDepth?

/-- **The calls of a run**: the first one is made at the count `depth`, none below that or at the limit, and each at most
one deeper than the one before it. -/
structure Climbs (limit depth : Nat) (log : List Event) : Prop where
  within : ∀ d ∈ callDepths log, depth ≤ d ∧ d < limit
  first : ∀ d ∈ (callDepths log).head?, d = depth
  rises : (callDepths log).IsChain fun d next => next ≤ d + 1

namespace Climbs

variable {limit depth : Nat} {log log' : List Event}

theorem of_callDepths (h : callDepths log = []) : Climbs limit depth log := by
  constructor
  · simp [h]
  · simp [h]
  · rw [h]
    exact .nil

theorem append (h : Climbs limit depth log) (h' : Climbs limit depth log') : Climbs limit depth (log ++ log') := by
  have happend : callDepths (log ++ log') = callDepths log ++ callDepths log' := List.filterMap_append
  constructor
  · intro d hd
    rw [happend, List.mem_append] at hd
    rcases hd with hd | hd
    · exact h.within d hd
    · exact h'.within d hd
  · intro d hd
    rw [happend, List.head?_append] at hd
    cases hfirst : (callDepths log).head? with
    | none =>
      rw [hfirst] at hd
      exact h'.first d hd
    | some first =>
      rw [hfirst] at hd
      exact h.first d (by rwa [hfirst])
  · rw [happend]
    refine h.rises.append h'.rises fun x hx y hy => ?_
    have hlast := (h.within x (List.mem_of_getLast? hx)).1
    have hnext := h'.first y hy
    omega

theorem enter (hl : depth < limit) (name : String) (params : Nat) (h : Climbs limit (depth + 1) log) :
    Climbs limit depth (.closure name params depth :: log) := by
  have hcons : callDepths (.closure name params depth :: log) = depth :: callDepths log := rfl
  constructor
  · intro d hd
    rw [hcons, List.mem_cons] at hd
    rcases hd with rfl | hd
    · omega
    · have := h.within d hd
      omega
  · simp [hcons]
  · rw [hcons, List.isChain_cons]
    refine ⟨fun d hd => ?_, h.rises⟩
    rw [h.first d hd]

end Climbs

/-- **The refusal for the limit**, if the run ends in one, is recorded once, as the last event, and in no other run. -/
structure Warns (limit : Nat) (log : List Event) (r : Except Error α) : Prop where
  iff : (∃ n, .tooDeep n ∈ log) ↔ ∃ n, r = .error (.tooDeep n)
  last : ∀ n, r = .error (.tooDeep n) →
    n = limit ∧ ∃ before, log = before ++ [.tooDeep limit] ∧ ∀ m, .tooDeep m ∉ before

namespace Warns

variable {limit : Nat} {log log' : List Event}

theorem of_within {r : Except Error α} (hlog : ∀ n, .tooDeep n ∉ log) (hr : WithinLimit r) : Warns limit log r := by
  refine ⟨⟨fun ⟨n, hn⟩ => absurd hn (hlog n), fun ⟨n, hn⟩ => absurd hn (hr n)⟩, fun n hn => ?_⟩
  exact absurd hn (hr n)

theorem refusal (limit : Nat) : Warns limit [.tooDeep limit] (.error (.tooDeep limit) : Except Error α) := by
  refine ⟨⟨fun _ => ⟨limit, rfl⟩, fun _ => ⟨limit, List.mem_singleton.2 rfl⟩⟩, fun n hn => ?_⟩
  cases hn
  exact ⟨rfl, [], rfl, fun m hm => by cases hm⟩

theorem not_mem_of_ok {v : α} (h : Warns limit log (.ok v)) (n : Nat) : .tooDeep n ∉ log := by
  intro hn
  obtain ⟨m, hm⟩ := h.iff.1 ⟨n, hn⟩
  cases hm

theorem of_error {e : Error} (h : Warns limit log (.error e : Except Error α)) :
    Warns limit log (.error e : Except Error β) := by
  constructor
  · simpa using h.iff
  · simpa using h.last

theorem append {r : Except Error α} (hlog : ∀ n, .tooDeep n ∉ log) (h : Warns limit log' r) :
    Warns limit (log ++ log') r := by
  constructor
  · rw [← h.iff]
    simp [hlog]
  · intro n hn
    obtain ⟨hlimit, before, rfl, hbefore⟩ := h.last n hn
    refine ⟨hlimit, log ++ before, by rw [List.append_assoc], fun m => ?_⟩
    simp [hlog, hbefore]

end Warns

namespace Semantics

/-- **The events since `s` account for the calls** on the way to the answer, with `depth` of them in progress before. -/
def Accounts (limit depth : Nat) (s : Session ε) (a : Answer ε α) : Prop :=
  ∃ log, a.2.events = s.events ++ log ∧ Climbs limit depth log ∧ Warns limit log a.1

namespace Accounts

variable {limit depth : Nat} {s t : Session ε}

theorem silent {r : Except Error α} (ht : t.events = s.events) (hr : WithinLimit r) :
    Accounts limit depth s (r, t) := by
  refine ⟨[], by simp [ht], .of_callDepths rfl, .of_within (fun n hn => ?_) hr⟩
  cases hn

theorem record {r : Except Error α} {event : Event} (ht : t.events = s.events ++ [event])
    (hcall : event.callDepth? = none) (hwarn : ∀ n, event ≠ .tooDeep n) (hr : WithinLimit r) :
    Accounts limit depth s (r, t) := by
  refine ⟨[event], ht, .of_callDepths ?_, .of_within (fun n hn => ?_) hr⟩
  · simp [callDepths, hcall]
  · exact hwarn n (List.mem_singleton.1 hn).symm

theorem bind {a : Answer ε α} {f : α → Session ε → Answer ε β} (ha : Accounts limit depth s a)
    (hf : ∀ v t, Accounts limit depth t (f v t)) : Accounts limit depth s (a.bind f) := by
  obtain ⟨log, hlog, hclimbs, hwarns⟩ := ha
  match a, hlog, hwarns with
  | (.error e, t), hlog, hwarns => exact ⟨log, hlog, hclimbs, hwarns.of_error⟩
  | (.ok v, t), hlog, hwarns =>
    obtain ⟨more, hmore, hclimbs', hwarns'⟩ := hf v t
    refine ⟨log ++ more, ?_, hclimbs.append hclimbs', hwarns'.append hwarns.not_mem_of_ok⟩
    rw [Answer.bind_ok, hmore, hlog, List.append_assoc]

end Accounts

theorem accounts_callWith {limit depth : Nat} {head : Expr} {operands : Session ε → Answer ε (List (Value ε))}
    {call : Callable ε → List (Value ε) → Session ε → Answer ε (Value ε)}
    (ho : ∀ t, Accounts limit depth t (operands t)) (hc : ∀ callee args t, Accounts limit depth t (call callee args t))
    (v : Value ε) (t : Session ε) : Accounts limit depth t (callWith head operands call v t) := by
  unfold callWith
  split
  · exact .silent rfl fun n hn => by cases hn
  · next callee _ => exact (ho t).bind (hc callee)

theorem accounts_refused {limit depth : Nat} {name : String} {c : Closure} {args : List (Value ε)} {s t : Session ε}
    {cause : Error} (h : s.beginCall limit depth name c args = .error (cause, t)) :
    Accounts limit depth s ((.error cause, t) : Answer ε α) := by
  rcases Session.beginCall_eq_error h with ⟨_, rfl, rfl⟩ | ⟨_, _, rfl, rfl⟩
  · exact .silent rfl fun n hn => by cases hn
  · exact ⟨[.tooDeep limit], s.events_record _, .of_callDepths rfl, .refusal limit⟩

theorem accounts_entered {limit depth : Nat} {name : String} {c : Closure} {args : List (Value ε)} {s t : Session ε}
    {frame : ScopeId} {a : Answer ε (Value ε)} (h : s.beginCall limit depth name c args = .ok (frame, t))
    (ha : Accounts limit (depth + 1) t a) : Accounts limit depth s a := by
  obtain ⟨_, hl, rfl, rfl⟩ := Session.beginCall_eq_ok h
  obtain ⟨log, hlog, hclimbs, hwarns⟩ := ha
  have hcall : ∀ n, Event.tooDeep n ∉ [Event.closure name c.params.length depth] := by simp
  refine ⟨.closure name c.params.length depth :: log, ?_, hclimbs.enter hl name c.params.length, hwarns.append hcall⟩
  rw [hlog, Session.events_record, List.append_assoc]
  rfl

variable [Host ε]

/-- **Every rule of evaluation accounts for its calls.** -/
theorem accounts_closed (limit : Nat)
    (hosts : ∀ (tool : ε) (args : List (Value ε)), WithinLimit (Host.run tool args)) :
    Closed limit
      (fun depth _ _ (s : Session ε) a => Accounts limit depth s a)
      (fun depth _ _ s a => Accounts limit depth s a)
      (fun depth _ _ _ s a => Accounts limit depth s a) where
  malformed _ := .silent rfl fun n hn => by cases hn
  constant _ := .silent rfl (.ok _)
  reference _ := .silent rfl (Store.withinLimit_resolve _ _ _)
  define _ hv := hv.bind fun v t => .record (t.events_record _) rfl (fun n hn => by cases hn) (.ok _)
  branch _ hc hx hy := hc.bind fun v t => by
    split
    · exact hx t
    · exact hy t
  lambda _ := .silent rfl (.ok _)
  call _ hh ho hc := hh.bind (accounts_callWith ho hc)
  nil := .silent rfl (.ok _)
  cons he hr := he.bind fun v t => (hr t).bind fun vs u => .silent rfl (.ok _)
  builtin {_ _ tool args s} :=
    .record (s.events_record _) rfl (fun n hn => by cases hn) (tool.withinLimit_run hosts args)
  refused hb := accounts_refused hb
  entered hb ha := accounts_entered hb ha

end Semantics

/-! ## Evaluators -/

/-- **A run that keeps count of its calls.**  It starts with `depth` calls in progress and ends with as many; in each
state that it passes through, the counter counts them and is within the limit; and what it records accounts for them. -/
structure Outcome.KeepsCount (limit depth : Nat) (session : Session ε) (passes : Machine.State ε → Prop)
    (o : Outcome ε) : Prop where
  restored : o.depth = depth
  counter : ∀ st, passes st → st.Counts limit depth
  record : Semantics.Accounts limit depth session o.answer

namespace Evaluator

variable [Host ε] (ev : Evaluator)

/-- The states that the machine passes through while a program is executed: while it evaluates one of the forms, those
before it having succeeded. -/
def PassesExecuting (program : List Expr) (session : Session ε) (st : Machine.State ε) : Prop :=
  ∃ before form after v depth t, program = before ++ form :: after ∧
    ev.executeFrom .null (session.record (.program program.length)) before = ⟨.ok v, depth, t⟩ ∧
    Machine.Passes ev.config.maxDepth (.eval form ev.env [] depth t) st

/-- The states that the machine passes through while a value is applied; there are none if it cannot be. -/
def PassesApplying (name : String) (callee : Value ε) (args : List (Value ε)) (session : Session ε)
    (st : Machine.State ε) : Prop :=
  ∃ c, callee.callable? = some c ∧
    Machine.Passes ev.config.maxDepth (Machine.call ev.config.maxDepth name c args [] ev.depth session) st

theorem accounts_executeFrom (hosts : ∀ (tool : ε) (args : List (Value ε)), WithinLimit (Host.run tool args))
    (last : Value ε) (session : Session ε) (program : List Expr) :
    Semantics.Accounts ev.config.maxDepth ev.depth session (ev.executeFrom last session program).answer := by
  induction program generalizing last session with
  | nil => exact .silent rfl (.ok _)
  | cons form rest ih =>
    rw [answer_executeFrom_cons]
    exact ((Semantics.accounts_closed _ hosts).eval ev.depth form ev.env session).bind ih

theorem accounts_apply (hosts : ∀ (tool : ε) (args : List (Value ε)), WithinLimit (Host.run tool args)) (name : String)
    (callee : Value ε) (args : List (Value ε)) (session : Session ε) :
    Semantics.Accounts ev.config.maxDepth ev.depth session (ev.apply name callee args session).answer := by
  rw [apply_eq]
  cases callee.callable? with
  | none => exact .silent rfl fun n hn => by cases hn
  | some callee => exact (Semantics.accounts_closed _ hosts).apply ev.depth name callee args session

/-- **Evaluators keep count.**  Evaluating an expression, executing a program or applying a value, with no more calls in
progress than the limit allows, leaves as many calls in progress as before, whether it succeeds or fails.  On the way the
counter is never below what it was at the start and never beyond the limit, so a word that holds the limit holds it too.
The record shows the count at every call of a closure, and a refusal for the limit exactly where the run ends in one.
Tools are taken not to refuse for a limit of calls by themselves. -/
theorem keepsCount (hosts : ∀ (tool : ε) (args : List (Value ε)), WithinLimit (Host.run tool args))
    (hd : ev.depth ≤ ev.config.maxDepth) (session : Session ε) :
    (∀ (e : Expr) (env : ScopeId),
      (ev.evaluate e env session).KeepsCount ev.config.maxDepth ev.depth session
        (Machine.Passes ev.config.maxDepth (.eval e env [] ev.depth session))) ∧
    (∀ program : List Expr,
      (ev.execute program session).KeepsCount ev.config.maxDepth ev.depth session
        (ev.PassesExecuting program session)) ∧
    ∀ (name : String) (callee : Value ε) (args : List (Value ε)),
      (ev.apply name callee args session).KeepsCount ev.config.maxDepth ev.depth session
        (ev.PassesApplying name callee args session) := by
  have hcounts : ∀ (form : Expr) (env : ScopeId) (t : Session ε),
      (Machine.State.eval form env [] ev.depth t).Counts ev.config.maxDepth ev.depth :=
    fun form env t => ⟨rfl, hd⟩
  refine ⟨fun e env => ⟨?_, fun st hst => ?_, ?_⟩, fun program => ⟨?_, fun st hst => ?_, ?_⟩,
    fun name callee args => ⟨?_, fun st hst => ?_, ?_⟩⟩
  · rw [evaluate_eq]
  · exact (hcounts e env session).passes hst
  · rw [answer_evaluate]
    exact (Semantics.accounts_closed _ hosts).eval ev.depth e env session
  · exact ev.depth_executeFrom _ _ _
  · obtain ⟨before, form, after, v, depth, t, _, hbefore, hst⟩ := hst
    have hdepth : depth = ev.depth := by
      rw [← ev.depth_executeFrom .null (session.record (.program program.length)) before, hbefore]
    subst hdepth
    exact (hcounts form ev.env t).passes hst
  · have hprogram : Semantics.Accounts ev.config.maxDepth ev.depth session
        ((.ok .null, session.record (.program program.length)) : Semantics.Answer ε (Value ε)) :=
      .record (session.events_record _) rfl (fun n hn => by cases hn) (.ok _)
    exact hprogram.bind fun v t => ev.accounts_executeFrom hosts v t program
  · rw [apply_eq]
    split <;> rfl
  · obtain ⟨c, _, hst⟩ := hst
    exact (Machine.counts_call rfl hd name c args).passes hst
  · exact ev.accounts_apply hosts name callee args session

/-- A function that calls itself for ever, under the limit 3. -/
theorem keepsCount_selfCall :
    (((Evaluator.inScope 1).withLimit 3).execute
      [.list [.keyword .define, .symbol "f", .list [.keyword .lambda, .list [], .list [.symbol "f"]]],
        .list [.symbol "f"]] (.ofStore (Store.fresh (ε := Probe) .empty).2)).KeepsCount 3 0
      (.ofStore (Store.fresh .empty).2)
      (((Evaluator.inScope 1).withLimit 3).PassesExecuting
        [.list [.keyword .define, .symbol "f", .list [.keyword .lambda, .list [], .list [.symbol "f"]]],
          .list [.symbol "f"]] (.ofStore (Store.fresh .empty).2)) :=
  (keepsCount ((Evaluator.inScope 1).withLimit 3) Probe.withinLimit_run (by decide) _).2.1 _

end Evaluator
end Lisplet
