import Lisplet.Proofs.Renaming
import Mathlib.Logic.Equiv.Basic
/-!
# No name is special

A run with all names changed is the run with its names changed: the same value or the same error, the renamed store, and
an event for each event with the same counts and depths (`Outcome.Renamed`).  This is so for every renaming that keeps
different names different, whatever the names are: operators may be bound under the names of variables, variables may be
called like operators, and neither look-up nor evaluation takes notice.

Two things tell the runs apart.  Events carry the names and the texts of what they speak about, which are others in the
renamed run; `Event.outline` takes them out.  A call is reported under the name at its head, or else under a fixed word,
so two errors about the number of operands may name different callees (`Error.Alike`).
-/
namespace Lisplet

variable {ε α β : Type} {r : String → String}

/-! ## What two runs have in common -/

/-- What is left of an event without the names that a program chooses and the texts of its values: the kind of the event
and its counts. -/
def Event.outline : Event → Event
  | .define _ _ => .define "" ""
  | .closure _ params depth => .closure "" params depth
  | .program forms => .program forms
  | .builtin tool operands => .builtin tool operands
  | .tooDeep limit => .tooDeep limit

/-- The errors are the same, but for the name under which a call is reported. -/
inductive Error.Alike : Error → Error → Prop where
  | same (e : Error) : Alike e e
  | callee (a b : String) (expected : Arity) (got : Nat) : Alike (.arity a expected got) (.arity b expected got)

/-- The second result is the first one renamed: its value as `move` says, its error up to a callee's name. -/
inductive RenamedResult (r : String → String) (move : α → α) : Except Error α → Except Error α → Prop where
  | ok (v : α) : RenamedResult r move (.ok v) (.ok (move v))
  | error {e e' : Error} (h : (e.rename r).Alike e') : RenamedResult r move (.error e) (.error e')

theorem RenamedResult.of_eq {move : α → α} {x y : Except Error α}
    (h : y = (x.map move).mapError (Error.rename r)) : RenamedResult r move x y := by
  subst h
  cases x with
  | ok v => exact .ok v
  | error e => exact .error (.same _)

structure Outcome.Renamed (r : String → String) (o o' : Outcome ε) : Prop where
  result : RenamedResult r (Value.rename r) o.result o'.result
  store : o'.session.store = o.session.store.rename r
  events : o'.session.events.map Event.outline = o.session.events.map Event.outline
  depth : o'.depth = o.depth

/-! ## Stores without tools of the host -/

abbrev Value.Native (v : Value ε) : Prop :=
  v.Standard fun _ => True

def Store.Native (s : Store ε) : Prop :=
  s.Binds fun _ _ v => v.Native

/-! ## Sessions -/

/-- The session `t` is the session `s` renamed, with an event for each event; the tools are operators. -/
structure Session.Renamed (r : String → String) (s t : Session ε) : Prop where
  native : s.store.Native
  store : t.store = s.store.rename r
  recorded : t.recorded.map Event.outline = s.recorded.map Event.outline

namespace Session.Renamed

variable {s t : Session ε} (h : s.Renamed r t)

include h

theorem record {event event' : Event} (he : event'.outline = event.outline) :
    (s.record event).Renamed r (t.record event') := by
  refine ⟨h.native, h.store, ?_⟩
  simp only [Session.record, List.map_cons, he, h.recorded]

theorem define [Named ε] (hr : Function.Injective r) (env : ScopeId) (name : String) {v : Value ε} (hv : v.Native) :
    (s.define env name v).Renamed r (t.define env (r name) (v.rename r)) := by
  have hrec := h.record (show (Event.define (r name) (v.rename r).text).outline = (Event.define name v.text).outline
    from rfl)
  refine ⟨Store.Binds.define h.native hv, ?_, hrec.recorded⟩
  show t.store.define env (r name) (v.rename r) = (s.store.define env name v).rename r
  rw [h.store, Store.define_rename hr]

theorem newClosure (params : List String) (body : Expr) (env : ScopeId) :
    (t.newClosure (params.map r) (body.rename r) env).1 = (s.newClosure params body env).1.rename r ∧
      (s.newClosure params body env).2.Renamed r (t.newClosure (params.map r) (body.rename r) env).2 := by
  have hnew := s.store.newClosure_rename (r := r) params body env
  rw [← h.store] at hnew
  simp only [Session.newClosure, hnew]
  exact ⟨rfl, h.native, rfl, h.recorded⟩

theorem openFrame (hr : Function.Injective r) (c : Closure) {args : List (Value ε)} (hargs : ∀ v ∈ args, v.Native) :
    (t.openFrame (c.rename r) (args.map (Value.rename r))).1 = (s.openFrame c args).1 ∧
      (s.openFrame c args).2.Renamed r (t.openFrame (c.rename r) (args.map (Value.rename r))).2 := by
  have hchild := s.store.child_rename (r := r) c.env
  rw [← h.store] at hchild
  have henv : (c.rename r).env = c.env := rfl
  have hparams : (c.rename r).params = c.params.map r := rfl
  simp only [Session.openFrame, henv, hparams, hchild]
  refine ⟨trivial, ?_, ?_, h.recorded⟩
  · exact Store.Binds.defineAll _ (Store.Binds.child h.native c.env) fun b hb => hargs b.2 (List.of_mem_zip hb).2
  · exact Store.defineAll_rename hr _ c.params args _

end Session.Renamed

/-! ## Answers -/

namespace Semantics

structure Renamed (r : String → String) (move : α → α) (native : α → Prop) (a b : Answer ε α) : Prop where
  result : RenamedResult r move a.1 b.1
  native : ∀ v, a.1 = .ok v → native v
  session : a.2.Renamed r b.2

abbrev RenamedValue (r : String → String) : Answer ε (Value ε) → Answer ε (Value ε) → Prop :=
  Renamed r (Value.rename r) Value.Native

abbrev RenamedValues (r : String → String) : Answer ε (List (Value ε)) → Answer ε (List (Value ε)) → Prop :=
  Renamed r (List.map (Value.rename r)) fun vs => ∀ v ∈ vs, v.Native

namespace Renamed

variable {move : α → α} {native : α → Prop} {move' : β → β} {native' : β → Prop} {s t : Session ε}

theorem error (h : s.Renamed r t) {e e' : Error} (he : (e.rename r).Alike e') :
    Renamed r move native (.error e, s) (.error e', t) :=
  ⟨.error he, nofun, h⟩

theorem ok (h : s.Renamed r t) {v : α} (hv : native v) : Renamed r move native (.ok v, s) (.ok (move v), t) := by
  refine ⟨.ok v, fun w hw => ?_, h⟩
  cases hw
  exact hv

theorem bind {a b : Answer ε α} {f g : α → Session ε → Answer ε β} (h : Renamed r move native a b)
    (hf : ∀ v (s t : Session ε), native v → s.Renamed r t → Renamed r move' native' (f v s) (g (move v) t)) :
    Renamed r move' native' (a.bind f) (b.bind g) := by
  obtain ⟨x, s⟩ := a
  obtain ⟨y, t⟩ := b
  obtain ⟨hresult, hnative, hsession⟩ := h
  cases hresult with
  | ok v => exact hf v s t (hnative v rfl) hsession
  | error he => exact .error hsession he

end Renamed

/-! ## The rules of evaluation -/

theorem renamed_callWith {head : Expr} {operands operands' : Session ε → Answer ε (List (Value ε))}
    {enter enter' : Callable ε → List (Value ε) → Session ε → Answer ε (Value ε)}
    (ho : ∀ s t : Session ε, s.Renamed r t → RenamedValues r (operands s) (operands' t))
    (hc : ∀ (callee : Callable ε) (args : List (Value ε)) (s t : Session ε), (callee.Standard fun _ => True) →
      (∀ v ∈ args, v.Native) → s.Renamed r t →
      RenamedValue r (enter callee args s) (enter' (callee.rename r) (args.map (Value.rename r)) t))
    {v : Value ε} {s t : Session ε} (hv : v.Native) (h : s.Renamed r t) :
    RenamedValue r (callWith head operands enter v s) (callWith (head.rename r) operands' enter' (v.rename r) t) := by
  unfold callWith
  rw [Value.callable?_rename, Value.kind_rename]
  cases hcallee : v.callable? with
  | none => exact .error h (.same _)
  | some callee =>
    refine (ho s t h).bind fun args s t hargs hst => ?_
    exact hc callee args s t (Value.Standard.callable? hv hcallee) hargs hst

variable [Host ε]

theorem renamed_refused {limit depth : Nat} {name : String} {c : Closure} {args : List (Value ε)} {s s' t : Session ε}
    {cause : Error} (hb : s.beginCall limit depth name c args = .error (cause, s')) (h : s.Renamed r t)
    (name' : String) :
    RenamedValue r (.error cause, s')
      (call limit depth name' (.closure (c.rename r)) (args.map (Value.rename r)) t) := by
  have hparams : (c.rename r).params.length = c.params.length := List.length_map ..
  have hargs : (args.map (Value.rename r)).length = args.length := List.length_map ..
  rcases Session.beginCall_eq_error hb with ⟨hp, rfl, rfl⟩ | ⟨hp, hl, rfl, rfl⟩
  · have hp' : (c.rename r).params.length ≠ (args.map (Value.rename r)).length := by rwa [hparams, hargs]
    rw [call_refused (Session.beginCall_of_length_ne hp'), hparams, hargs]
    exact .error h (.callee _ _ _ _)
  · have hp' : (c.rename r).params.length = (args.map (Value.rename r)).length := by rwa [hparams, hargs]
    rw [call_refused (Session.beginCall_of_le hp' hl)]
    exact .error (h.record rfl) (.same _)

theorem renamed_entered (hr : Function.Injective r) {limit depth : Nat} {name : String} {c : Closure}
    {args : List (Value ε)} {s s' t : Session ε} {frame : ScopeId} {a : Answer ε (Value ε)}
    (hb : s.beginCall limit depth name c args = .ok (frame, s'))
    (ha : ∀ t', s'.Renamed r t' → RenamedValue r a (eval limit (depth + 1) (c.body.rename r) frame t'))
    (hargs : ∀ v ∈ args, v.Native) (h : s.Renamed r t) (name' : String) :
    RenamedValue r a (call limit depth name' (.closure (c.rename r)) (args.map (Value.rename r)) t) := by
  obtain ⟨hp, hl, rfl, rfl⟩ := Session.beginCall_eq_ok hb
  obtain ⟨hframe, hopened⟩ := h.openFrame hr c hargs
  have hparams : (c.rename r).params.length = c.params.length := List.length_map ..
  have hp' : (c.rename r).params.length = (args.map (Value.rename r)).length := by rw [hparams, List.length_map, hp]
  rw [call_entered (Session.beginCall_of_lt hp' hl), hframe, hparams]
  -- the two calls are reported under names of their own, which no outline shows
  exact ha _ (hopened.record rfl)

/-- **Every rule of evaluation does the same under other names.** -/
theorem renamed_closed (hr : Function.Injective r) (limit : Nat) :
    Closed limit
      (fun depth e env (s : Session ε) a => ∀ t, s.Renamed r t → RenamedValue r a (eval limit depth (e.rename r) env t))
      (fun depth es env s a => ∀ t, s.Renamed r t →
        RenamedValues r a (evalOperands limit depth (Expr.renameItems r es) env t))
      (fun depth _ callee args s a => ∀ name' t, (callee.Standard fun _ => True) → (∀ v ∈ args, v.Native) →
        s.Renamed r t → RenamedValue r a (call limit depth name' (callee.rename r) (args.map (Value.rename r)) t)) where
  malformed hf t h := by
    rw [eval_malformed (Expr.form_rename_error hr hf)]
    exact .error h (.same _)
  constant hf t h := by
    rw [eval_constant (Expr.form_rename_ok hr hf)]
    exact .ok h trivial
  reference {depth e env s name} hf t h := by
    rw [eval_reference (Expr.form_rename_ok hr hf), h.store]
    refine ⟨.of_eq (s.store.resolve_rename hr env name), fun v hv => ?_, h⟩
    obtain ⟨_, _, hnative, _⟩ := Store.Binds.resolve h.native hv
    exact hnative
  define {depth e env s name value a} hf hv t h := by
    rw [eval_define (Expr.form_rename_ok hr hf)]
    exact (hv t h).bind fun v s t hnative hst => .ok (hst.define hr env name hnative) trivial
  branch {depth e env s c x y a A B} hf hc hx hy t h := by
    rw [eval_branch (Expr.form_rename_ok hr hf)]
    refine (hc t h).bind fun v s t _ hst => ?_
    rw [Value.isTruthy_rename]
    cases v.isTruthy with
    | true => exact hx s t hst
    | false => exact hy s t hst
  lambda {depth e env s params body} hf t h := by
    obtain ⟨hvalue, hsession⟩ := h.newClosure params body env
    rw [eval_lambda (Expr.form_rename_ok hr hf), hvalue]
    exact .ok hsession trivial
  call {depth e env s head operands a A B} hf hh ho hc t h := by
    rw [eval_call (Expr.form_rename_ok hr hf)]
    refine (hh t h).bind fun v s t hnative hst => ?_
    -- both calls are made under the name at their own head
    exact renamed_callWith ho (fun callee args s t hcallee hargs hst => hc callee args s _ t hcallee hargs hst)
      hnative hst
  nil {depth env s} t h := by
    rw [Expr.renameItems, evalOperands_nil]
    exact .ok h fun v hv => by cases hv
  cons {depth e rest env s a A} he hrest t h := by
    rw [Expr.renameItems, evalOperands_cons_bind]
    refine (he t h).bind fun v s t hv hst => ?_
    refine (hrest s t hst).bind fun vs s t hvs hst => ?_
    exact .ok hst (List.forall_mem_cons.2 ⟨hv, hvs⟩)
  builtin {depth name tool args s} name' t htool hargs h := by
    cases tool with
    | host tool => exact absurd htool id
    | operator op =>
      rw [Callable.rename, call_builtin, List.length_map]
      exact ⟨.of_eq (op.run_rename r hr args), fun v hv => Operator.standard_run hv, h.record rfl⟩
  refused hb name' t _ _ h := renamed_refused hb h name'
  entered hb ha name' t _ hargs h := renamed_entered hr hb ha hargs h name'

end Semantics

/-! ## Evaluators -/

theorem Store.native_fresh [Named ε] : (Store.empty : Store ε).fresh.2.Native := by
  exact Store.Binds.fresh .empty fun _ _ _ => trivial

namespace Evaluator

/-- **No name is special**: with all names of the expression and of the store changed, an evaluation has the same outcome
with the names changed. -/
theorem renamed_evaluate [Host ε] (hr : Function.Injective r) (ev : Evaluator) (e : Expr) (env : ScopeId)
    (session : Session ε) (hs : session.store.Native) :
    (ev.evaluate e env session).Renamed r
      (ev.evaluate (e.rename r) env { session with store := session.store.rename r }) := by
  have hstart : session.Renamed r { session with store := session.store.rename r } := ⟨hs, rfl, rfl⟩
  have hrun := (Semantics.renamed_closed hr ev.config.maxDepth).eval ev.depth e env session _ hstart
  rw [evaluate_eq, evaluate_eq]
  refine ⟨hrun.result, hrun.session.store, ?_, rfl⟩
  simp only [Session.events, List.map_reverse, hrun.session.recorded]

/-- With `+` and `x` exchanged, `x` is the sum and `+` a parameter. -/
theorem renamed_evaluate_swap :
    let r : String → String := Equiv.swap "+" "x"
    let e : Expr := .list [.list [.keyword .lambda, .list [.symbol "x"], .list [.symbol "+", .symbol "x", .num (.int 1)]],
      .num (.int 2)]
    let session : Session Empty := .ofStore (Store.empty : Store Empty).fresh.2
    e.rename r = .list [.list [.keyword .lambda, .list [.symbol "+"], .list [.symbol "x", .symbol "+", .num (.int 1)]],
      .num (.int 2)] ∧
    ((inScope 1).evaluate e 1 session).Renamed r
      ((inScope 1).evaluate (e.rename r) 1 { session with store := session.store.rename r }) := by
  refine ⟨by simp [Expr.rename, Expr.renameItems], ?_⟩
  exact renamed_evaluate (Equiv.injective _) _ _ _ _ Store.native_fresh

end Evaluator
end Lisplet
