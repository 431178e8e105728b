import Lisplet.Proofs.Evaluation
import Lisplet.Proofs.Printable
import Lisplet.Proofs.Session
/-!
# Exact arithmetic

A tree of integers under `+`, `-` and `*` has a value over the unbounded integers.  On the way to it every operator goes
from operand to operand and reaches one partial result after the other; `Arith.partials` lists those of the whole tree
in the order in which they are reached.  The text of the tree evaluates to the exact value if all of them are in the
range of integers, and otherwise to an overflow of the operator that first left it: also where a later step would have
led back, and whatever the limit on calls, since operators are no closures.

`Decided` says how partial results settle a result.  Answers are put together as their lists of partial results are
(`Computes.bind`), so the proof goes along the tree and looks at one fold only (`decided_run`).
-/
namespace Lisplet

variable {ε α β : Type}

def Integer.Fits (n : Int) : Prop :=
  -2 ^ 63 ≤ n ∧ n < 2 ^ 63

instance (n : Int) : Decidable (Integer.Fits n) :=
  inferInstanceAs (Decidable (_ ∧ _))

theorem Integer.fits_toInt (i : Integer) : Fits i.toInt :=
  ⟨Int64.le_toInt i, Int64.toInt_lt i⟩

/-! ## Trees of integers -/

inductive RingOp where
  | add
  | subtract
  | multiply

namespace RingOp

def operator : RingOp → Operator
  | .add => .add
  | .subtract => .subtract
  | .multiply => .multiply

def apply : RingOp → Int → Int → Int
  | .add, a, b => a + b
  | .subtract, a, b => a - b
  | .multiply, a, b => a * b

def step : RingOp → Number → Number → Except Error Number
  | .add => Number.add
  | .subtract => Number.sub
  | .multiply => Number.mul

end RingOp

structure Partial where
  op : RingOp
  value : Int

/-- The partial results on from `reached`, through the operands that are left. -/
def RingOp.partialsFrom (op : RingOp) : Int → List Int → List Partial
  | _, [] => []
  | reached, n :: rest => ⟨op, op.apply reached n⟩ :: op.partialsFrom (op.apply reached n) rest

/-- **Trees of integers** under operators with two operands or more. -/
inductive Arith where
  | literal (n : Integer)
  | compute (op : RingOp) (first second : Arith) (rest : List Arith)

namespace Arith

mutual

def expr : Arith → Expr
  | .literal n => .num (.int n)
  | .compute op first second rest =>
    .list (.symbol op.operator.spelling :: first.expr :: second.expr :: exprs rest)

def exprs : List Arith → List Expr
  | [] => []
  | e :: rest => e.expr :: exprs rest

end

mutual

/-- **The value over the unbounded integers**: every operator is folded over its operands from the left. -/
def value : Arith → Int
  | .literal n => n.toInt
  | .compute op first second rest => (second.value :: values rest).foldl op.apply first.value

def values : List Arith → List Int
  | [] => []
  | e :: rest => e.value :: values rest

end

mutual

/-- **All partial results in the order of evaluation**: those of the operands, from left to right, come before those of
the operator. -/
def partials : Arith → List Partial
  | .literal _ => []
  | .compute op first second rest =>
    first.partials ++ (second.partials ++ partialsItems rest) ++
      op.partialsFrom first.value (second.value :: values rest)

def partialsItems : List Arith → List Partial
  | [] => []
  | e :: rest => e.partials ++ partialsItems rest

end

end Arith

/-! ## What partial results decide -/

def AllFit (ps : List Partial) : Prop :=
  ∀ p ∈ ps, Integer.Fits p.value

theorem allFit_nil : AllFit [] := by
  intro p hp
  cases hp

theorem allFit_append {ps qs : List Partial} : AllFit (ps ++ qs) ↔ AllFit ps ∧ AllFit qs :=
  List.forall_mem_append

/-- **The partial results decide**: it is the value if all are in range, and else an overflow of the operator that first
left the range. -/
def Decided (ps : List Partial) (v : α) (r : Except Error α) : Prop :=
  AllFit ps ∧ r = .ok v ∨
    ∃ before p after, ps = before ++ p :: after ∧ AllFit before ∧ ¬ Integer.Fits p.value ∧
      r = .error (.overflow p.op.operator)

namespace Decided

variable {ps qs : List Partial} {v : α} {w : β}

theorem ok (v : α) : Decided [] v (.ok v) :=
  .inl ⟨allFit_nil, rfl⟩

theorem map {r : Except Error α} (f : α → β) (h : Decided ps v r) : Decided ps (f v) (r.map f) := by
  rcases h with ⟨hfit, rfl⟩ | ⟨before, p, after, hps, hbefore, hp, rfl⟩
  · exact .inl ⟨hfit, rfl⟩
  · exact .inr ⟨before, p, after, hps, hbefore, hp, rfl⟩

theorem append_error {e : Error} (h : Decided ps v (.error e)) (qs : List Partial) (w : β) :
    Decided (ps ++ qs) w (.error e) := by
  rcases h with ⟨_, hr⟩ | ⟨before, p, after, rfl, hbefore, hp, hr⟩
  · cases hr
  · cases hr
    exact .inr ⟨before, p, after ++ qs, by rw [List.append_assoc, List.cons_append], hbefore, hp, rfl⟩

theorem append_left {r : Except Error α} (hps : AllFit ps) (h : Decided qs v r) : Decided (ps ++ qs) v r := by
  rcases h with ⟨hqs, rfl⟩ | ⟨before, p, after, rfl, hbefore, hp, rfl⟩
  · exact .inl ⟨allFit_append.2 ⟨hps, hqs⟩, rfl⟩
  · exact .inr ⟨ps ++ before, p, after, by rw [List.append_assoc], allFit_append.2 ⟨hps, hbefore⟩, hp, rfl⟩

theorem of_ok {u : α} (h : Decided ps v (.ok u)) : AllFit ps ∧ u = v := by
  rcases h with ⟨hfit, hr⟩ | ⟨_, _, _, _, _, _, hr⟩
  · cases hr
    exact ⟨hfit, rfl⟩
  · cases hr

end Decided

/-! ## One fold -/

namespace RingOp

def operand (n : Int) : Value ε :=
  .num (.int (Int64.ofInt n))

variable {reached : Int} {ns : List Int}

theorem decided_checked (op : RingOp) (n : Int) :
    Decided [⟨op, n⟩] (.int (Int64.ofInt n)) (Number.checked op.operator n) := by
  by_cases hn : Integer.Fits n
  · refine .inl ⟨fun p hp => ?_, ?_⟩
    · rw [List.mem_singleton.1 hp]
      exact hn
    · unfold Integer.Fits at hn
      rw [Number.checked, Integer.ofInt?, if_pos hn]
  · refine .inr ⟨[], ⟨op, n⟩, [], rfl, allFit_nil, hn, ?_⟩
    unfold Integer.Fits at hn
    rw [Number.checked, Integer.ofInt?, if_neg hn]

theorem step_eq_checked (op : RingOp) {a b : Int} (ha : Integer.Fits a) (hb : Integer.Fits b) :
    op.step (.int (Int64.ofInt a)) (.int (Int64.ofInt b)) = Number.checked op.operator (op.apply a b) := by
  have ha' : (Int64.ofInt a).toInt = a := Int64.toInt_ofInt_of_le ha.1 ha.2
  have hb' : (Int64.ofInt b).toInt = b := Int64.toInt_ofInt_of_le hb.1 hb.2
  cases op <;> simp only [step, Number.add, Number.sub, Number.mul, operator, apply, ha', hb']

theorem allFit_partialsFrom_cons {op : RingOp} {n : Int} :
    AllFit (op.partialsFrom reached (n :: ns)) ↔
      Integer.Fits (op.apply reached n) ∧ AllFit (op.partialsFrom (op.apply reached n) ns) :=
  List.forall_mem_cons

theorem fits_foldl {op : RingOp} : ∀ {ns : List Int} {reached : Int}, Integer.Fits reached →
    AllFit (op.partialsFrom reached ns) → Integer.Fits (ns.foldl op.apply reached)
  | [], _, hreached, _ => hreached
  | n :: rest, reached, _, hfit => by
    obtain ⟨hn, hrest⟩ := allFit_partialsFrom_cons.1 hfit
    rw [List.foldl_cons]
    exact fits_foldl hn hrest

/-- **A fold over operands in range is decided by its partial results.** -/
theorem decided_foldFrom (op : RingOp) : ∀ {ns : List Int} {reached : Int}, Integer.Fits reached →
    (∀ n ∈ ns, Integer.Fits n) →
    Decided (op.partialsFrom reached ns) (.int (Int64.ofInt (ns.foldl op.apply reached)))
      (Operator.foldFrom op.step (.int (Int64.ofInt reached)) (ns.map (operand (ε := ε))))
  | [], reached, _, _ => .ok _
  | n :: rest, reached, hreached, hns => by
    obtain ⟨hn, hrest⟩ := List.forall_mem_cons.1 hns
    have hstep := op.decided_checked (op.apply reached n)
    rw [← op.step_eq_checked hreached hn] at hstep
    rw [List.map_cons, Operator.foldFrom]
    -- the first partial result either ends the fold or leaves it to the others
    show Decided ([⟨op, op.apply reached n⟩] ++ op.partialsFrom (op.apply reached n) rest) _ _
    cases hs : op.step (.int (Int64.ofInt reached)) (.int (Int64.ofInt n)) with
    | error e =>
      rw [hs] at hstep
      simp only [operand, Value.number, hs]
      exact hstep.append_error _ _
    | ok next =>
      rw [hs] at hstep
      obtain ⟨hfit, rfl⟩ := hstep.of_ok
      simp only [operand, Value.number, hs]
      exact .append_left hfit (decided_foldFrom op (hfit _ List.mem_cons_self) hrest)

theorem decided_run [Named ε] (op : RingOp) {first second : Int} (hfirst : Integer.Fits first)
    (hns : ∀ n ∈ second :: ns, Integer.Fits n) :
    Decided (op.partialsFrom first (second :: ns)) (operand (ε := ε) ((second :: ns).foldl op.apply first))
      (op.operator.run ((first :: second :: ns).map operand)) := by
  have hfold := (op.decided_foldFrom (ε := ε) hfirst hns).map (Value.num (ε := ε))
  cases op <;> exact hfold

end RingOp

/-! ## Values in range -/

namespace Arith

mutual

theorem fits_value : ∀ e : Arith, AllFit e.partials → Integer.Fits e.value
  | .literal n, _ => by
    rw [value]
    exact Integer.fits_toInt n
  | .compute op first second rest, h => by
    rw [partials, allFit_append, allFit_append] at h
    rw [value]
    exact RingOp.fits_foldl (fits_value first h.1.1) h.2

theorem fits_values : ∀ es : List Arith, AllFit (partialsItems es) → ∀ n ∈ values es, Integer.Fits n
  | [], _ => by
    rw [values]
    intro n hn
    cases hn
  | e :: rest, h => by
    rw [partialsItems, allFit_append] at h
    rw [values]
    exact List.forall_mem_cons.2 ⟨fits_value e h.1, fits_values rest h.2⟩

end

end Arith

/-! ## Evaluation -/

/-- From the scope `env`, every operator is found under its own name. -/
def Store.HasOperators (s : Store ε) (env : ScopeId) : Prop :=
  ∀ op : Operator, s.resolve env op.spelling = .ok (.builtin (.operator op))

namespace Semantics

structure Computes (ps : List Partial) (v : α) (s : Session ε) (a : Answer ε α) : Prop where
  result : Decided ps v a.1
  store : a.2.store = s.store

theorem Computes.bind {ps qs : List Partial} {v : α} {w : β} {s : Session ε} {a : Answer ε α}
    {f : α → Session ε → Answer ε β} (ha : Computes ps v s a)
    (hf : ∀ t : Session ε, t.store = s.store → AllFit ps → Computes qs w t (f v t)) :
    Computes (ps ++ qs) w s (a.bind f) := by
  match a, ha with
  | (.error e, t), ha => exact ⟨ha.result.append_error qs w, ha.store⟩
  | (.ok u, t), ha =>
    obtain ⟨hfit, rfl⟩ := ha.result.of_ok
    have hnext := hf t ha.store hfit
    exact ⟨.append_left hfit hnext.result, hnext.store.trans ha.store⟩

variable [Host ε] {limit depth : Nat} {env : ScopeId}

theorem computes_cons {e : Expr} {rest : List Expr} {ps qs : List Partial} {v : Value ε} {vs : List (Value ε)}
    {s : Session ε} (he : Computes ps v s (eval limit depth e env s))
    (hrest : ∀ t : Session ε, t.store = s.store → Computes qs vs t (evalOperands limit depth rest env t)) :
    Computes (ps ++ qs) (v :: vs) s (evalOperands limit depth (e :: rest) env s) := by
  rw [evalOperands_cons_bind]
  refine he.bind fun t ht _ => ?_
  rw [← List.append_nil qs]
  exact (hrest t ht).bind fun u _ _ => ⟨.ok _, rfl⟩

theorem computes_call {op : RingOp} {first second : Int} {ns : List Int} {operands : List Expr} {ps : List Partial}
    {s : Session ε} (hops : s.store.HasOperators env)
    (hargs : Computes ps ((first :: second :: ns).map RingOp.operand) s (evalOperands limit depth operands env s))
    (hfit : AllFit ps → Integer.Fits first ∧ ∀ n ∈ second :: ns, Integer.Fits n) :
    Computes (ps ++ op.partialsFrom first (second :: ns)) (RingOp.operand ((second :: ns).foldl op.apply first)) s
      (eval limit depth (.list (.symbol op.operator.spelling :: operands)) env s) := by
  rw [eval_call rfl, eval_reference rfl, hops op.operator]
  show Computes _ _ s ((evalOperands limit depth operands env s).bind _)
  refine hargs.bind fun t _ hps => ?_
  rw [call_builtin]
  exact ⟨op.decided_run (hfit hps).1 (hfit hps).2, rfl⟩

mutual

/-- **The answer of a tree is decided by its partial results.** -/
theorem computes_expr : ∀ (e : Arith) (s : Session ε), s.store.HasOperators env →
    Computes e.partials (RingOp.operand e.value) s (eval limit depth e.expr env s)
  | .literal n, s, _ => by
    rw [Arith.partials, Arith.value, Arith.expr, eval_constant rfl, RingOp.operand, Int64.ofInt_toInt]
    exact ⟨.ok _, rfl⟩
  | .compute op first second rest, s, hops => by
    rw [Arith.partials, Arith.value, Arith.expr]
    refine computes_call hops ?_ fun hps => ?_
    -- each operand starts in a session that differs from the last one in its record only
    · refine computes_cons (computes_expr first s hops) fun t ht => ?_
      rw [← ht] at hops
      refine computes_cons (computes_expr second t hops) fun u hu => ?_
      rw [← hu] at hops
      exact computes_exprs rest u hops
    · rw [allFit_append, allFit_append] at hps
      exact ⟨first.fits_value hps.1, List.forall_mem_cons.2 ⟨second.fits_value hps.2.1, Arith.fits_values rest hps.2.2⟩⟩

theorem computes_exprs : ∀ (es : List Arith) (s : Session ε), s.store.HasOperators env →
    Computes (Arith.partialsItems es) ((Arith.values es).map RingOp.operand) s
      (evalOperands limit depth (Arith.exprs es) env s)
  | [], s, _ => by
    rw [Arith.partialsItems, Arith.values, Arith.exprs, evalOperands_nil]
    exact ⟨.ok _, rfl⟩
  | e :: rest, s, hops => by
    rw [Arith.partialsItems, Arith.values, Arith.exprs]
    refine computes_cons (computes_expr e s hops) fun t ht => ?_
    rw [← ht] at hops
    exact computes_exprs rest t hops

end

end Semantics

/-! ## From text to value -/

namespace Store

variable [Named ε]

theorem hasOperators_fresh (s : Store ε) : s.fresh.2.HasOperators s.fresh.1 :=
  fun op => resolveFrom_of_value (s.get?_fresh op) rfl _

end Store

theorem Operator.isName_spelling (op : Operator) : Text.IsName op.spelling where
  nonempty := by cases op <;> decide
  unbroken := by
    have hatom : Text.IsAtom op.spelling.toList := by cases op <;> decide
    exact hatom.2
  unreserved := by cases op <;> decide
  nonliteral := by
    apply Literal.ofLexeme?_eq_none_iff.1
    cases op <;> decide

namespace Arith

mutual

theorem readable_expr : ∀ e : Arith, e.expr.Readable
  | .literal n => by
    rw [expr]
    exact Expr.readable_int n
  | .compute op first second rest => by
    have hsymbol := Expr.readable_symbol_iff.2 op.operator.isName_spelling
    rw [expr, Expr.Readable]
    refine ⟨List.cons_ne_nil _ _, Expr.readableItems_of_forall _ _ ?_⟩
    simp only [List.forall_mem_cons]
    exact ⟨hsymbol, readable_expr first, readable_expr second, readable_exprs rest⟩

theorem readable_exprs : ∀ es : List Arith, ∀ e ∈ exprs es, e.Readable
  | [] => by
    rw [exprs]
    intro e he
    cases he
  | e :: rest => by
    rw [exprs]
    exact List.forall_mem_cons.2 ⟨readable_expr e, readable_exprs rest⟩

end

end Arith

namespace Evaluator

variable [Host ε]

theorem answer_execute_singleton (ev : Evaluator) (e : Expr) (session : Session ε) :
    (ev.execute [e] session).answer =
      Semantics.eval ev.config.maxDepth ev.depth e ev.env (session.record (.program 1)) := by
  rw [execute, List.length_singleton, answer_executeFrom_cons]
  obtain ⟨r, t⟩ := Semantics.eval ev.config.maxDepth ev.depth e ev.env (session.record (.program 1))
  cases r with
  | error _ => rfl
  | ok _ => rfl

/-- **Arithmetic is exact from text to value.**  In a fresh scope, and under any limit, the text of a tree of integers
evaluates to its value over the unbounded integers if all its partial results are in range, and otherwise to an overflow
of the operator whose partial result is the first that is not. -/
theorem evalSource_arith (e : Arith) (config : Config) (depth : Nat) (session : Session ε) :
    let ev : Evaluator := ⟨session.store.fresh.1, config, depth⟩
    let result := (ev.evalSource e.expr.text { session with store := session.store.fresh.2 }).result
    ((∀ p ∈ e.partials, Integer.Fits p.value) ∧ ∃ n : Integer, n.toInt = e.value ∧ result = .ok (.num (.int n))) ∨
      ∃ before p after, e.partials = before ++ p :: after ∧ (∀ q ∈ before, Integer.Fits q.value) ∧
        ¬ Integer.Fits p.value ∧ result = .error (.overflow p.op.operator) := by
  intro ev result
  let start : Session ε := { session with store := session.store.fresh.2 }
  have hresult : result = (Semantics.eval config.maxDepth depth e.expr ev.env (start.record (.program 1))).1 := by
    rw [← ev.answer_execute_singleton e.expr start]
    show (ev.evalSource e.expr.text start).result = _
    rw [evalSource, parse_text_of_readable e.readable_expr]
    rfl
  have hdecided : Decided e.partials (RingOp.operand e.value) result := by
    rw [hresult]
    exact (Semantics.computes_expr e _ session.store.hasOperators_fresh).result
  rcases hdecided with ⟨hfit, hok⟩ | hoverflow
  · have hvalue := e.fits_value hfit
    exact .inl ⟨hfit, Int64.ofInt e.value, Int64.toInt_ofInt_of_le hvalue.1 hvalue.2, hok⟩
  · exact .inr hoverflow

/-- The first partial result of `(- (+ 9223372036854775807 1) 1)` is out of range, and the value is not. -/
example :
    let e : Arith := .compute .subtract (.compute .add (.literal Int64.maxValue) (.literal 1) []) (.literal 1) []
    e.partials.map Partial.value = [2 ^ 63, 2 ^ 63 - 1] ∧ e.value = 2 ^ 63 - 1 := by
  decide

end Evaluator
end Lisplet
