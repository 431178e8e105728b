import Lisplet.Proofs.Operators
/-!
# Arithmetic goes from operand to operand

The four arithmetic operators fold a step over their operands.  What the first operands have come to is all that matters
for the others, so the operands can be split anywhere and the result of the first part put in its place
(`arithmetic_append`); no law of arithmetic is needed for that.

The error reported is the leftmost one.  An operand is at fault behind the operands before it (`FaultAt`) if it is not
a number, or if what those come to and the number fail as operands of their own.  An operator fails exactly if some
operand is at fault, with the fault of the first one that is (`run_eq_error_iff`).
-/
namespace Lisplet

variable {ε : Type}

theorem Value.number_cases (v : Value ε) :
    (∃ n, v = .num n ∧ v.number = .ok n) ∨ v.isNumber = false ∧ v.number = .error (.type .number v.kind) := by
  cases v with
  | num n => exact .inl ⟨n, rfl, rfl⟩
  | null | bool | symbol | closure | builtin => exact .inr ⟨rfl, rfl⟩

namespace Number

variable {e : Error}

theorem category_of_checked {op : Operator} {n : Int} (h : checked op n = .error e) : e.category = .arithmetic := by
  unfold checked at h
  split at h
  · cases h
  · cases h; rfl

theorem category_of_quotient : ∀ {x y : Number}, x.quotient y = .error e → e.category = .arithmetic
  | .int a, .int b, h => by
    rw [quotient] at h
    split at h
    · exact category_of_checked h
    · cases h
  | .int _, .float _, h | .float _, .int _, h | .float _, .float _, h => by cases h

theorem category_of_div {x y : Number} (h : x.div y = .error e) : e.category = .arithmetic := by
  unfold div at h
  split at h
  · cases h; rfl
  · exact category_of_quotient h

end Number

namespace Operator

def step? : Operator → Option (Number → Number → Except Error Number)
  | .add => some Number.add
  | .subtract => some Number.sub
  | .multiply => some Number.mul
  | .divide => some Number.div
  | .greater | .less | .equal => none

variable {op : Operator} {step : Number → Number → Except Error Number}

theorem run_eq_arithmetic [Named ε] (h : op.step? = some step) :
    op.run (ε := ε) = op.arithmetic step := by
  cases op with
  | add | subtract | multiply | divide => cases h; rfl
  | greater | less | equal => cases h

theorem exists_number_of_run [Named ε] (hop : op.step? = some step) {args : List (Value ε)} {v : Value ε}
    (h : op.run args = .ok v) : ∃ n, v = .num n := by
  rw [run_eq_arithmetic hop] at h
  exact arithmetic_eq_ok h

/-! ## Splits -/

theorem foldFrom_num (step : Number → Number → Except Error Number) (reached n : Number) (rest : List (Value ε)) :
    foldFrom step reached (.num n :: rest) = step reached n >>= (foldFrom step · rest) := by
  rw [foldFrom, Value.number]
  cases hs : step reached n with
  | error e => simp only [hs]; rfl
  | ok next => simp only [hs]; rfl

theorem foldFrom_of_error {v : Value ε} {e : Error} (h : v.number = .error e) (reached : Number)
    (rest : List (Value ε)) : foldFrom step reached (v :: rest) = .error e := by
  rw [foldFrom, h]

theorem foldFrom_append (step : Number → Number → Except Error Number) : ∀ (xs : List (Value ε)) (reached : Number)
    (ys : List (Value ε)), foldFrom step reached (xs ++ ys) = foldFrom step reached xs >>= (foldFrom step · ys)
  | [], reached, ys => rfl
  | x :: xs, reached, ys => by
    rw [List.cons_append]
    rcases x.number_cases with ⟨n, rfl, -⟩ | ⟨-, hx⟩
    · rw [foldFrom_num, foldFrom_num]
      cases step reached n with
      | error e => rfl
      | ok next => exact foldFrom_append step xs next ys
    · rw [foldFrom_of_error hx, foldFrom_of_error hx]
      rfl

theorem map_num_eq_ok_iff {r : Except Error Number} {n : Number} :
    r.map (Value.num (ε := ε)) = .ok (.num n) ↔ r = .ok n := by
  cases r <;> simp [Except.map]

theorem map_num_eq_error_iff {r : Except Error Number} {e : Error} :
    r.map (Value.num (ε := ε)) = .error e ↔ r = .error e := by
  cases r <;> simp [Except.map]

theorem arithmetic_of_number {first : Value ε} {n : Number} (h : first.number = .ok n) {rest : List (Value ε)}
    (hr : rest ≠ []) : op.arithmetic step (first :: rest) = (foldFrom step n rest).map .num := by
  obtain ⟨second, rest, rfl⟩ := List.exists_cons_of_ne_nil hr
  rw [arithmetic, h]

theorem arithmetic_of_error {first : Value ε} {e : Error} (h : first.number = .error e) {rest : List (Value ε)}
    (hr : rest ≠ []) : op.arithmetic step (first :: rest) = .error e := by
  obtain ⟨second, rest, rfl⟩ := List.exists_cons_of_ne_nil hr
  rw [arithmetic, h]

/-- **The first operands can be replaced by what they come to.** -/
theorem arithmetic_append (op : Operator) (step : Number → Number → Except Error Number) {xs ys : List (Value ε)}
    (hx : 2 ≤ xs.length) (hy : ys ≠ []) :
    op.arithmetic step (xs ++ ys) = op.arithmetic step xs >>= fun v => op.arithmetic step (v :: ys) := by
  match xs, hx with
  | first :: second :: rest, _ =>
    rw [List.cons_append]
    cases hf : first.number with
    | error e =>
      rw [arithmetic_of_error hf (by simp), arithmetic_of_error hf (by simp)]
      rfl
    | ok n =>
      rw [arithmetic_of_number hf (by simp), arithmetic_of_number hf (by simp), foldFrom_append]
      cases foldFrom step n (second :: rest) with
      | error e => rfl
      | ok reached => exact (arithmetic_of_number rfl hy).symm

/-! ## Faults -/

theorem run_pair_eq_error [Named ε] (hop : op.step? = some step) {x y : Number} {e : Error} :
    op.run [(.num x : Value ε), .num y] = .error e ↔ step x y = .error e := by
  rw [run_eq_arithmetic hop, arithmetic_of_number rfl (by simp), map_num_eq_error_iff, foldFrom_num]
  cases step x y with
  | error e' => exact Iff.rfl
  | ok n => exact ⟨nofun, nofun⟩

theorem category_of_step {x y : Number} {e : Error} (hop : op.step? = some step) (h : step x y = .error e) :
    e.category = .arithmetic := by
  cases op with
  | add | subtract | multiply =>
    cases hop
    match x, y, h with
    | .int _, .int _, h => exact Number.category_of_checked h
    | .int _, .float _, h | .float _, .int _, h | .float _, .float _, h => cases h
  | divide => cases hop; exact Number.category_of_div h
  | greater | less | equal => cases hop

theorem exists_fault_of_foldFrom {e : Error} : ∀ (rest : List (Value ε)) (m : Number),
    foldFrom step m rest = .error e →
    ∃ before v after reached, rest = before ++ v :: after ∧ foldFrom step m before = .ok reached ∧
      (v.isNumber = false ∧ e = .type .number v.kind ∨ ∃ n, v = .num n ∧ step reached n = .error e)
  | [], m, h => by cases h
  | v :: rest, m, h => by
    rcases v.number_cases with ⟨n, rfl, -⟩ | ⟨hv, hn⟩
    · rw [foldFrom_num] at h
      cases hs : step m n with
      | error e' =>
        rw [hs] at h
        cases h
        exact ⟨[], .num n, rest, m, rfl, rfl, .inr ⟨n, rfl, hs⟩⟩
      | ok next =>
        rw [hs] at h
        obtain ⟨before, v, after, reached, rfl, hfold, hf⟩ := exists_fault_of_foldFrom rest next h
        refine ⟨.num n :: before, v, after, reached, rfl, ?_, hf⟩
        rw [foldFrom_num, hs]
        exact hfold
    · rw [foldFrom_of_error hn] at h
      cases h
      exact ⟨[], v, rest, m, rfl, rfl, .inl ⟨hv, rfl⟩⟩

variable [Named ε] {before after rest : List (Value ε)} {first v : Value ε} {n : Number} {e : Error}

/-- What operands come to; a number alone comes to itself. -/
inductive Reaches (op : Operator) : List (Value ε) → Number → Prop where
  | single (n : Number) : Reaches op [.num n] n
  | several {operands : List (Value ε)} {n : Number} (h : op.run operands = .ok (.num n)) : Reaches op operands n

/-- **The operand is at fault** behind the operands before it: it is not a number, or it is one and what they come to
cannot be taken on to it. -/
inductive FaultAt (op : Operator) (before : List (Value ε)) : Value ε → Error → Prop where
  | type {v : Value ε} (hv : v.isNumber = false) : FaultAt op before v (.type .number v.kind)
  | arithmetic {reached n : Number} {e : Error} (hr : Reaches op before reached)
    (hs : op.run [(.num reached : Value ε), .num n] = .error e) : FaultAt op before (.num n) e

def FaultFree (op : Operator) (operands : List (Value ε)) : Prop :=
  ∀ front u back, operands = front ++ u :: back → ∀ e, ¬ FaultAt op front u e

theorem Reaches.run_eq_ok {operands : List (Value ε)} (h : Reaches op operands n) (hlen : 2 ≤ operands.length) :
    op.run operands = .ok (.num n) := by
  cases h with
  | single => simp at hlen
  | several h => exact h

theorem not_reaches_nil : ¬ Reaches op ([] : List (Value ε)) n := by
  intro h
  cases h with
  | several h => cases op <;> cases h

theorem reaches_cons_iff (hop : op.step? = some step) :
    Reaches op (first :: rest) n ↔ ∃ m, first = .num m ∧ foldFrom step m rest = .ok n := by
  constructor
  · intro h
    cases h with
    | single => exact ⟨n, rfl, rfl⟩
    | several h =>
      rw [run_eq_arithmetic hop] at h
      by_cases hr : rest = []
      · rw [hr] at h
        cases h
      · rcases first.number_cases with ⟨m, rfl, hf⟩ | ⟨_, hf⟩
        · rw [arithmetic_of_number hf hr, map_num_eq_ok_iff] at h
          exact ⟨m, rfl, h⟩
        · rw [arithmetic_of_error hf hr] at h
          cases h
  · rintro ⟨m, rfl, h⟩
    by_cases hr : rest = []
    · rw [hr] at h ⊢
      cases h
      exact .single n
    · refine .several ?_
      rw [run_eq_arithmetic hop, arithmetic_of_number rfl hr, map_num_eq_ok_iff]
      exact h

theorem reaches_front (hop : op.step? = some step) (h : Reaches op (before ++ v :: after) n) :
    before = [] ∨ ∃ m, Reaches op before m := by
  cases before with
  | nil => exact .inl rfl
  | cons first rest =>
    rw [List.cons_append, reaches_cons_iff hop] at h
    obtain ⟨m, rfl, h⟩ := h
    rw [foldFrom_append] at h
    cases hfold : foldFrom step m rest with
    | error e => rw [hfold] at h; cases h
    | ok reached => exact .inr ⟨reached, (reaches_cons_iff hop).2 ⟨m, rfl, hfold⟩⟩

/-- **A fault behind operands that come to a number is reported.** -/
theorem run_of_faultAt (hop : op.step? = some step) (hb : before = [] ∨ ∃ m, Reaches op before m)
    (hf : FaultAt op before v e) (hlen : 2 ≤ (before ++ v :: after).length) :
    op.run (before ++ v :: after) = .error e := by
  rw [run_eq_arithmetic hop]
  cases before with
  | nil =>
    have hafter : after ≠ [] := by
      rintro rfl
      simp at hlen
    cases hf with
    | type hv =>
      rcases v.number_cases with ⟨n, rfl, _⟩ | ⟨_, hn⟩
      · cases hv
      · exact arithmetic_of_error hn hafter
    | arithmetic hr _ => exact absurd hr not_reaches_nil
  | cons first rest =>
    obtain ⟨reached, hr⟩ := hb.resolve_left (List.cons_ne_nil _ _)
    obtain ⟨m, rfl, hfold⟩ := (reaches_cons_iff hop).1 hr
    rw [List.cons_append, arithmetic_of_number rfl (by simp), map_num_eq_error_iff, foldFrom_append, hfold]
    show foldFrom step reached (v :: after) = .error e
    cases hf with
    | type hv =>
      rcases v.number_cases with ⟨n, rfl, _⟩ | ⟨_, hn⟩
      · cases hv
      · exact foldFrom_of_error hn reached after
    | arithmetic hr' hs =>
      obtain ⟨_, heq, hfold'⟩ := (reaches_cons_iff hop).1 hr'
      cases heq
      cases hfold.symm.trans hfold'
      rw [foldFrom_num, (run_pair_eq_error hop).1 hs]
      rfl

theorem exists_fault_of_run (hop : op.step? = some step) {args : List (Value ε)} (hlen : 2 ≤ args.length)
    (h : op.run args = .error e) :
    ∃ before v after, args = before ++ v :: after ∧ (before = [] ∨ ∃ m, Reaches op before m) ∧
      FaultAt op before v e := by
  rw [run_eq_arithmetic hop] at h
  match args, hlen with
  | first :: second :: rest, _ =>
    rcases first.number_cases with ⟨m, rfl, hf⟩ | ⟨hv, hf⟩
    · rw [arithmetic_of_number hf (by simp), map_num_eq_error_iff] at h
      obtain ⟨before, v, after, reached, hsplit, hbefore, hv⟩ := exists_fault_of_foldFrom _ m h
      have hr : Reaches op (.num m :: before) reached := (reaches_cons_iff hop).2 ⟨m, rfl, hbefore⟩
      refine ⟨.num m :: before, v, after, by rw [hsplit]; rfl, .inr ⟨reached, hr⟩, ?_⟩
      rcases hv with ⟨hv, rfl⟩ | ⟨n, rfl, hs⟩
      · exact .type hv
      · exact .arithmetic hr ((run_pair_eq_error hop).2 hs)
    · rw [arithmetic_of_error hf (by simp)] at h
      cases h
      exact ⟨[], first, second :: rest, rfl, .inl rfl, .type hv⟩

/-- **Operands without a fault are those that come to a number.** -/
theorem faultFree_iff (hop : op.step? = some step) {operands : List (Value ε)} :
    FaultFree op operands ↔ operands = [] ∨ ∃ m, Reaches op operands m := by
  constructor
  · intro hfree
    match operands with
    | [] => exact .inl rfl
    | [v] =>
      rcases v.number_cases with ⟨n, rfl, _⟩ | ⟨hv, _⟩
      · exact .inr ⟨n, .single n⟩
      · exact absurd (.type hv) (hfree [] v [] rfl _)
    | first :: second :: rest =>
      cases hrun : op.run (first :: second :: rest) with
      | ok v =>
        obtain ⟨n, rfl⟩ := exists_number_of_run hop hrun
        exact .inr ⟨n, .several hrun⟩
      | error e =>
        obtain ⟨before, v, after, hsplit, _, hf⟩ := exists_fault_of_run hop (by simp) hrun
        exact absurd hf (hfree before v after hsplit e)
  · rintro h front u back rfl e hf
    obtain ⟨n, hr⟩ := h.resolve_left (by simp)
    cases front with
    | nil =>
      obtain ⟨m, rfl, _⟩ := (reaches_cons_iff hop).1 hr
      cases hf with
      | type hv => cases hv
      | arithmetic hr _ => exact not_reaches_nil hr
    | cons first front =>
      have hlen : 2 ≤ (first :: front ++ u :: back).length := by
        simp only [List.cons_append, List.length_cons, List.length_append]
        omega
      have hok := hr.run_eq_ok hlen
      have herr := run_of_faultAt hop (reaches_front hop hr) hf hlen
      cases hok.symm.trans herr

theorem run_eq_error_iff (hop : op.step? = some step) {args : List (Value ε)} (hlen : 2 ≤ args.length) :
    op.run args = .error e ↔
      ∃ before v after, args = before ++ v :: after ∧ FaultAt op before v e ∧ FaultFree op before := by
  constructor
  · intro h
    obtain ⟨before, v, after, hsplit, hb, hf⟩ := exists_fault_of_run hop hlen h
    exact ⟨before, v, after, hsplit, hf, (faultFree_iff hop).2 hb⟩
  · rintro ⟨before, v, after, rfl, hf, hfree⟩
    exact run_of_faultAt hop ((faultFree_iff hop).1 hfree) hf hlen

theorem FaultAt.type_or_arithmetic (hop : op.step? = some step) (h : FaultAt op before v e) :
    v.isNumber = false ∧ e = .type .number v.kind ∨ v.isNumber = true ∧ e.category = .arithmetic := by
  cases h with
  | type hv => exact .inl ⟨hv, rfl⟩
  | arithmetic _ hs => exact .inr ⟨rfl, category_of_step hop ((run_pair_eq_error hop).1 hs)⟩

/-- **The four arithmetic operators can be split anywhere, errors included.**  The first operands can be replaced by
what they come to; a result is a number; and the error is that of the leftmost operand at fault, its wrong kind where it
is not a number and an error of arithmetic where it is. -/
theorem run_splits (op : Operator) (hop : op ∈ [.add, .subtract, .multiply, .divide]) :
    (∀ xs ys : List (Value ε), 2 ≤ xs.length → ys ≠ [] →
      op.run (xs ++ ys) = op.run xs >>= fun v => op.run (v :: ys)) ∧
    (∀ (args : List (Value ε)) (v : Value ε), op.run args = .ok v → ∃ n, v = .num n) ∧
    (∀ (args : List (Value ε)) (e : Error), 2 ≤ args.length →
      (op.run args = .error e ↔
        ∃ before v after, args = before ++ v :: after ∧ FaultAt op before v e ∧ FaultFree op before)) ∧
    ∀ (before : List (Value ε)) (v : Value ε) (e : Error), FaultAt op before v e →
      v.isNumber = false ∧ e = .type .number v.kind ∨ v.isNumber = true ∧ e.category = .arithmetic := by
  obtain ⟨step, hstep⟩ : ∃ step, op.step? = some step := by
    simp only [List.mem_cons, List.not_mem_nil, or_false] at hop
    rcases hop with rfl | rfl | rfl | rfl <;> exact ⟨_, rfl⟩
  refine ⟨fun xs ys hx hy => ?_, fun args v h => exists_number_of_run hstep h,
    fun args e hlen => run_eq_error_iff hstep hlen, fun before v e hf => hf.type_or_arithmetic hstep⟩
  rw [run_eq_arithmetic hstep]
  exact arithmetic_append op step hx hy

/-- The quotient of the first two is out of range, and that is reported although a truth value follows; a quotient in
range can be put in their place. -/
theorem run_splits_truth :
    let least : Value Empty := .num (.int Int64.minValue)
    let minusOne : Value Empty := .num (.int (-1))
    let truth : Value Empty := .bool true
    Operator.divide.run [least, minusOne, truth] = .error (.overflow .divide) ∧
      Operator.divide.run ([least, least] ++ [truth]) =
        Operator.divide.run [least, least] >>= fun v => Operator.divide.run [v, truth] := by
  intro least minusOne truth
  have hsplits := run_splits (ε := Empty) .divide (by decide)
  have hfree : FaultFree .divide [least] := (faultFree_iff rfl).2 (.inr ⟨_, .single _⟩)
  have hfault : FaultAt .divide [least] minusOne (.overflow .divide) := .arithmetic (.single _) (by rfl)
  exact ⟨(hsplits.2.2.1 _ _ (by simp)).2 ⟨[least], minusOne, [truth], rfl, hfault, hfree⟩,
    hsplits.1 _ _ (by simp) (by simp)⟩

end Operator
end Lisplet
