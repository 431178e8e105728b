import Lisplet.Tool
/-!
# What the operators do

All that is known of the seven operators elsewhere: what they return, how they fail, and what they look at.
-/
namespace Lisplet

variable {ε α β : Type}

/-! ## What they return -/

namespace Operator

theorem arithmetic_eq_ok {op : Operator} {step : Number → Number → Except Error Number} {args : List (Value ε)}
    {v : Value ε} (h : op.arithmetic step args = .ok v) : ∃ n, v = .num n := by
  unfold arithmetic at h
  split at h
  · next first second rest =>
    split at h
    · cases h
    · next n _ =>
      cases hf : foldFrom step n (second :: rest) with
      | error e => rw [hf] at h; cases h
      | ok m => rw [hf] at h; cases h; exact ⟨m, rfl⟩
  · cases h

theorem ordered_eq_ok {op : Operator} {wanted : Ordering} {args : List (Value ε)} {v : Value ε}
    (h : op.ordered wanted args = .ok v) : ∃ b, v = .bool b := by
  unfold ordered at h
  split at h
  · next first second rest =>
    cases hn : first.number with
    | error e => rw [hn] at h; cases h
    | ok n =>
      cases hm : numbers (second :: rest) with
      | error e => rw [hn, hm] at h; cases h
      | ok ns => rw [hn, hm] at h; cases h; exact ⟨_, rfl⟩
  · cases h

theorem equality_eq_ok [Named ε] {op : Operator} {args : List (Value ε)} {v : Value ε} (h : op.equality args = .ok v) :
    ∃ b, v = .bool b := by
  unfold equality at h
  split at h
  · cases h; exact ⟨_, rfl⟩
  · cases h

/-- **An operator returns a number or a truth value.** -/
theorem run_eq_ok [Named ε] {op : Operator} {args : List (Value ε)} {v : Value ε} (h : op.run args = .ok v) :
    (∃ n, v = .num n) ∨ ∃ b, v = .bool b := by
  cases op with
  | add | subtract | multiply | divide => exact .inl (arithmetic_eq_ok h)
  | greater | less => exact .inr (ordered_eq_ok h)
  | equal => exact .inr (equality_eq_ok h)

end Operator

/-! ## How they fail -/

/-- The errors of operators: the number of the operands, their kinds, or their values. -/
inductive Operator.Fault : Error → Prop where
  | arity (callee : String) (expected : Arity) (got : Nat) : Fault (.arity callee expected got)
  | type (expected : Wanted) (got : Kind) : Fault (.type expected got)
  | divisionByZero : Fault .divisionByZero
  | overflow (op : Operator) : Fault (.overflow op)

def Faults (r : Except Error α) : Prop :=
  ∀ e, r = .error e → Operator.Fault e

namespace Faults

theorem ok (v : α) : Faults (.ok v) := by
  intro e h
  cases h

theorem of_error {r : Except Error α} {e : Error} (h : Faults r) (hr : r = .error e) :
    Faults (.error e : Except Error β) := by
  intro e' he
  cases he
  exact h e hr

theorem map {r : Except Error α} (f : α → β) (h : Faults r) : Faults (r.map f) := by
  cases r with
  | ok v => exact .ok (f v)
  | error e => exact h.of_error rfl

end Faults

theorem Value.faults_number (v : Value ε) : Faults v.number := by
  intro e h
  cases v with
  | num n => cases h
  | null | bool | symbol | closure | builtin => cases h; exact .type _ _

namespace Number

theorem faults_checked (op : Operator) (n : Int) : Faults (checked op n) := by
  intro e h
  unfold checked at h
  split at h
  · cases h
  · cases h
    exact .overflow op

theorem faults_add : ∀ x y : Number, Faults (x.add y)
  | .int _, .int _ => faults_checked _ _
  | .int _, .float _ | .float _, .int _ | .float _, .float _ => .ok _

theorem faults_sub : ∀ x y : Number, Faults (x.sub y)
  | .int _, .int _ => faults_checked _ _
  | .int _, .float _ | .float _, .int _ | .float _, .float _ => .ok _

theorem faults_mul : ∀ x y : Number, Faults (x.mul y)
  | .int _, .int _ => faults_checked _ _
  | .int _, .float _ | .float _, .int _ | .float _, .float _ => .ok _

theorem faults_quotient : ∀ x y : Number, Faults (x.quotient y)
  | .int a, .int b => by
    rw [quotient]
    by_cases h : a.toInt % b.toInt = 0
    · rw [if_pos h]; exact faults_checked _ _
    · rw [if_neg h]; exact .ok _
  | .int _, .float _ | .float _, .int _ | .float _, .float _ => .ok _

theorem faults_div (x y : Number) : Faults (x.div y) := by
  unfold div
  split
  · intro e h
    cases h
    exact .divisionByZero
  · exact faults_quotient x y

end Number

namespace Operator

theorem faults_tooFew (op : Operator) (args : List (Value ε)) :
    Faults (.error (op.tooFew args) : Except Error α) := by
  intro e h
  cases h
  exact .arity _ _ _

theorem faults_foldFrom {step : Number → Number → Except Error Number} (hs : ∀ x y, Faults (step x y)) :
    ∀ (reached : Number) (args : List (Value ε)), Faults (foldFrom step reached args)
  | reached, [] => .ok reached
  | reached, v :: rest => by
    rw [foldFrom]
    have hv := v.faults_number
    cases hn : v.number with
    | error e => exact hv.of_error hn
    | ok n =>
      simp only
      have hr := hs reached n
      cases hstep : step reached n with
      | error e => exact hr.of_error hstep
      | ok next => exact faults_foldFrom hs next rest

theorem faults_arithmetic (op : Operator) {step : Number → Number → Except Error Number}
    (hs : ∀ x y, Faults (step x y)) (args : List (Value ε)) : Faults (op.arithmetic step args) := by
  unfold arithmetic
  split
  · next first second rest =>
    have hv := first.faults_number
    cases hn : first.number with
    | error e => exact hv.of_error hn
    | ok n => exact (faults_foldFrom hs n (second :: rest)).map _
  · exact op.faults_tooFew _

theorem faults_numbers : ∀ args : List (Value ε), Faults (numbers args)
  | [] => .ok []
  | v :: rest => by
    have hv := v.faults_number
    have hr := faults_numbers rest
    unfold numbers at hr ⊢
    rw [List.mapM_cons]
    cases hn : v.number with
    | error e => exact hv.of_error hn
    | ok n =>
      cases hm : rest.mapM Value.number with
      | error e => exact hr.of_error hm
      | ok ns => exact .ok _

theorem faults_ordered (op : Operator) (wanted : Ordering) (args : List (Value ε)) :
    Faults (op.ordered wanted args) := by
  unfold ordered
  split
  · next first second rest =>
    have hv := first.faults_number
    have hr := faults_numbers (second :: rest)
    cases hn : first.number with
    | error e => exact hv.of_error hn
    | ok n =>
      cases hm : numbers (second :: rest) with
      | error e => exact hr.of_error hm
      | ok ns => exact .ok _
  · exact op.faults_tooFew _

theorem faults_equality [Named ε] (op : Operator) (args : List (Value ε)) : Faults (op.equality args) := by
  unfold equality
  split
  · exact .ok _
  · exact op.faults_tooFew _

/-- **An operator fails for its operands only.** -/
theorem faults_run [Named ε] (op : Operator) (args : List (Value ε)) : Faults (op.run args) := by
  cases op with
  | add => exact faults_arithmetic _ Number.faults_add args
  | subtract => exact faults_arithmetic _ Number.faults_sub args
  | multiply => exact faults_arithmetic _ Number.faults_mul args
  | divide => exact faults_arithmetic _ Number.faults_div args
  | greater => exact faults_ordered _ _ args
  | less => exact faults_ordered _ _ args
  | equal => exact faults_equality _ args

end Operator

/-! ## What they look at -/

namespace Operator

variable {f : Value ε → Value ε}

theorem foldFrom_map (hf : ∀ v, (f v).number = v.number) (step : Number → Number → Except Error Number) :
    ∀ (reached : Number) (args : List (Value ε)), foldFrom step reached (args.map f) = foldFrom step reached args
  | _, [] => rfl
  | reached, v :: rest => by
    simp only [List.map_cons, foldFrom, hf, foldFrom_map hf step _ rest]

theorem arithmetic_map (hf : ∀ v, (f v).number = v.number) (op : Operator)
    (step : Number → Number → Except Error Number) :
    ∀ args : List (Value ε), op.arithmetic step (args.map f) = op.arithmetic step args
  | [] | [_] => rfl
  | first :: second :: rest => by
    have hfold := fun n => foldFrom_map hf step n (second :: rest)
    simp only [List.map_cons] at hfold
    simp only [List.map_cons, arithmetic, hf, hfold]

theorem numbers_map (hf : ∀ v, (f v).number = v.number) (args : List (Value ε)) :
    numbers (args.map f) = numbers args := by
  unfold numbers
  induction args with
  | nil => rfl
  | cons v rest ih => simp only [List.map_cons, List.mapM_cons, hf, ih]

theorem ordered_map (hf : ∀ v, (f v).number = v.number) (op : Operator) (wanted : Ordering) :
    ∀ args : List (Value ε), op.ordered wanted (args.map f) = op.ordered wanted args
  | [] | [_] => rfl
  | first :: second :: rest => by
    have hrest := numbers_map hf (second :: rest)
    simp only [List.map_cons] at hrest
    simp only [List.map_cons, ordered, hf, hrest]

variable [Named ε]

theorem chained_map (he : ∀ v w : Value ε, (f v == f w) = (v == w)) :
    ∀ args : List (Value ε), chained (args.map f) = chained args
  | [] | [_] => rfl
  | a :: b :: rest => by
    have hrest := chained_map he (b :: rest)
    simp only [List.map_cons] at hrest
    simp only [List.map_cons, chained, he, hrest]

theorem equality_map (he : ∀ v w : Value ε, (f v == f w) = (v == w)) (op : Operator) :
    ∀ args : List (Value ε), op.equality (args.map f) = op.equality args
  | [] | [_] => rfl
  | a :: b :: rest => by
    have hrest := chained_map he (a :: b :: rest)
    simp only [List.map_cons] at hrest
    simp only [List.map_cons, equality, hrest]

/-- **An operator looks at the numbers of its operands and at which operands are equal**, and at nothing else. -/
theorem run_map (hf : ∀ v, (f v).number = v.number) (he : ∀ v w : Value ε, (f v == f w) = (v == w)) (op : Operator)
    (args : List (Value ε)) : op.run (args.map f) = op.run args := by
  cases op with
  | add | subtract | multiply | divide => exact arithmetic_map hf _ _ args
  | greater | less => exact ordered_map hf _ _ args
  | equal => exact equality_map he _ args

end Operator
end Lisplet
