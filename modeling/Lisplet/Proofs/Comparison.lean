import Lisplet.Proofs.Binary64.Order
import Lisplet.Proofs.Folding
/-!
# Numbers in order

Two numbers are compared on a common line (`places?`): integers by their exact values, and any other pair by the
binary64 numbers that they convert to.  So less, equal and greater exclude each other, and one of the three holds unless
a NaN takes part.  No such law holds of three numbers, since the line may be another one for each pair.

The order operators hold the first operand against each of the others.  All operands are checked to be numbers before
the answer is given, so that a wrong kind is reported although the answer is known, and in which order the others stand
does not matter.
-/
namespace Lisplet

open Binary64 (Line)

variable {ε : Type}

namespace Number

/-- **Two numbers on a common line**: integers by their own values, any other pair by the places of the binary64 numbers
that they convert to. -/
def places? : Number → Number → Option (Line × Line)
  | .int a, .int b => some (.ofRat a.toInt, .ofRat b.toInt)
  | x, y => Option.map₂ Prod.mk x.toBinary64.place? y.toBinary64.place?

theorem integers_or_converted (x y : Number) :
    (∃ a b, x = .int a ∧ y = .int b) ∨
      x.compare? y = x.toBinary64.compare? y.toBinary64 ∧
      x.places? y = Option.map₂ Prod.mk x.toBinary64.place? y.toBinary64.place? ∧
      y.places? x = Option.map₂ Prod.mk y.toBinary64.place? x.toBinary64.place? :=
  match x, y with
  | .int a, .int b => .inl ⟨a, b, rfl, rfl⟩
  | .int _, .float _ | .float _, .int _ | .float _, .float _ => .inr ⟨rfl, rfl, rfl⟩

variable {x y : Number} {wanted : Ordering}

theorem compare_toInt (a b : Integer) : compare a.toInt b.toInt = cmp (Line.ofRat a.toInt) (.ofRat b.toInt) := by
  have hmono : StrictMono fun n : Int => Line.ofRat n := Line.ofRat_strictMono.comp Int.cast_strictMono
  rw [← cmp_eq_compare, ← hmono.cmp_map_eq]

/-- **Numbers compare as their places on the common line.** -/
theorem compare?_eq (x y : Number) : x.compare? y = (x.places? y).map fun p => cmp p.1 p.2 := by
  rcases integers_or_converted x y with ⟨a, b, rfl, rfl⟩ | ⟨hc, hp, -⟩
  · exact congrArg some (compare_toInt a b)
  · rw [hc, hp, Binary64.compare?_eq, Option.map_map₂]

theorem compare?_eq_some_iff : x.compare? y = some wanted ↔ ∃ p q, x.places? y = some (p, q) ∧ cmp p q = wanted := by
  rw [compare?_eq, Option.map_eq_some_iff]
  exact Prod.exists

theorem compare?_eq_lt_iff : x.compare? y = some .lt ↔ ∃ p q, x.places? y = some (p, q) ∧ p < q := by
  rw [compare?_eq_some_iff]
  exact exists₂_congr fun p q => and_congr_right' (cmp_eq_lt_iff p q)

theorem compare?_eq_eq_iff : x.compare? y = some .eq ↔ ∃ p, x.places? y = some (p, p) := by
  rw [compare?_eq_some_iff]
  constructor
  · rintro ⟨p, q, hp, hcmp⟩
    obtain rfl := (cmp_eq_eq_iff p q).1 hcmp
    exact ⟨p, hp⟩
  · rintro ⟨p, hp⟩
    exact ⟨p, p, hp, cmp_self_eq_eq p⟩

/-- **Equality agrees with the order**, though neither is defined by the other. -/
theorem equal_eq_true_iff : ∀ {x y : Number}, x.equal y = true ↔ x.compare? y = some .eq
  | .int a, .int b => by
    rw [equal, compare?, beq_iff_eq, Option.some.injEq, compare_eq_iff_eq, Int64.toInt_inj]
  | .int _, .float _ | .float _, .int _ | .float _, .float _ => beq_iff_eq (α := Option Ordering)

theorem places?_swap (x y : Number) : y.places? x = (x.places? y).map Prod.swap := by
  rcases integers_or_converted x y with ⟨a, b, rfl, rfl⟩ | ⟨-, hxy, hyx⟩
  · rfl
  · rw [hxy, hyx, Option.map_map₂, Option.map₂_swap]
    rfl

theorem compare?_swap (x y : Number) : y.compare? x = (x.compare? y).map Ordering.swap := by
  rw [compare?_eq, compare?_eq, places?_swap, Option.map_map, Option.map_map]
  congr 1
  funext p
  exact (cmp_swap p.1 p.2).symm

theorem compare?_gt_iff_lt : y.compare? x = some .gt ↔ x.compare? y = some .lt := by
  rw [compare?_swap]
  cases x.compare? y with
  | none => simp
  | some o => cases o <;> simp [Ordering.swap]

theorem place?_toBinary64_eq_none_iff {x : Number} : x.toBinary64.place? = none ↔ x = .float .nan := by
  rw [Binary64.place?_eq_none_iff]
  cases x with
  | int n => simp [toBinary64, Binary64.ofInt_ne_nan]
  | float x => simp [toBinary64]

theorem compare?_eq_none_iff : x.compare? y = none ↔ x = .float .nan ∨ y = .float .nan := by
  rw [compare?_eq, Option.map_eq_none_iff]
  rcases integers_or_converted x y with ⟨a, b, rfl, rfl⟩ | ⟨-, hp, -⟩
  · simp [places?]
  · rw [hp, Option.map₂_eq_none_iff, place?_toBinary64_eq_none_iff, place?_toBinary64_eq_none_iff]

end Number

namespace Operator

/-! ## Operands -/

variable {op : Operator} {args : List (Value ε)} {e : Error}

theorem numbers_cons (v : Value ε) (rest : List (Value ε)) :
    numbers (v :: rest) = v.number >>= fun n => numbers rest >>= fun ns => .ok (n :: ns) :=
  List.mapM_cons

theorem numbers_map_num : ∀ ns : List Number, numbers (ns.map (Value.num (ε := ε))) = .ok ns
  | [] => rfl
  | n :: ns => by
    rw [List.map_cons, numbers_cons, numbers_map_num ns]
    rfl

theorem exists_map_num : ∀ args : List (Value ε), (∀ v ∈ args, v.isNumber = true) →
    ∃ ns : List Number, args = ns.map .num
  | [], _ => ⟨[], rfl⟩
  | v :: rest, h => by
    obtain ⟨hv, hrest⟩ := List.forall_mem_cons.1 h
    obtain ⟨ns, rfl⟩ := exists_map_num rest hrest
    rcases v.number_cases with ⟨n, rfl, -⟩ | ⟨hn, -⟩
    · exact ⟨n :: ns, rfl⟩
    · rw [hv] at hn
      cases hn

/-- **The leftmost operand that is no number is reported**, whatever numbers stand before it. -/
theorem numbers_of_find? {v : Value ε} : ∀ args : List (Value ε), args.find? (fun u => !u.isNumber) = some v →
    numbers args = .error (.type .number v.kind)
  | [], h => by cases h
  | u :: rest, h => by
    rw [numbers_cons]
    rcases u.number_cases with ⟨n, rfl, hn⟩ | ⟨hu, hn⟩
    · rw [List.find?_cons_of_neg (by simp [Value.isNumber])] at h
      rw [hn, numbers_of_find? rest h]
      rfl
    · rw [List.find?_cons_of_pos (by simp [hu])] at h
      cases h
      rw [hn]
      rfl

theorem ordered_of_error (op : Operator) (wanted : Ordering) (hlen : 2 ≤ args.length) (h : numbers args = .error e) :
    op.ordered wanted args = .error e := by
  match args, hlen with
  | first :: second :: rest, _ =>
    rw [numbers_cons] at h
    rw [ordered]
    cases hf : first.number with
    | error e' =>
      rw [hf] at h
      cases h
      rfl
    | ok n =>
      rw [hf] at h
      cases hr : numbers (second :: rest) with
      | error e' =>
        rw [hr] at h
        cases h
        rfl
      | ok ns =>
        rw [hr] at h
        cases h

theorem ordered_num (op : Operator) (wanted : Ordering) (x : Number) {ys : List Number} (hys : ys ≠ []) :
    op.ordered wanted (.num x :: ys.map (Value.num (ε := ε))) =
      .ok (.bool (ys.all fun y => x.compare? y == some wanted)) := by
  obtain ⟨y, ys, rfl⟩ := List.exists_cons_of_ne_nil hys
  have hnumbers := numbers_map_num (ε := ε) (y :: ys)
  rw [List.map_cons] at hnumbers ⊢
  rw [ordered, hnumbers]
  rfl

theorem ordered_of_short (op : Operator) (wanted : Ordering) (hlen : args.length < 2) :
    op.ordered wanted args = .error (op.tooFew args) := by
  match args with
  | [] | [_] => rfl
  | _ :: _ :: _ =>
    simp only [List.length_cons] at hlen
    omega

/-! ## Answers -/

def comparison : Ordering → Operator
  | .lt => .less
  | .eq => .equal
  | .gt => .greater

theorem mem_comparisons_iff : op ∈ [.less, .equal, .greater] ↔ ∃ wanted, op = comparison wanted := by
  constructor
  · simp only [List.mem_cons, List.not_mem_nil, or_false]
    rintro (rfl | rfl | rfl)
    · exact ⟨.lt, rfl⟩
    · exact ⟨.eq, rfl⟩
    · exact ⟨.gt, rfl⟩
  · rintro ⟨wanted, rfl⟩
    cases wanted <;> decide

variable [Named ε]

theorem run_pair (wanted : Ordering) (x y : Number) :
    (comparison wanted).run [(.num x : Value ε), .num y] = .ok (.bool (x.compare? y == some wanted)) := by
  have hone : (([y] : List Number).all fun y => x.compare? y == some wanted) = (x.compare? y == some wanted) := by simp
  cases wanted with
  | lt => exact hone ▸ ordered_num .less .lt x (List.cons_ne_nil y [])
  | eq =>
    have hequal : x.equal y = (x.compare? y == some .eq) := by
      rw [Bool.eq_iff_iff, beq_iff_eq, Number.equal_eq_true_iff]
    rw [← hequal, ← Bool.and_true (x.equal y)]
    rfl
  | gt => exact hone ▸ ordered_num .greater .gt x (List.cons_ne_nil y [])

/-- **A comparison of two numbers is true where they stand in the order that it wants.** -/
theorem run_pair_eq_true {wanted : Ordering} {x y : Number} :
    (comparison wanted).run [(.num x : Value ε), .num y] = .ok (.bool true) ↔ x.compare? y = some wanted := by
  rw [run_pair]
  simp

theorem run_less_swap (x y : Number) :
    Operator.less.run [(.num x : Value ε), .num y] = Operator.greater.run [(.num y : Value ε), .num x] := by
  have hswap : (x.compare? y == some .lt) = (y.compare? x == some .gt) := by
    rw [Bool.eq_iff_iff, beq_iff_eq, beq_iff_eq, Number.compare?_gt_iff_lt]
  exact (run_pair .lt x y).trans (hswap ▸ (run_pair .gt y x).symm)

theorem eq_of_run_pair {c d : Operator} (hc : c ∈ [.less, .equal, .greater]) (hd : d ∈ [.less, .equal, .greater])
    {x y : Number} (hcrun : c.run [(.num x : Value ε), .num y] = .ok (.bool true))
    (hdrun : d.run [(.num x : Value ε), .num y] = .ok (.bool true)) : c = d := by
  obtain ⟨wanted, rfl⟩ := mem_comparisons_iff.1 hc
  obtain ⟨wanted', rfl⟩ := mem_comparisons_iff.1 hd
  rw [run_pair_eq_true] at hcrun hdrun
  rw [Option.some.inj (hcrun.symm.trans hdrun)]

theorem exists_run_pair {x y : Number} (hx : x ≠ .float .nan) (hy : y ≠ .float .nan) :
    ∃ c ∈ [Operator.less, .equal, .greater], c.run [(.num x : Value ε), .num y] = .ok (.bool true) := by
  cases hc : x.compare? y with
  | none => exact ((Number.compare?_eq_none_iff.1 hc).elim hx hy).elim
  | some wanted => exact ⟨comparison wanted, mem_comparisons_iff.2 ⟨wanted, rfl⟩, run_pair_eq_true.2 hc⟩

theorem exists_ordered (hop : op ∈ [.less, .greater]) :
    ∃ wanted, op = comparison wanted ∧ ∀ args : List (Value ε), op.run args = op.ordered wanted args := by
  simp only [List.mem_cons, List.not_mem_nil, or_false] at hop
  rcases hop with rfl | rfl
  · exact ⟨.lt, rfl, fun _ => rfl⟩
  · exact ⟨.gt, rfl, fun _ => rfl⟩

theorem run_of_numbers (hop : op ∈ [.less, .greater]) {first : Value ε} {rest : List (Value ε)} (hne : rest ≠ [])
    (hnum : ∀ v ∈ first :: rest, v.isNumber = true) :
    ∃ b, op.run (first :: rest) = .ok (.bool b) ∧ (b = true ↔ ∀ v ∈ rest, op.run [first, v] = .ok (.bool true)) := by
  obtain ⟨wanted, rfl, hrun⟩ := exists_ordered (ε := ε) hop
  obtain ⟨ns, hns⟩ := exists_map_num _ hnum
  obtain ⟨x, ys, rfl, rfl, rfl⟩ := List.map_eq_cons_iff.1 hns.symm
  have hys : ys ≠ [] := fun h => hne (by rw [h, List.map_nil])
  refine ⟨_, (hrun _).trans (ordered_num _ wanted x hys), ?_⟩
  rw [List.all_eq_true, List.forall_mem_map]
  simp only [run_pair_eq_true, beq_iff_eq]

/-- **The order operators, and the order of numbers.**  Too few operands are an error, and then the leftmost operand
that is no number, whatever the others are.  On numbers the answer is that of the first operand with each of the others,
in any order of these.  Of two numbers the comparisons say how their places on a common line stand to each other, so no
two of the three are true and, without a NaN, one is. -/
theorem run_orders (op : Operator) (hop : op ∈ [.less, .greater]) :
    (∀ args : List (Value ε), args.length < 2 →
      op.run args = .error (.arity op.spelling (.atLeast 2) args.length)) ∧
    (∀ (args : List (Value ε)) (v : Value ε), 2 ≤ args.length → args.find? (fun u => !u.isNumber) = some v →
      op.run args = .error (.type .number v.kind)) ∧
    (∀ (first : Value ε) (rest : List (Value ε)), rest ≠ [] → (∀ v ∈ first :: rest, v.isNumber = true) →
      ∃ b, op.run (first :: rest) = .ok (.bool b) ∧
        (b = true ↔ ∀ v ∈ rest, op.run [first, v] = .ok (.bool true)) ∧
        ∀ others, rest.Perm others → op.run (first :: others) = .ok (.bool b)) ∧
    ∀ x y : Number,
      Operator.less.run [(.num x : Value ε), .num y] = Operator.greater.run [(.num y : Value ε), .num x] ∧
      (Operator.less.run [(.num x : Value ε), .num y] = .ok (.bool true) ↔
        ∃ p q, x.places? y = some (p, q) ∧ p < q) ∧
      (Operator.equal.run [(.num x : Value ε), .num y] = .ok (.bool true) ↔ ∃ p, x.places? y = some (p, p)) ∧
      (((.num x : Value ε) == .num y) = true ↔ x.compare? y = some .eq) ∧
      (∀ c ∈ [less, equal, greater], ∀ d ∈ [less, equal, greater],
        c.run [(.num x : Value ε), .num y] = .ok (.bool true) →
        d.run [(.num x : Value ε), .num y] = .ok (.bool true) → c = d) ∧
      (x ≠ .float .nan → y ≠ .float .nan →
        ∃ c ∈ [less, equal, greater], c.run [(.num x : Value ε), .num y] = .ok (.bool true)) := by
  obtain ⟨wanted, -, hrun⟩ := exists_ordered (ε := ε) hop
  refine ⟨fun args hlen => ?_, fun args v hlen hv => ?_, fun first rest hne hnum => ?_, fun x y => ?_⟩
  · rw [hrun]
    exact ordered_of_short op wanted hlen
  · rw [hrun]
    exact ordered_of_error op wanted hlen (numbers_of_find? args hv)
  · obtain ⟨b, hb, hall⟩ := run_of_numbers hop hne hnum
    refine ⟨b, hb, hall, fun others hperm => ?_⟩
    have hne' : others ≠ [] := fun h => hne (List.perm_nil.1 (h ▸ hperm))
    have hnum' : ∀ v ∈ first :: others, v.isNumber = true := fun v hv => hnum v ((hperm.cons first).mem_iff.2 hv)
    obtain ⟨b', hb', hall'⟩ := run_of_numbers hop hne' hnum'
    have hbb' : b' = b := by
      rw [Bool.eq_iff_iff, hall, hall']
      simp only [hperm.mem_iff]
    rw [hb', hbb']
  · refine ⟨run_less_swap x y, ?_, ?_, ?_, fun c hc d hd => eq_of_run_pair hc hd, exists_run_pair⟩
    · exact run_pair_eq_true.trans Number.compare?_eq_lt_iff
    · exact run_pair_eq_true.trans Number.compare?_eq_eq_iff
    · exact Number.equal_eq_true_iff

/-- The truth value is reported although the answer was known before it; the last two operands can change places; and a
float stands to an integer that converts to it as the integer to the float. -/
theorem run_orders_truth :
    let number (n : Integer) : Value Empty := .num (.int n)
    let float : Value Empty := .num (.float (.ofInt 9007199254740992))
    Operator.greater.run [number 5, number 9, .bool true] = .error (.type .number .bool) ∧
      (∃ b, Operator.greater.run [number 5, number 1, number 9] = .ok (.bool b) ∧
        Operator.greater.run [number 5, number 9, number 1] = .ok (.bool b)) ∧
      Operator.less.run [float, number 9007199254740993] = Operator.greater.run [number 9007199254740993, float] := by
  intro number float
  have horders := run_orders (ε := Empty) .greater (by decide)
  obtain ⟨b, hb, -, hperm⟩ := horders.2.2.1 (number 5) [number 1, number 9] (by simp) (by decide)
  exact ⟨horders.2.1 _ (.bool true) (by simp) rfl, ⟨b, hb, hperm _ (.swap _ _ _)⟩,
    (horders.2.2.2 (.float (.ofInt 9007199254740992)) (.int 9007199254740993)).1⟩

end Operator
end Lisplet
