import Lisplet.Proofs.Folding
import Mathlib.Algebra.BigOperators.Ring.List
import Mathlib.Algebra.Ring.Int.Defs
import Mathlib.Tactic.Ring
/-!
# Integers divided one after the other

Division goes from operand to operand: it stays with integers as long as every step is exact, and with floats after the
first step that is not.  What it comes to can be read off the operands at once.  It is out of range only for the least
integer that meets `-1` behind nothing but ones; short of that a zero among the divisors is reported, wherever it is;
and short of that the result is an integer exactly if the product of all divisors, taken over the unbounded integers,
divides the first operand.

`Divided` lists the four cases.  An exact step keeps each of them (`Divided.of_exact_step`), since an exact quotient
that is the least integer is the dividend itself.
-/
namespace Lisplet

variable {ε : Type}

namespace Integer

def operands (ns : List Integer) : List (Value ε) :=
  ns.map fun n => .num (.int n)

def product (ns : List Integer) : Int :=
  (ns.map Int64.toInt).prod

/-- **Division leaves the range of integers**: the least one meets `-1` before any divisor other than `1`. -/
def Overflows (a : Integer) (bs : List Integer) : Prop :=
  a.toInt = -2 ^ 63 ∧ ∃ before after, bs = before ++ -1 :: after ∧ ∀ b ∈ before, b = 1

/-- **What an integer divided by integers comes to.** -/
inductive Divided (a : Integer) (bs : List Integer) : Except Error Number → Prop where
  | overflow (h : Overflows a bs) : Divided a bs (.error (.overflow .divide))
  | byZero (h : ¬ Overflows a bs) (hz : 0 ∈ bs) : Divided a bs (.error .divisionByZero)
  | exact (h : ¬ Overflows a bs) (hz : 0 ∉ bs) {q : Integer} (hq : q.toInt * product bs = a.toInt) :
    Divided a bs (.ok (.int q))
  | inexact (h : ¬ Overflows a bs) (hz : 0 ∉ bs) (hd : ¬ product bs ∣ a.toInt) (x : Binary64) :
    Divided a bs (.ok (.float x))

variable {a b q : Integer} {bs : List Integer}

theorem toInt_ne_zero (h : b ≠ 0) : b.toInt ≠ 0 := by
  intro hz
  exact h (Int64.toInt_inj.1 hz)

theorem zero_mem_cons_iff (hb : b ≠ 0) : 0 ∈ b :: bs ↔ 0 ∈ bs := by
  rw [List.mem_cons, or_iff_right (Ne.symm hb)]

theorem product_cons (b : Integer) (bs : List Integer) : product (b :: bs) = b.toInt * product bs := by
  rw [product, List.map_cons, List.prod_cons, product]

theorem product_ne_zero (h : 0 ∉ bs) : product bs ≠ 0 := by
  intro hz
  obtain ⟨b, hb, hb0⟩ := List.mem_map.1 (List.prod_eq_zero_iff.1 hz)
  exact toInt_ne_zero (fun h0 => h (h0 ▸ hb)) hb0

theorem not_overflows_nil : ¬ Overflows a [] := by
  rintro ⟨-, before, after, h, -⟩
  simp at h

theorem overflows_cons_iff :
    Overflows a (b :: bs) ↔ a.toInt = -2 ^ 63 ∧ (b = -1 ∨ b = 1 ∧ Overflows a bs) := by
  constructor
  · rintro ⟨ha, before, after, hsplit, hones⟩
    refine ⟨ha, ?_⟩
    cases before with
    | nil => exact .inl (List.cons.inj hsplit).1
    | cons c before =>
      obtain ⟨rfl, rfl⟩ := List.cons.inj hsplit
      rw [List.forall_mem_cons] at hones
      exact .inr ⟨hones.1, ha, before, after, rfl, hones.2⟩
  · rintro ⟨ha, rfl | ⟨rfl, -, before, after, rfl, hones⟩⟩
    · exact ⟨ha, [], bs, rfl, by simp⟩
    · exact ⟨ha, 1 :: before, after, rfl, by simpa using hones⟩

/-! ## One step -/

/-- Nothing but a unit divides a number in range with a quotient at the edge of the range or beyond it. -/
theorem eq_one_or_of_large {c b a : Int} (hc : 2 ^ 63 ≤ c.natAbs) (hmul : c * b = a) (hb : b ≠ 0)
    (ha : a.natAbs ≤ 2 ^ 63) : b = 1 ∨ b = -1 := by
  have hprod : c.natAbs * b.natAbs = a.natAbs := by rw [← hmul, Int.natAbs_mul]
  have hlt : b.natAbs < 2 := by
    by_contra hge
    have hle : c.natAbs * 2 ≤ c.natAbs * b.natAbs := Nat.mul_le_mul_left _ (by omega)
    omega
  omega

theorem natAbs_toInt_le (a : Integer) : a.toInt.natAbs ≤ 2 ^ 63 := by
  have hle := Int64.le_toInt a
  have hlt := Int64.toInt_lt a
  omega

theorem div_of_ne_zero (x : Number) (hb : b ≠ 0) : x.div (.int b) = x.quotient (.int b) := by
  rw [Number.div, Number.isZero, if_neg (by simpa using hb)]

theorem div_cases (a b : Integer) :
    b = 0 ∧ (Number.int a).div (.int b) = .error .divisionByZero ∨
    (a.toInt = -2 ^ 63 ∧ b = -1) ∧ (Number.int a).div (.int b) = .error (.overflow .divide) ∨
    (b ≠ 0 ∧ ¬ (a.toInt = -2 ^ 63 ∧ b = -1) ∧
      ∃ q : Integer, q.toInt * b.toInt = a.toInt ∧ (Number.int a).div (.int b) = .ok (.int q)) ∨
    b ≠ 0 ∧ ¬ b.toInt ∣ a.toInt ∧ ∃ x, (Number.int a).div (.int b) = .ok (.float x) := by
  by_cases hb : b = 0
  · subst hb
    exact .inl ⟨rfl, rfl⟩
  rw [div_of_ne_zero _ hb, Number.quotient]
  by_cases hd : a.toInt % b.toInt = 0
  · rw [if_pos hd, Number.checked]
    have hmul : a.toInt / b.toInt * b.toInt = a.toInt := Int.ediv_mul_cancel (Int.dvd_of_emod_eq_zero hd)
    cases hq : ofInt? (a.toInt / b.toInt) with
    | none =>
      rw [ofInt?_eq_none] at hq
      have hle := Int64.le_toInt a
      have hlt := Int64.toInt_lt a
      rcases eq_one_or_of_large (by omega) hmul (toInt_ne_zero hb) a.natAbs_toInt_le with h1 | h1
      · rw [h1] at hmul hq
        omega
      · rw [h1] at hmul hq
        exact .inr (.inl ⟨⟨by omega, Int64.toInt_inj.1 h1⟩, rfl⟩)
    | some q =>
      have hq := ofInt?_eq_some hq
      have hlt := Int64.toInt_lt q
      refine .inr (.inr (.inl ⟨hb, ?_, q, by rw [hq, hmul], rfl⟩))
      rintro ⟨ha, rfl⟩
      rw [ha] at hq
      have hedge : (-2 ^ 63 : Int) / Int64.toInt (-1) = 2 ^ 63 := by decide
      omega
  · rw [if_neg hd]
    exact .inr (.inr (.inr ⟨hb, fun h => hd (Int.emod_eq_zero_of_dvd h), _, rfl⟩))

/-- An exact quotient can be put in the place of the dividend and the first divisor. -/
theorem overflows_of_exact_step (hb : b ≠ 0) (hstep : ¬ (a.toInt = -2 ^ 63 ∧ b = -1))
    (hq : q.toInt * b.toInt = a.toInt) : Overflows a (b :: bs) ↔ Overflows q bs := by
  rw [overflows_cons_iff]
  constructor
  · rintro ⟨ha, rfl | ⟨rfl, h⟩⟩
    · exact absurd ⟨ha, rfl⟩ hstep
    · have hqa : q = a := Int64.toInt_inj.1 (by simpa using hq)
      rw [hqa]
      exact h
  · intro h
    have hlt := Int64.toInt_lt a
    have hqmin := h.1
    rcases eq_one_or_of_large (by omega) hq (toInt_ne_zero hb) a.natAbs_toInt_le with h1 | h1
    · have hqa : q = a := Int64.toInt_inj.1 (by rw [h1] at hq; omega)
      rw [← hqa]
      exact ⟨hqmin, .inr ⟨Int64.toInt_inj.1 h1, h⟩⟩
    · rw [h1] at hq
      omega

theorem Divided.of_exact_step {r : Except Error Number} (hb : b ≠ 0) (hstep : ¬ (a.toInt = -2 ^ 63 ∧ b = -1))
    (hq : q.toInt * b.toInt = a.toInt) (h : Divided q bs r) : Divided a (b :: bs) r := by
  have hover : Overflows a (b :: bs) ↔ Overflows q bs := overflows_of_exact_step hb hstep hq
  have hzero : 0 ∈ b :: bs ↔ 0 ∈ bs := zero_mem_cons_iff hb
  cases h with
  | overflow h => exact .overflow (hover.2 h)
  | byZero h hz => exact .byZero (mt hover.1 h) (hzero.2 hz)
  | exact h hz hp =>
    refine .exact (mt hover.1 h) (mt hzero.1 hz) ?_
    rw [product_cons, ← hq, ← hp]
    ring
  | inexact h hz hd x =>
    refine .inexact (mt hover.1 h) (mt hzero.1 hz) ?_ x
    rw [product_cons, ← hq, mul_comm]
    exact fun h => hd (Int.dvd_of_mul_dvd_mul_right (toInt_ne_zero hb) h)

/-! ## All steps -/

theorem foldFrom_operands_cons (reached : Number) (b : Integer) (bs : List Integer) :
    Operator.foldFrom Number.div reached (operands (ε := ε) (b :: bs)) =
      reached.div (.int b) >>= (Operator.foldFrom Number.div · (operands (ε := ε) bs)) :=
  Operator.foldFrom_num Number.div reached (.int b) (operands bs)

theorem foldFrom_div_float : ∀ (bs : List Integer) (x : Binary64),
    0 ∈ bs ∧ Operator.foldFrom Number.div (.float x) (operands (ε := ε) bs) = .error .divisionByZero ∨
      0 ∉ bs ∧ ∃ y, Operator.foldFrom Number.div (.float x) (operands (ε := ε) bs) = .ok (.float y)
  | [], x => .inr ⟨by simp, x, rfl⟩
  | b :: bs, x => by
    rw [foldFrom_operands_cons]
    by_cases hb : b = 0
    · subst hb
      exact .inl ⟨List.mem_cons_self, rfl⟩
    · rw [div_of_ne_zero _ hb, zero_mem_cons_iff hb]
      exact foldFrom_div_float bs _

theorem divided_of_inexact_step (hb : b ≠ 0) (hd : ¬ b.toInt ∣ a.toInt) (x : Binary64) :
    Divided a (b :: bs) (Operator.foldFrom Number.div (.float x) (operands (ε := ε) bs)) := by
  -- A unit would have divided.
  have hover : ¬ Overflows a (b :: bs) := by
    rw [overflows_cons_iff]
    rintro ⟨-, rfl | ⟨rfl, -⟩⟩
    · exact hd (Int.neg_dvd.2 (Int.one_dvd _))
    · exact hd (Int.one_dvd _)
  have hzero : 0 ∈ b :: bs ↔ 0 ∈ bs := zero_mem_cons_iff hb
  rcases foldFrom_div_float (ε := ε) bs x with ⟨hz, hf⟩ | ⟨hz, y, hf⟩
  · rw [hf]
    exact .byZero hover (hzero.2 hz)
  · rw [hf]
    refine .inexact hover (mt hzero.1 hz) (fun h => hd ?_) y
    rw [product_cons] at h
    exact dvd_of_mul_right_dvd h

/-- **An integer divided by integers comes to what `Divided` says.** -/
theorem divided_foldFrom : ∀ (bs : List Integer) (a : Integer),
    Divided a bs (Operator.foldFrom Number.div (.int a) (operands (ε := ε) bs))
  | [], a => .exact not_overflows_nil (by simp) (by simp [product])
  | b :: bs, a => by
    rw [foldFrom_operands_cons]
    rcases div_cases a b with ⟨rfl, hs⟩ | ⟨⟨ha, rfl⟩, hs⟩ | ⟨hb, hstep, q, hq, hs⟩ | ⟨hb, hd, x, hs⟩
    · rw [hs]
      refine .byZero ?_ List.mem_cons_self
      rw [overflows_cons_iff]
      rintro ⟨-, h | ⟨h, -⟩⟩ <;> exact absurd h (by decide)
    · rw [hs]
      exact .overflow (overflows_cons_iff.2 ⟨ha, .inl rfl⟩)
    · rw [hs]
      exact .of_exact_step hb hstep hq (divided_foldFrom bs q)
    · rw [hs]
      exact divided_of_inexact_step hb hd x

/-! ## The cases apart -/

namespace Divided

variable {r : Except Error Number}

theorem overflow_iff (hr : Divided a bs r) : r = .error (.overflow .divide) ↔ Overflows a bs := by
  cases hr with
  | overflow h => exact ⟨fun _ => h, fun _ => rfl⟩
  | byZero h | exact h | inexact h => exact ⟨nofun, fun hover => absurd hover h⟩

theorem divisionByZero_iff (hr : Divided a bs r) (h : ¬ Overflows a bs) :
    r = .error .divisionByZero ↔ 0 ∈ bs := by
  cases hr with
  | overflow hover => exact absurd hover h
  | byZero _ hz => exact ⟨fun _ => hz, fun _ => rfl⟩
  | exact _ hz | inexact _ hz => exact ⟨nofun, fun hmem => absurd hmem hz⟩

theorem int_iff (hr : Divided a bs r) (h : ¬ Overflows a bs) (hz : 0 ∉ bs) :
    r = .ok (.int q) ↔ q.toInt * product bs = a.toInt := by
  cases hr with
  | overflow hover => exact absurd hover h
  | byZero _ hmem => exact absurd hmem hz
  | exact _ _ hp =>
    constructor
    · rintro ⟨⟩
      exact hp
    · intro hq
      have hint := mul_right_cancel₀ (product_ne_zero hz) (hp.trans hq.symm)
      rw [Int64.toInt_inj.1 hint]
  | inexact _ _ hd => exact ⟨nofun, fun hq => absurd (Dvd.intro_left _ hq) hd⟩

theorem exists_int_or_float (hr : Divided a bs r) (h : ¬ Overflows a bs) (hz : 0 ∉ bs) :
    (product bs ∣ a.toInt ∧ ∃ q, r = .ok (.int q)) ∨ ¬ product bs ∣ a.toInt ∧ ∃ x, r = .ok (.float x) := by
  cases hr with
  | overflow hover => exact absurd hover h
  | byZero _ hmem => exact absurd hmem hz
  | exact _ _ hp => exact .inl ⟨Dvd.intro_left _ hp, _, rfl⟩
  | inexact _ _ hd x => exact .inr ⟨hd, x, rfl⟩

end Divided

/-- **Integers divided one after the other have a closed form.**  The result is an overflow exactly if the least integer
meets `-1` behind ones only; otherwise a division by zero exactly if a divisor is zero; otherwise an integer exactly if
the product of the divisors divides the first operand, and then the exact quotient; and otherwise a float. -/
theorem run_divide_chain [Named ε] (a b : Integer) (bs : List Integer) :
    let result := Operator.divide.run (operands (ε := ε) (a :: b :: bs))
    (result = .error (.overflow .divide) ↔ Overflows a (b :: bs)) ∧
    (¬ Overflows a (b :: bs) →
      (result = .error .divisionByZero ↔ 0 ∈ b :: bs) ∧
      (0 ∉ b :: bs →
        ((∃ q, result = .ok (.num (.int q))) ↔ product (b :: bs) ∣ a.toInt) ∧
        (∀ q, result = .ok (.num (.int q)) ↔ q.toInt * product (b :: bs) = a.toInt) ∧
        (¬ product (b :: bs) ∣ a.toInt → ∃ x, result = .ok (.num (.float x))))) := by
  intro result
  have hdivided := divided_foldFrom (ε := ε) (b :: bs) a
  have hresult : result = (Operator.foldFrom Number.div (.int a) (operands (ε := ε) (b :: bs))).map .num := rfl
  simp only [hresult, Operator.map_num_eq_ok_iff, Operator.map_num_eq_error_iff]
  refine ⟨hdivided.overflow_iff, fun h => ⟨hdivided.divisionByZero_iff h, fun hz => ?_⟩⟩
  refine ⟨?_, fun q => hdivided.int_iff h hz, fun hno => ?_⟩
  · constructor
    · rintro ⟨q, hq⟩
      exact Dvd.intro_left _ ((hdivided.int_iff h hz).1 hq)
    · intro hd
      exact ((hdivided.exists_int_or_float h hz).resolve_right fun hfloat => hfloat.1 hd).2
  · exact ((hdivided.exists_int_or_float h hz).resolve_left fun hint => hno hint.1).2

/-- The overflow comes before a zero behind it; a zero is reported also where a float has been reached. -/
example :
    Operator.divide.run (operands (ε := Empty) [Int64.minValue, 1, -1, 0]) = .error (.overflow .divide) ∧
      Operator.divide.run (operands (ε := Empty) [7, 2, 0]) = .error .divisionByZero :=
  ⟨rfl, rfl⟩

end Integer
end Lisplet
