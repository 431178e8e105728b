import Lisplet.Proofs.Binary64.Nearest
import Mathlib.Data.Option.NAry
import Mathlib.Order.WithBot
/-!
# The order of binary64 numbers

Numbers are compared by their mantissas over a common last place, and infinities by a table.  Both come to the order of
the values (`compare?_eq`): a finite number has its exact rational value, the infinities are the two ends of the line,
and a NaN is nowhere on it.  What is wanted of the order or of equality follows from the line's being linear.
-/
namespace Lisplet
namespace Binary64

abbrev Line := WithBot (WithTop ℚ)

namespace Line

def ofRat (q : ℚ) : Line :=
  ((q : WithTop ℚ) : WithBot (WithTop ℚ))

theorem ofRat_strictMono : StrictMono ofRat :=
  WithBot.coe_strictMono.comp WithTop.coe_strictMono

theorem bot_lt_ofRat (q : ℚ) : ⊥ < ofRat q :=
  WithBot.bot_lt_coe _

theorem ofRat_lt_top (q : ℚ) : ofRat q < ⊤ :=
  WithBot.coe_lt_coe.2 (WithTop.coe_lt_top q)

end Line

namespace Finite

theorem scaled_mul (x : Finite) {e : Int} (he : e ≤ x.exponent) : (x.scaled e : ℚ) * 2 ^ e = x.value := by
  have hpow : (2 : ℚ) ^ e ≠ 0 := (zpow_pos two_pos e).ne'
  have hmag : ((x.mantissa * 2 ^ (x.exponent - e).toNat : Nat) : ℚ) * 2 ^ e = x.magnitude := by
    rw [← x.magnitude_div he, div_mul_cancel₀ _ hpow]
  push_cast at hmag
  unfold scaled value withSign
  split
  · push_cast
    rw [neg_mul, hmag]
  · push_cast
    exact hmag

/-- Over a common last place the order of the signed mantissas is that of the values. -/
theorem compare_scaled (x y : Finite) {e : Int} (hx : e ≤ x.exponent) (hy : e ≤ y.exponent) :
    compare (x.scaled e) (y.scaled e) = cmp x.value y.value := by
  have hpow : (0 : ℚ) < 2 ^ e := zpow_pos two_pos e
  have hmono : StrictMono fun k : Int => (k : ℚ) * 2 ^ e := fun i j hij =>
    mul_lt_mul_of_pos_right (Int.cast_lt.2 hij) hpow
  rw [← cmp_eq_compare, ← hmono.cmp_map_eq, x.scaled_mul hx, y.scaled_mul hy]

end Finite

/-- **The place of a number on the line**; a NaN has none. -/
def place? : Binary64 → Option Line
  | .nan => none
  | .infinity s => some (if s then ⊥ else ⊤)
  | .finite x => some (.ofRat x.value)

theorem place?_eq_none_iff {x : Binary64} : x.place? = none ↔ x = .nan := by
  cases x <;> simp [place?]

theorem cmp_ends (s t : Bool) :
    cmp (if s then ⊥ else ⊤ : Line) (if t then ⊥ else ⊤) = if s = t then .eq else if s then .lt else .gt := by
  have hends : (⊥ : Line) < ⊤ := bot_lt_top
  cases s with
  | false =>
    cases t with
    | false => exact cmp_self_eq_eq _
    | true => exact hends.cmp_eq_gt
  | true =>
    cases t with
    | false => exact hends.cmp_eq_lt
    | true => exact cmp_self_eq_eq _

/-- **Numbers compare as their places on the line.** -/
theorem compare?_eq (x y : Binary64) : x.compare? y = Option.map₂ cmp x.place? y.place? := by
  cases x with
  | nan => rfl
  | infinity s =>
    cases y with
    | nan => rfl
    | infinity t => exact congrArg some (cmp_ends s t).symm
    | finite y =>
      have hlow := Line.bot_lt_ofRat y.value
      have hhigh := Line.ofRat_lt_top y.value
      cases s
      · exact congrArg some hhigh.cmp_eq_gt.symm
      · exact congrArg some hlow.cmp_eq_lt.symm
  | finite x =>
    cases y with
    | nan => rfl
    | infinity t =>
      have hlow := Line.bot_lt_ofRat x.value
      have hhigh := Line.ofRat_lt_top x.value
      cases t
      · exact congrArg some hhigh.cmp_eq_lt.symm
      · exact congrArg some hlow.cmp_eq_gt.symm
    | finite y =>
      have hcmp := x.compare_scaled y (Int.min_le_left _ _) (Int.min_le_right _ _)
      exact congrArg some (hcmp.trans (Line.ofRat_strictMono.cmp_map_eq _ _).symm)

theorem equal_iff {x y : Binary64} : x.equal y = true ↔ x.place? = y.place? ∧ x.place? ≠ none := by
  rw [equal, beq_iff_eq, compare?_eq]
  cases x.place? with
  | none =>
    rw [Option.map₂_none_left]
    simp
  | some p =>
    cases y.place? with
    | none =>
      rw [Option.map₂_none_right]
      simp
    | some q =>
      rw [Option.map₂_some_some, Option.some.injEq, cmp_eq_eq_iff]
      simp

/-! ## Conversion -/

theorem ofParts_ne_nan (negative : Bool) (m : Nat) (e : Int) : ofParts negative m e ≠ .nan := by
  unfold ofParts
  split <;> simp

theorem round_ne_nan (negative : Bool) (num den : Nat) : round negative num den ≠ .nan := by
  unfold round
  split
  · simp [zero]
  · simp only
    split <;> exact ofParts_ne_nan _ _ _

theorem ofInt_ne_nan (n : Int) : ofInt n ≠ .nan :=
  round_ne_nan _ _ _

end Binary64
end Lisplet
