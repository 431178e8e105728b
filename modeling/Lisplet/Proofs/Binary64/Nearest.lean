import Lisplet.Proofs.Binary64.Rounding
import Mathlib.Tactic.Linarith
/-!
# Rounding is correct

A fraction below the midpoint between the largest finite number and the next power of two is rounded to the number of
the format that is nearest to it, and where two are equally near to the one with the even mantissa (`IsNearest`).  From
that midpoint on it is rounded to an infinity.

The argument is made in units of the last place.  There rounding takes the nearest natural number (`NearestNat`),
numbers of the format that are larger are natural numbers too, and smaller ones are further away than the natural number
at which the mantissa is shortest (`Rounded.closest`).  A carry changes the spelling of the result and not its value.
-/
namespace Lisplet
namespace Binary64

/-! ## The nearest natural number -/

/-- The natural number `m` is nearest to `s`, and even if it is not the only one. -/
structure NearestNat (s : ℚ) (m : Nat) : Prop where
  half : |s - m| ≤ 1 / 2
  even : |s - m| = 1 / 2 → m % 2 = 0

namespace NearestNat

variable {s : ℚ} {m n : Nat}

theorem of_lt (h : |s - m| < 1 / 2) : NearestNat s m :=
  ⟨h.le, fun he => absurd he h.ne⟩

theorem one_le_add (s : ℚ) (h : n ≠ m) : 1 ≤ |s - m| + |s - n| := by
  have hone : (1 : ℚ) ≤ |(n : ℚ) - m| := by
    have hint : (1 : Int) ≤ |(n : Int) - m| := Int.one_le_abs (by omega)
    exact_mod_cast hint
  calc (1 : ℚ) ≤ |(n : ℚ) - m| := hone
    _ = |(s - m) - (s - n)| := by ring_nf
    _ ≤ |s - m| + |s - n| := abs_sub _ _

theorem closest (h : NearestNat s m) (n : Nat) : |s - m| ≤ |s - n| := by
  by_cases hn : n = m
  · rw [hn]
  · have hsum := one_le_add s hn
    have hhalf := h.half
    linarith

theorem even_of_tie (h : NearestNat s m) (ht : |s - n| = |s - m|) (hn : n ≠ m) : m % 2 = 0 := by
  have hsum := one_le_add s hn
  have hhalf := h.half
  exact h.even (by linarith)

end NearestNat

theorem nearestNat_nearest (num : Nat) {den : Nat} (hd : 0 < den) : NearestNat (num / den) (nearest num den) := by
  have hden : (0 : ℚ) < den := by exact_mod_cast hd
  have hsum : (num : ℚ) = den * (num / den : Nat) + (num % den : Nat) := by
    exact_mod_cast (Nat.div_add_mod num den).symm
  have hval : (num / den : ℚ) = (num / den : Nat) + ((num % den : Nat) : ℚ) / den := by
    rw [hsum, add_div, mul_div_cancel_left₀ _ hden.ne']
  have hpos : (0 : ℚ) ≤ ((num % den : Nat) : ℚ) / den := by positivity
  have hlt : ((num % den : Nat) : ℚ) / den < 1 := by
    rw [div_lt_one hden]
    exact_mod_cast Nat.mod_lt num hd
  rw [hval]
  unfold nearest
  simp only
  split
  · next h =>
    have hf : ((num % den : Nat) : ℚ) / den < 1 / 2 := by
      rw [div_lt_div_iff₀ hden two_pos, one_mul, mul_comm]
      exact_mod_cast h
    refine .of_lt ?_
    rw [add_sub_cancel_left, abs_of_nonneg hpos]
    exact hf
  · split
    · next h =>
      have hf : 1 / 2 < ((num % den : Nat) : ℚ) / den := by
        rw [div_lt_div_iff₀ two_pos hden, one_mul, mul_comm]
        exact_mod_cast h
      refine .of_lt ?_
      push_cast
      rw [abs_lt]
      constructor
      · linarith
      · linarith
    · have htie : 2 * (num % den) = den := by omega
      have hf : ((num % den : Nat) : ℚ) / den = 1 / 2 := by
        rw [div_eq_div_iff hden.ne' two_ne_zero, one_mul, mul_comm]
        exact_mod_cast htie
      have hdist : |((num / den : Nat) : ℚ) + 1 / 2 - ((num / den + num / den % 2 : Nat) : ℚ)| = 1 / 2 := by
        rcases Nat.mod_two_eq_zero_or_one (num / den) with h0 | h1
        · rw [h0]
          norm_num
        · rw [h1]
          push_cast
          rw [abs_of_neg (by linarith)]
          ring
      rw [hf]
      exact ⟨hdist.le, fun _ => by omega⟩

/-! ## Over the last place -/

namespace Finite

def magnitude (x : Finite) : ℚ :=
  x.mantissa * 2 ^ x.exponent

/-- Over a last place not above its own, a number is a natural number of units. -/
theorem magnitude_div (x : Finite) {e : Int} (he : e ≤ x.exponent) :
    x.magnitude / 2 ^ e = (x.mantissa * 2 ^ (x.exponent - e).toNat : Nat) := by
  obtain ⟨k, hk⟩ : ∃ k : Nat, x.exponent = e + k := ⟨(x.exponent - e).toNat, by omega⟩
  have hpow : (2 : ℚ) ^ e ≠ 0 := (zpow_pos two_pos e).ne'
  rw [magnitude, hk, zpow_add₀ two_ne_zero, add_sub_cancel_left, Int.toNat_natCast, zpow_natCast]
  push_cast
  field_simp

theorem magnitude_div_lt (x : Finite) {e : Int} (he : x.exponent < e) : x.magnitude / 2 ^ e < 2 ^ 52 := by
  have hm : (x.mantissa : ℚ) < 2 ^ 53 := by exact_mod_cast x.canonical.1
  rw [magnitude, div_lt_iff₀ (zpow_pos two_pos e)]
  calc (x.mantissa : ℚ) * 2 ^ x.exponent < 2 ^ 53 * 2 ^ x.exponent :=
        mul_lt_mul_of_pos_right hm (zpow_pos two_pos _)
    _ = 2 ^ 52 * 2 ^ (x.exponent + 1) := by rw [zpow_add_one₀ two_ne_zero]; ring
    _ ≤ 2 ^ 52 * 2 ^ e := by gcongr <;> norm_num; omega

end Finite

/-- **What rounding settles on**: `m` units of the last place `2 ^ e`, the mantissa not yet over its limit.  The last
place is as low as the mantissa allows, down to the format's smallest. -/
structure Rounded (q : ℚ) (m : Nat) (e : Int) : Prop where
  nearest : NearestNat (q / 2 ^ e) m
  bounded : q / 2 ^ e < 2 ^ 53
  low : -1074 ≤ e
  full : -1074 < e → 2 ^ 52 ≤ q / 2 ^ e

theorem scaled_eq (num den : Nat) (e : Int) :
    ((num * 2 ^ (-e).toNat : Nat) : ℚ) / (den * 2 ^ e.toNat : Nat) = num / den / 2 ^ e := by
  rw [← pow_toNat_div 2 two_ne_zero e]
  push_cast
  field_simp

theorem rounded_nearest {num den : Nat} (hn : 0 < num) (hd : 0 < den) :
    Rounded (num / den) (nearest (num * 2 ^ (-lastPlace num den).toNat) (den * 2 ^ (lastPlace num den).toNat))
      (lastPlace num den) := by
  have hq : (0 : ℚ) < num / den := by positivity
  have hplace := lastPlace_eq hn hd
  have hlo : (2 : ℚ) ^ Int.log 2 (num / den : ℚ) ≤ num / den := by exact_mod_cast Int.zpow_log_le_self Nat.one_lt_two hq
  have hhi : (num / den : ℚ) < 2 ^ (Int.log 2 (num / den : ℚ) + 1) := by
    exact_mod_cast Int.lt_zpow_succ_log_self Nat.one_lt_two (num / den : ℚ)
  generalize lastPlace num den = e at hplace
  have hpow : (0 : ℚ) < 2 ^ e := zpow_pos two_pos e
  refine ⟨?_, ?_, by omega, fun he => ?_⟩
  · rw [← scaled_eq]
    exact nearestNat_nearest _ (Nat.mul_pos hd (Nat.two_pow_pos _))
  · rw [div_lt_iff₀ hpow, ← zpow_natCast, ← zpow_add₀ two_ne_zero]
    exact hhi.trans_le (zpow_le_zpow_right₀ one_le_two (by omega))
  · rw [le_div_iff₀ hpow, ← zpow_natCast, ← zpow_add₀ two_ne_zero]
    exact (zpow_le_zpow_right₀ one_le_two (by omega)).trans hlo

namespace Rounded

variable {q : ℚ} {m : Nat} {e : Int}

theorem mantissa_le (h : Rounded q m e) : m ≤ 2 ^ 53 := by
  have hhalf := (abs_le.1 h.nearest.half).1
  have hlt : (m : ℚ) < (2 ^ 53 + 1 : Nat) := by
    push_cast
    linarith [h.bounded]
  have := Nat.cast_lt.1 hlt
  omega

theorem le_mantissa (h : Rounded q m e) (he : -1074 < e) : 2 ^ 52 ≤ m := by
  have hhalf := (abs_le.1 h.nearest.half).2
  have hlt : ((2 ^ 52 : Nat) : ℚ) < (m + 1 : Nat) := by
    push_cast
    linarith [h.full he]
  have := Nat.cast_lt.1 hlt
  omega

/-- **No number of the format is nearer** than `m` units of the last place, and another one is equally near only if `m`
is even. -/
theorem closest (h : Rounded q m e) (y : Finite) :
    |q / 2 ^ e - m| ≤ |q / 2 ^ e - y.magnitude / 2 ^ e| ∧
      (|q / 2 ^ e - y.magnitude / 2 ^ e| = |q / 2 ^ e - m| → y.magnitude / 2 ^ e ≠ m → m % 2 = 0) := by
  by_cases hy : e ≤ y.exponent
  · rw [y.magnitude_div hy]
    refine ⟨h.nearest.closest _, fun ht hne => h.nearest.even_of_tie ht ?_⟩
    exact fun he => hne (by rw [he])
  · -- the last place of `y` is lower, so `y` is below the shortest mantissa over this one
    have he : -1074 < e := by
      have := y.canonical.2.1
      omega
    have hfull := h.full he
    have hsmall := y.magnitude_div_lt (Int.not_le.1 hy)
    have hshort := h.nearest.closest (2 ^ 52)
    rw [Nat.cast_pow, Nat.cast_ofNat, abs_of_nonneg (sub_nonneg.2 hfull)] at hshort
    have hstrict : |q / 2 ^ e - m| < |q / 2 ^ e - y.magnitude / 2 ^ e| := by
      rw [abs_of_nonneg (by linarith : 0 ≤ q / 2 ^ e - y.magnitude / 2 ^ e)]
      linarith
    exact ⟨hstrict.le, fun ht => absurd ht hstrict.ne'⟩

end Rounded

/-! ## Overflow -/

theorem midpoint_eq : (2 : ℚ) ^ 1024 - 2 ^ 970 = (2 ^ 53 - 1 / 2) * 2 ^ (971 : Int) := by
  have h971 : (2 : ℚ) ^ (971 : Int) = 2 * 2 ^ 970 := by
    rw [← pow_succ']
    exact zpow_natCast 2 971
  have h1024 : (2 : ℚ) ^ 1024 = 2 ^ 54 * 2 ^ 970 := by rw [← pow_add]
  rw [h971, h1024]
  generalize (2 : ℚ) ^ 970 = u
  ring

namespace Rounded

variable {q : ℚ} {m : Nat} {e : Int}

/-- The mantissa is carried over its limit from half a unit below it on, since the unit below the limit is odd. -/
theorem carry_iff (h : Rounded q m e) : 2 ^ 53 - 1 / 2 ≤ q / 2 ^ e ↔ m = 2 ^ 53 := by
  obtain ⟨hlow, hhigh⟩ := abs_le.1 h.nearest.half
  constructor
  · intro hs
    have hle := h.mantissa_le
    have hge : ((2 ^ 53 - 1 : Nat) : ℚ) ≤ m := by
      rw [Nat.cast_sub (by decide)]
      push_cast
      linarith
    have hge' := Nat.cast_le.1 hge
    by_cases hm : m = 2 ^ 53
    · exact hm
    · obtain rfl : m = 2 ^ 53 - 1 := by omega
      rw [Nat.cast_sub (by decide)] at hhigh
      push_cast at hhigh
      have heven := h.nearest.even (by
        rw [Nat.cast_sub (by decide), abs_of_nonneg]
        · push_cast
          linarith
        · push_cast
          linarith)
      omega
  · intro hm
    rw [hm] at hlow
    push_cast at hlow
    linarith

/-- **Where the format ends**: at the midpoint the mantissa is carried over its limit for the highest last place. -/
theorem overflow_iff (h : Rounded q m e) :
    (2 : ℚ) ^ 1024 - 2 ^ 970 ≤ q ↔ 971 < e ∨ e = 971 ∧ m = 2 ^ 53 := by
  have hpow : (0 : ℚ) < 2 ^ e := zpow_pos two_pos e
  have hpow' : (0 : ℚ) < 2 ^ (971 : Int) := zpow_pos two_pos 971
  rw [midpoint_eq]
  rcases lt_trichotomy e 971 with he | rfl | he
  · have hq := (div_lt_iff₀ hpow).1 h.bounded
    have hlast : (2 : ℚ) ^ e * 2 ≤ 2 ^ (971 : Int) := by
      rw [← zpow_add_one₀ two_ne_zero]
      exact zpow_le_zpow_right₀ one_le_two (by omega)
    generalize (2 : ℚ) ^ (971 : Int) = u at hlast hpow'
    constructor
    · intro hm
      linarith
    · rintro (hlt | ⟨heq, _⟩)
      · omega
      · omega
  · rw [← le_div_iff₀ hpow, h.carry_iff]
    simp
  · have hq := (le_div_iff₀ hpow).1 (h.full (by omega))
    have hlast : (2 : ℚ) ^ (971 : Int) * 2 ≤ 2 ^ e := by
      rw [← zpow_add_one₀ two_ne_zero]
      exact zpow_le_zpow_right₀ one_le_two (by omega)
    generalize (2 : ℚ) ^ (971 : Int) = u at hlast hpow'
    exact ⟨fun _ => .inl he, fun _ => by linarith⟩

theorem ofParts_eq_infinity (h : Rounded q m e) (negative : Bool) (hq : (2 : ℚ) ^ 1024 - 2 ^ 970 ≤ q) :
    (if m = 2 ^ 53 then ofParts negative (2 ^ 52) (e + 1) else ofParts negative m e) = .infinity negative := by
  have hhigh := h.overflow_iff.1 hq
  split
  · exact dif_neg (fun hc => by
      have := hc.2.2.1
      omega)
  · next hm =>
    refine dif_neg (fun hc => ?_)
    have := hc.2.2.1
    rcases hhigh with he | ⟨_, hm'⟩
    · omega
    · exact hm hm'

theorem exists_ofParts_eq_finite (h : Rounded q m e) (negative : Bool) (hq : q < (2 : ℚ) ^ 1024 - 2 ^ 970) :
    ∃ x : Finite, (if m = 2 ^ 53 then ofParts negative (2 ^ 52) (e + 1) else ofParts negative m e) = .finite x ∧
      x.negative = negative ∧ x.magnitude / 2 ^ e = m ∧ (m % 2 = 0 → x.mantissa % 2 = 0) := by
  have hin := mt h.overflow_iff.2 (not_le.2 hq)
  have hlow := h.low
  have hle := h.mantissa_le
  split
  · next hm =>
    have hc : Canonical (2 ^ 52) (e + 1) := ⟨by decide, by omega, by omega, .inr (Nat.le_refl _)⟩
    refine ⟨⟨negative, 2 ^ 52, e + 1, hc⟩, ofParts_of_canonical negative hc, rfl, ?_, fun _ => by norm_num⟩
    rw [Finite.magnitude_div _ (Int.le_add_one (Int.le_refl e)), hm]
    simp
  · next hm =>
    have hfull : e = -1074 ∨ 2 ^ 52 ≤ m := by
      by_cases he : e = -1074
      · exact .inl he
      · exact .inr (h.le_mantissa (by omega))
    have hc : Canonical m e := ⟨by omega, hlow, by omega, hfull⟩
    refine ⟨⟨negative, m, e, hc⟩, ofParts_of_canonical negative hc, rfl, ?_, id⟩
    rw [Finite.magnitude_div _ (Int.le_refl e)]
    simp

end Rounded

/-! ## Signs -/

def withSign (negative : Bool) (q : ℚ) : ℚ :=
  if negative then -q else q

theorem abs_withSign (negative : Bool) {a : ℚ} (ha : 0 ≤ a) : |withSign negative a| = a := by
  cases negative with
  | false => exact abs_of_nonneg ha
  | true => exact (abs_neg a).trans (abs_of_nonneg ha)

theorem abs_withSign_sub (negative : Bool) (a b : ℚ) : |withSign negative a - withSign negative b| = |a - b| := by
  cases negative with
  | false => rfl
  | true =>
    show |-a - -b| = |a - b|
    rw [neg_sub_neg, abs_sub_comm]

theorem abs_withSign_sub_of_ne {negative negative' : Bool} (h : negative' ≠ negative) {a b : ℚ} (ha : 0 ≤ a)
    (hb : 0 ≤ b) : |withSign negative a - withSign negative' b| = a + b := by
  cases negative with
  | false =>
    obtain rfl : negative' = true := Bool.eq_true_of_not_eq_false h
    show |a - -b| = a + b
    rw [sub_neg_eq_add, abs_of_nonneg (add_nonneg ha hb)]
  | true =>
    obtain rfl : negative' = false := Bool.eq_false_of_not_eq_true h
    show |-a - b| = a + b
    rw [abs_of_nonpos (by linarith)]
    ring

theorem abs_sub_le_withSign (negative negative' : Bool) {a b : ℚ} (ha : 0 ≤ a) (hb : 0 ≤ b) :
    |a - b| ≤ |withSign negative a - withSign negative' b| := by
  by_cases h : negative' = negative
  · rw [h, abs_withSign_sub]
  · rw [abs_withSign_sub_of_ne h ha hb, abs_le]
    constructor
    · linarith
    · linarith

namespace Finite

def value (x : Finite) : ℚ :=
  withSign x.negative x.magnitude

theorem magnitude_nonneg (x : Finite) : 0 ≤ x.magnitude :=
  mul_nonneg (Nat.cast_nonneg _) (zpow_pos two_pos _).le

theorem magnitude_zero (negative : Bool) : (zero negative).magnitude = 0 := by
  rw [magnitude, zero, Nat.cast_zero, zero_mul]

end Finite

/-- **The number of the format nearest to `q`**, and where another one is equally near, the one with the even
mantissa. -/
structure IsNearest (q : ℚ) (x : Finite) : Prop where
  closest : ∀ y : Finite, |q - x.value| ≤ |q - y.value|
  even : ∀ y : Finite, |q - y.value| = |q - x.value| → y.value ≠ x.value → x.mantissa % 2 = 0

/-- What is nearest among absolute values is nearest among all numbers, under the same sign. -/
theorem isNearest_withSign {q : ℚ} {x : Finite} (hq : 0 ≤ q)
    (hc : ∀ y : Finite, |q - x.magnitude| ≤ |q - y.magnitude|)
    (he : ∀ y : Finite, |q - y.magnitude| = |q - x.magnitude| → y.magnitude ≠ x.magnitude → x.mantissa % 2 = 0) :
    IsNearest (withSign x.negative q) x where
  closest y := by
    rw [Finite.value, abs_withSign_sub]
    exact (hc y).trans (abs_sub_le_withSign _ _ hq y.magnitude_nonneg)
  even y ht hne := by
    rw [Finite.value, Finite.value, abs_withSign_sub] at ht
    by_cases hm : y.magnitude = x.magnitude
    · -- the two differ in sign only, which a tie allows for zeros alone
      have hs : y.negative ≠ x.negative := fun hs => hne (by rw [Finite.value, Finite.value, hs, hm])
      have hzero := hc (Finite.zero false)
      rw [abs_withSign_sub_of_ne hs hq y.magnitude_nonneg, hm] at ht
      rw [Finite.magnitude_zero, sub_zero, abs_of_nonneg hq, ← ht] at hzero
      have hx : x.magnitude = 0 := le_antisymm (by linarith) x.magnitude_nonneg
      rw [Finite.value, Finite.value, hm, hx, withSign, withSign, neg_zero, ite_self, ite_self] at hne
      exact absurd rfl hne
    · refine he y (le_antisymm ?_ (hc y)) hm
      rw [← ht]
      exact abs_sub_le_withSign _ _ hq y.magnitude_nonneg

/-! ## Rounding -/

theorem round_of_le (negative : Bool) {num den : Nat} (hd : 0 < den) (hq : (2 : ℚ) ^ 1024 - 2 ^ 970 ≤ num / den) :
    round negative num den = .infinity negative := by
  have hn : num ≠ 0 := by
    rintro rfl
    rw [Nat.cast_zero, zero_div, midpoint_eq] at hq
    have hpow : (0 : ℚ) < 2 ^ (971 : Int) := zpow_pos two_pos 971
    generalize (2 : ℚ) ^ (971 : Int) = u at hq hpow
    linarith
  rw [round, if_neg hn]
  exact (rounded_nearest (Nat.pos_of_ne_zero hn) hd).ofParts_eq_infinity negative hq

/-- **A fraction below the midpoint is rounded to the nearest number of the format.** -/
theorem exists_round_eq_finite (negative : Bool) {num den : Nat} (hd : 0 < den)
    (hq : (num / den : ℚ) < 2 ^ 1024 - 2 ^ 970) :
    ∃ x : Finite, round negative num den = .finite x ∧ x.negative = negative ∧
      IsNearest (withSign negative (num / den)) x := by
  have hnonneg : (0 : ℚ) ≤ num / den := by positivity
  by_cases hn : num = 0
  · subst hn
    refine ⟨Finite.zero negative, rfl, rfl, ?_⟩
    refine isNearest_withSign (x := Finite.zero negative) hnonneg (fun y => ?_) fun _ _ _ => rfl
    rw [Finite.magnitude_zero, Nat.cast_zero, zero_div, sub_zero, abs_zero]
    exact abs_nonneg _
  · have hr := rounded_nearest (Nat.pos_of_ne_zero hn) hd
    obtain ⟨x, hx, hs, hm, heven⟩ := hr.exists_ofParts_eq_finite negative hq
    refine ⟨x, by rw [round, if_neg hn]; exact hx, hs, ?_⟩
    subst hs
    have hpow : (0 : ℚ) < 2 ^ lastPlace num den := zpow_pos two_pos _
    -- distances in units of the last place
    have hdist : ∀ y : Finite, |(num / den : ℚ) - y.magnitude| =
        |num / den / 2 ^ lastPlace num den - y.magnitude / 2 ^ lastPlace num den| * 2 ^ lastPlace num den := by
      intro y
      rw [← sub_div, abs_div, abs_of_pos hpow, div_mul_cancel₀ _ hpow.ne']
    refine isNearest_withSign hnonneg (fun y => ?_) (fun y ht hne => heven ((hr.closest y).2 ?_ ?_))
    · rw [hdist, hdist, hm]
      exact mul_le_mul_of_nonneg_right (hr.closest y).1 hpow.le
    · rw [hdist, hdist, hm] at ht
      exact mul_right_cancel₀ hpow.ne' ht
    · rw [← hm]
      exact fun h => hne ((div_left_inj' hpow.ne').1 h)

end Binary64
end Lisplet
