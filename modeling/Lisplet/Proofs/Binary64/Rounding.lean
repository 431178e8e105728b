import Lisplet.Binary64.Shortest
import Mathlib.Data.Int.Log
import Mathlib.Data.Rat.Floor
import Mathlib.Tactic.FieldSimp
import Mathlib.Tactic.Positivity
import Mathlib.Tactic.Ring
/-!
# Rounding to binary64

Rounding takes a fraction, and depends on its value only (`round_congr`).  The last place of the result is a matter of the
binary logarithm of the value (`lastPlace_eq`), and the nearest natural number does not change when numerator and
denominator are scaled alike.

A number of the format is its own rounding (`round_self`), and what a natural number rounds to is integral
(`isIntegral_of_round_nat`): below the format's precision nothing is rounded off, and above it the last place is no
fraction.  A natural number beyond the precision leaves the format only if it is very large (`isFinite_round_nat`).
-/
namespace Lisplet
namespace Binary64

/-! ## The value of a fraction -/

theorem pow_toNat_div (b : ℚ) (hb : b ≠ 0) (e : Int) : b ^ e.toNat / b ^ (-e).toNat = b ^ e := by
  rw [← zpow_natCast, ← zpow_natCast, ← zpow_sub₀ hb]
  congr 1
  omega

theorem nearest_mul_left {k : Nat} (hk : 0 < k) (num den : Nat) : nearest (k * num) (k * den) = nearest num den := by
  have hlow : 2 * (k * (num % den)) < k * den ↔ 2 * (num % den) < den := by
    rw [Nat.mul_left_comm]
    exact Nat.mul_lt_mul_left hk
  have hhigh : k * den < 2 * (k * (num % den)) ↔ den < 2 * (num % den) := by
    rw [Nat.mul_left_comm 2]
    exact Nat.mul_lt_mul_left hk
  simp only [nearest, Nat.mul_div_mul_left _ _ hk, Nat.mul_mod_mul_left, hlow, hhigh]

theorem nearest_mul_self (m : Nat) {k : Nat} (hk : 0 < k) : nearest (m * k) k = m := by
  have h := nearest_mul_left hk m 1
  rw [Nat.mul_one, Nat.mul_comm] at h
  rw [h]
  simp [nearest, Nat.mod_one]

theorem log_eq {q : ℚ} {lead : Int} (hq : 0 < q) (hlo : (2 : ℚ) ^ lead ≤ q) (hhi : q < 2 ^ (lead + 1)) :
    Int.log 2 q = lead := by
  have h1 : lead ≤ Int.log 2 q := (Int.zpow_le_iff_le_log Nat.one_lt_two hq).1 (by exact_mod_cast hlo)
  have h2 : Int.log 2 q < lead + 1 := (Int.lt_zpow_iff_log_lt Nat.one_lt_two hq).1 (by exact_mod_cast hhi)
  omega

/-- **The last place of a fraction** is 52 places below its leading one, as far as the format goes. -/
theorem lastPlace_eq {num den : Nat} (hn : 0 < num) (hd : 0 < den) :
    lastPlace num den = max (-1074) (Int.log 2 (num / den : ℚ) - 52) := by
  have hq : (0 : ℚ) < num / den := by positivity
  have hden : (0 : ℚ) < den := by positivity
  have hnlo : (2 : ℚ) ^ num.log2 ≤ num := by exact_mod_cast Nat.log2_self_le (Nat.ne_of_gt hn)
  have hnhi : (num : ℚ) < 2 ^ (num.log2 + 1) := by exact_mod_cast Nat.lt_log2_self
  have hdlo : (2 : ℚ) ^ den.log2 ≤ den := by exact_mod_cast Nat.log2_self_le (Nat.ne_of_gt hd)
  have hdhi : (den : ℚ) < 2 ^ (den.log2 + 1) := by exact_mod_cast Nat.lt_log2_self
  have hsub : ∀ a b : Nat, (2 : ℚ) ^ ((a : Int) - b) = 2 ^ a / 2 ^ b := by
    intro a b
    rw [zpow_sub₀ (by norm_num), zpow_natCast, zpow_natCast]
  rw [lastPlace]
  congr 2
  split
  · next hlt =>
    have hlt' : (num : ℚ) * 2 ^ den.log2 < den * 2 ^ num.log2 := by exact_mod_cast hlt
    refine (log_eq hq ?_ ?_).symm
    · have he : (num.log2 : Int) - den.log2 - 1 = (num.log2 : Int) - (den.log2 + 1 : Nat) := by push_cast; ring
      rw [he, hsub, div_le_div_iff₀ (by positivity) hden]
      calc (2 : ℚ) ^ num.log2 * den ≤ num * den := by gcongr
        _ ≤ num * 2 ^ (den.log2 + 1) := by gcongr
    · rw [sub_add_cancel, hsub, div_lt_div_iff₀ hden (by positivity), mul_comm ((2 : ℚ) ^ num.log2)]
      exact hlt'
  · next hge =>
    have hge' : (den : ℚ) * 2 ^ num.log2 ≤ num * 2 ^ den.log2 := by exact_mod_cast Nat.le_of_not_lt hge
    refine (log_eq hq ?_ ?_).symm
    · rw [hsub, div_le_div_iff₀ (by positivity) hden, mul_comm ((2 : ℚ) ^ num.log2)]
      exact hge'
    · have he : (num.log2 : Int) - den.log2 + 1 = ((num.log2 + 1 : Nat) : Int) - den.log2 := by push_cast; ring
      rw [he, hsub, div_lt_div_iff₀ hden (by positivity)]
      calc (num : ℚ) * 2 ^ den.log2 ≤ num * den := by gcongr
        _ < 2 ^ (num.log2 + 1) * den := by gcongr

theorem round_mul_left (negative : Bool) {k : Nat} (hk : 0 < k) (num : Nat) {den : Nat} (hd : 0 < den) :
    round negative (k * num) (k * den) = round negative num den := by
  by_cases hn : num = 0
  · rw [hn, Nat.mul_zero, round, round, if_pos rfl, if_pos rfl]
  · have hpos := Nat.pos_of_ne_zero hn
    have hplace : lastPlace (k * num) (k * den) = lastPlace num den := by
      rw [lastPlace_eq (Nat.mul_pos hk hpos) (Nat.mul_pos hk hd), lastPlace_eq hpos hd]
      push_cast
      rw [mul_div_mul_left _ _ (by positivity : (k : ℚ) ≠ 0)]
    rw [round, round, if_neg (Nat.ne_of_gt (Nat.mul_pos hk hpos)), if_neg hn]
    simp only [hplace, Nat.mul_assoc, nearest_mul_left hk]

theorem round_mul_self (negative : Bool) {k : Nat} (hk : 0 < k) (n : Nat) :
    round negative (k * n) k = round negative n 1 := by
  have h := round_mul_left negative hk n Nat.one_pos
  rwa [Nat.mul_one] at h

/-- **Rounding depends on the value of the fraction only.** -/
theorem round_congr (negative : Bool) {num den num' den' : Nat} (hd : 0 < den) (hd' : 0 < den')
    (h : (num / den : ℚ) = num' / den') : round negative num den = round negative num' den' := by
  have hcross : den' * num = den * num' := by
    rw [div_eq_div_iff (by positivity) (by positivity)] at h
    have h' : num * den' = num' * den := by exact_mod_cast h
    rw [Nat.mul_comm, h', Nat.mul_comm]
  calc round negative num den = round negative (den' * num) (den' * den) := (round_mul_left negative hd' num hd).symm
    _ = round negative (den * num') (den * den') := by rw [hcross, Nat.mul_comm den' den]
    _ = round negative num' den' := round_mul_left negative hd num' hd'

/-! ## Numbers of the format -/

namespace Finite

theorem denominator_pos (x : Finite) : 0 < x.denominator := by
  unfold denominator
  positivity

theorem value_eq (x : Finite) : (x.numerator / x.denominator : ℚ) = x.mantissa * 2 ^ x.exponent := by
  rw [numerator, denominator, ← pow_toNat_div 2 (by norm_num)]
  push_cast
  ring

theorem eq_zero_of_mantissa {x : Finite} (h : x.mantissa = 0) : x = .zero x.negative := by
  obtain ⟨s, m, e, hc⟩ := x
  have hm : m = 0 := h
  subst hm
  have he : e = -1074 := by
    rcases hc.2.2.2 with he | hlow
    · exact he
    · omega
  subst he
  rfl

theorem lastPlace_self {x : Finite} (h : x.mantissa ≠ 0) : lastPlace x.numerator x.denominator = x.exponent := by
  obtain ⟨hlt, hmin, _, hcan⟩ := x.canonical
  have hm : (0 : ℚ) < x.mantissa := by exact_mod_cast Nat.pos_of_ne_zero h
  have hpow : (0 : ℚ) < 2 ^ x.exponent := zpow_pos (by norm_num) _
  have hn : 0 < x.numerator := Nat.mul_pos (Nat.pos_of_ne_zero h) (Nat.two_pow_pos _)
  have hq : (0 : ℚ) < x.mantissa * 2 ^ x.exponent := mul_pos hm hpow
  have hhi : (x.mantissa : ℚ) * 2 ^ x.exponent < 2 ^ (x.exponent + 53) := by
    have hlt' : (x.mantissa : ℚ) < 2 ^ 53 := by exact_mod_cast hlt
    rw [zpow_add₀ (by norm_num), mul_comm ((2 : ℚ) ^ x.exponent)]
    exact mul_lt_mul_of_pos_right (by exact_mod_cast hlt') hpow
  rw [lastPlace_eq hn x.denominator_pos, value_eq]
  have hlog : Int.log 2 ((x.mantissa : ℚ) * 2 ^ x.exponent) < x.exponent + 53 :=
    (Int.lt_zpow_iff_log_lt Nat.one_lt_two hq).1 (by exact_mod_cast hhi)
  rcases hcan with he | hlow
  · omega
  · have hlo : (2 : ℚ) ^ (x.exponent + 52) ≤ x.mantissa * 2 ^ x.exponent := by
      have hlow' : (2 : ℚ) ^ 52 ≤ x.mantissa := by exact_mod_cast hlow
      rw [zpow_add₀ (by norm_num), mul_comm ((2 : ℚ) ^ x.exponent)]
      exact mul_le_mul_of_nonneg_right (by exact_mod_cast hlow') hpow.le
    have hlog' : x.exponent + 52 ≤ Int.log 2 ((x.mantissa : ℚ) * 2 ^ x.exponent) :=
      (Int.zpow_le_iff_le_log Nat.one_lt_two hq).1 (by exact_mod_cast hlo)
    omega

/-- **A number of the format is its own rounding.** -/
theorem round_self (x : Finite) : round x.negative x.numerator x.denominator = .finite x := by
  by_cases h : x.mantissa = 0
  · have hn : x.numerator = 0 := by rw [numerator, h, Nat.zero_mul]
    rw [hn, round, if_pos rfl, Binary64.zero, ← eq_zero_of_mantissa h]
  · have hn : x.numerator ≠ 0 := by
      unfold numerator
      exact Nat.mul_ne_zero h (by positivity)
    have hm : nearest (x.numerator * 2 ^ (-x.exponent).toNat) (x.denominator * 2 ^ x.exponent.toNat) = x.mantissa := by
      rw [numerator, denominator, Nat.mul_assoc, Nat.mul_comm (2 ^ (-x.exponent).toNat)]
      exact nearest_mul_self x.mantissa (by positivity)
    rw [round, if_neg hn, lastPlace_self h]
    simp only [hm]
    rw [if_neg (Nat.ne_of_lt x.canonical.1), ofParts_of_canonical x.negative x.canonical]

end Finite

/-! ## Natural numbers -/

theorem isIntegral_of_dvd {x : Finite} (h : x.denominator ∣ x.numerator) : x.isIntegral = true := by
  rw [Finite.isIntegral, beq_iff_eq]
  exact Nat.mod_eq_zero_of_dvd h

theorem ofParts_eq_finite {negative : Bool} {m : Nat} {e : Int} {x : Finite}
    (h : ofParts negative m e = .finite x) : x.mantissa = m ∧ x.exponent = e := by
  unfold ofParts at h
  split at h
  · cases h
    exact ⟨rfl, rfl⟩
  · cases h

/-- **What a natural number rounds to is integral.** -/
theorem isIntegral_of_round_nat {negative : Bool} {n : Nat} {x : Finite}
    (h : round negative n 1 = .finite x) : x.isIntegral = true := by
  apply isIntegral_of_dvd
  rw [Finite.numerator, Finite.denominator]
  rw [round] at h
  split at h
  · cases h
    show _ ∣ 0 * _
    rw [Nat.zero_mul]
    exact Nat.dvd_zero _
  · simp only [Nat.one_mul] at h
    generalize lastPlace n 1 = e at h
    by_cases he : 0 ≤ e
    · -- the last place is no fraction, and a carry only raises it
      have hx : (-x.exponent).toNat = 0 := by
        split at h
        · obtain ⟨_, hxe⟩ := ofParts_eq_finite h
          omega
        · obtain ⟨_, hxe⟩ := ofParts_eq_finite h
          omega
      rw [hx, Nat.pow_zero]
      exact Nat.one_dvd _
    · -- nothing is rounded off
      have he0 : e.toNat = 0 := by omega
      have hm : nearest (n * 2 ^ (-e).toNat) (2 ^ e.toNat) = n * 2 ^ (-e).toNat := by
        have hself := nearest_mul_self (n * 2 ^ (-e).toNat) Nat.one_pos
        rwa [Nat.mul_one, ← Nat.pow_zero 2, ← he0] at hself
      rw [hm] at h
      split at h
      · next hc =>
        obtain ⟨hxm, hxe⟩ := ofParts_eq_finite h
        obtain ⟨k, hk⟩ : ∃ k, (-e).toNat = k + 1 := ⟨(-e).toNat - 1, by omega⟩
        have hxk : (-x.exponent).toNat = k := by omega
        rw [hk, Nat.pow_succ, ← Nat.mul_assoc] at hc
        have hc' : n * 2 ^ k = 2 ^ 52 := by omega
        rw [hxm, hxk, ← hc', Nat.mul_assoc, Nat.mul_comm (2 ^ k), ← Nat.mul_assoc]
        exact Nat.dvd_mul_left _ _
      · obtain ⟨hxm, hxe⟩ := ofParts_eq_finite h
        rw [hxm, hxe, Nat.mul_assoc, Nat.mul_comm (2 ^ (-e).toNat), ← Nat.mul_assoc]
        exact Nat.dvd_mul_left _ _

theorem nearest_between (num den : Nat) : num / den ≤ nearest num den ∧ nearest num den ≤ num / den + 1 := by
  unfold nearest
  simp only
  split
  · omega
  · split <;> omega

theorem lastPlace_nat {n : Nat} (hn : n ≠ 0) : lastPlace n 1 = max (-1074) ((n.log2 : Int) - 52) := by
  have hlo := Nat.log2_self_le hn
  have hone : Nat.log2 1 = 0 := by decide
  have hlead : ¬ n * 2 ^ 0 < 1 * 2 ^ n.log2 := by omega
  simp only [lastPlace, hone, if_neg hlead]
  omega

/-- **A natural number with at least the binary digits of a mantissa, and at most 1023, rounds to a finite number.** -/
theorem isFinite_round_nat (negative : Bool) {n : Nat} (hlo : 52 ≤ n.log2) (hhi : n.log2 < 1023) :
    (round negative n 1).isFinite = true := by
  have hn : n ≠ 0 := by
    rintro rfl
    simp at hlo
  obtain ⟨k, hk⟩ : ∃ k, n.log2 = 52 + k := ⟨n.log2 - 52, by omega⟩
  have hplace : lastPlace n 1 = k := by
    rw [lastPlace_nat hn]
    omega
  -- the digits above the last place are as many as a mantissa has
  have hqlo : 2 ^ 52 ≤ n / 2 ^ k := by
    have := Nat.log2_self_le hn
    rw [hk, Nat.pow_add] at this
    rw [Nat.le_div_iff_mul_le (Nat.two_pow_pos k)]
    exact this
  have hqhi : n / 2 ^ k < 2 ^ 53 := by
    have := Nat.lt_log2_self (n := n)
    rw [hk, show 52 + k + 1 = 53 + k by omega, Nat.pow_add] at this
    rw [Nat.div_lt_iff_lt_mul (Nat.two_pow_pos k)]
    exact this
  obtain ⟨hmlo, hmhi⟩ := nearest_between n (2 ^ k)
  rw [round, if_neg hn, hplace]
  simp only [Int.toNat_natCast, Int.toNat_neg_natCast, Nat.pow_zero, Nat.mul_one, Nat.one_mul]
  split
  · rw [ofParts_of_canonical]
    · rfl
    · exact ⟨by decide, by omega, by omega, .inr (Nat.le_refl _)⟩
  · rw [ofParts_of_canonical]
    · rfl
    · exact ⟨by omega, by omega, by omega, .inr (by omega)⟩

end Binary64
end Lisplet
