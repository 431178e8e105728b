import Lisplet.Proofs.Binary64.Rounding
import Lisplet.Proofs.Grammar
/-!
# The text of a number is read as that number

The text of an integer is its sign and its digits.  The text of a finite binary64 number has a point and no exponent; its
digits stand for a decimal, and rounding that decimal gives the number again, whether the decimal is the exact value of an
integral number or the shortest one of any other (`round_shortest`).

The shortest decimal of a number that is not integral has digits behind the point (`exponent_shortest`), so its text is
never taken for an integer.
-/
namespace Lisplet

/-! ## Digits -/

namespace Text

theorem isDigit_of_mem_digits {n : Nat} {c : Char} (h : c ∈ digits n) : isDigit c = true :=
  Nat.isDigit_of_mem_toDigits (by decide) (by decide) h

theorem digits_ne_nil (n : Nat) : digits n ≠ [] :=
  Nat.toDigits_ne_nil

theorem readDigits_eq (start : Nat) (cs : List Char) : readDigits start cs = Nat.ofDigitChars 10 cs start :=
  Nat.ofDigitChars_eq_foldl.symm

theorem ofDigits_digits (n : Nat) : ofDigits (digits n) = n := by
  rw [ofDigits, readDigits_eq]
  exact Nat.ofDigitChars_ten_toDigits

theorem toList_ofNat (n : Nat) : (ofNat n).toList = digits n :=
  String.toList_ofList

theorem readDigits_zeros (k n : Nat) : readDigits n (List.replicate k '0') = 10 ^ k * n := by
  rw [readDigits_eq, Nat.ofDigitChars_replicate_zero]

end Text

/-! ## Decimals -/

namespace Decimal

def value (d : Decimal) : ℚ :=
  d.digits * 10 ^ d.exponent

theorem value_eq (d : Decimal) :
    ((d.digits * 10 ^ d.exponent.toNat : Nat) / (10 ^ (-d.exponent).toNat : Nat) : ℚ) = d.value := by
  rw [value, ← Binary64.pow_toNat_div 10 (by norm_num)]
  push_cast
  ring

theorem round_eq {num den : Nat} {d : Decimal} (negative : Bool) (hd : 0 < den) (h : (num / den : ℚ) = d.value) :
    Binary64.round negative num den = d.round negative :=
  Binary64.round_congr negative hd (Nat.pow_pos (by decide)) (h.trans d.value_eq.symm)

theorem value_trim (d : Decimal) : d.trim.value = d.value := by
  fun_induction trim d with
  | case1 d h ih =>
    rw [ih, value, value, zpow_add₀ (by norm_num), zpow_one]
    have hten : (d.digits : ℚ) = (d.digits / 10 : Nat) * 10 := by
      have hdiv : d.digits = d.digits / 10 * 10 := by omega
      exact_mod_cast hdiv
    rw [hten]
    ring
  | case2 d h => rfl

theorem round_congr {d d' : Decimal} (negative : Bool) (h : d.value = d'.value) :
    d.round negative = d'.round negative :=
  round_eq negative (Nat.pow_pos (by decide)) (d.value_eq.trans h)

end Decimal

/-! ## The shortest decimal -/

namespace Binary64
namespace Finite

variable {x : Finite}

theorem round_withDigits? {count : Nat} {d : Decimal} (h : x.withDigits? count = some d) :
    d.round x.negative = .finite x := by
  -- whichever of the two neighbours is tried first, only one that is hit is given out
  have hit : ∀ near far : Decimal, (if near.round x.negative == .finite x then some near
      else if far.round x.negative == .finite x then some far else none) = some d →
      d.round x.negative = .finite x := by
    intro near far hd
    split at hd
    · next hnear =>
      cases hd
      exact beq_iff_eq.1 hnear
    · split at hd
      · next hfar =>
        cases hd
        exact beq_iff_eq.1 hfar
      · cases hd
  unfold withDigits? at h
  simp only at h
  exact hit _ _ h

theorem value_exact (x : Finite) : x.exact.value = x.mantissa * 2 ^ x.exponent := by
  rw [exact, Decimal.value]
  rcases le_total 0 x.exponent with h | h
  · obtain ⟨k, hk⟩ := Int.eq_ofNat_of_zero_le h
    rw [hk]
    simp
  · obtain ⟨k, hk⟩ := Int.exists_eq_neg_ofNat h
    have hten : (10 : ℚ) ^ k = 2 ^ k * 5 ^ k := by rw [← mul_pow]; norm_num
    rw [hk]
    simp [hten]
    field_simp

theorem round_exact (x : Finite) : x.exact.round x.negative = .finite x := by
  rw [← Decimal.round_eq x.negative x.denominator_pos (x.value_eq.trans x.value_exact.symm)]
  exact x.round_self

/-- **The shortest decimal of a number rounds to the number.** -/
theorem round_shortest (x : Finite) : x.shortest.round x.negative = .finite x := by
  unfold shortest
  split
  · next h =>
    rw [eq_zero_of_mantissa h]
    rfl
  · rw [Decimal.round_congr x.negative (Decimal.value_trim _)]
    cases hfound : (List.range 17).findSome? fun i => x.withDigits? (i + 1) with
    | none => exact x.round_exact
    | some d =>
      obtain ⟨i, _, hd⟩ := List.exists_of_findSome?_eq_some hfound
      exact round_withDigits? hd

theorem exponent_shortest (h : x.isIntegral = false) : x.shortest.exponent < 0 := by
  by_contra hge
  have hzero : (-x.shortest.exponent).toNat = 0 := by omega
  have hround := x.round_shortest
  rw [Decimal.round, hzero, Nat.pow_zero] at hround
  rw [isIntegral_of_round_nat hround] at h
  cases h

/-! ## Texts -/

theorem sign_spelled (x : Finite) : Literal.Sign x.negative x.sign.toList := by
  unfold sign
  cases x.negative with
  | false => exact .absent
  | true => exact .minus

end Finite
end Binary64

theorem Decimal.positional_eq {d : Decimal} (h : d.exponent < 0) :
    ∃ whole fraction : List Char, d.positional.toList = whole ++ '.' :: fraction ∧
      (∀ c ∈ whole ++ fraction, Text.isDigit c = true) ∧ whole ++ fraction ≠ [] ∧
      Text.ofDigits (whole ++ fraction) = d.digits ∧ fraction.length = (-d.exponent).toNat := by
  have hds : ∀ c ∈ Text.digits d.digits, Text.isDigit c = true := fun c hc => Text.isDigit_of_mem_digits hc
  have hpoint : d.point = (Text.digits d.digits).length + d.exponent := rfl
  unfold positional
  simp only
  rw [if_neg (by omega)]
  split
  · next hpos =>
    refine ⟨(Text.digits d.digits).take d.point.toNat, (Text.digits d.digits).drop d.point.toNat,
      String.toList_ofList, ?_⟩
    rw [List.take_append_drop]
    refine ⟨hds, Text.digits_ne_nil _, Text.ofDigits_digits _, ?_⟩
    rw [List.length_drop]
    omega
  · next hpos =>
    refine ⟨['0'], List.replicate (-d.point).toNat '0' ++ Text.digits d.digits, String.toList_ofList, ?_,
      List.cons_ne_nil _ _, ?_, ?_⟩
    · intro c hc
      rw [List.singleton_append, ← List.cons_append, ← List.replicate_succ, List.mem_append] at hc
      rcases hc with hc | hc
      · rw [List.eq_of_mem_replicate hc]
        decide
      · exact hds c hc
    · rw [List.singleton_append, ← List.cons_append, ← List.replicate_succ, Text.ofDigits, Text.readDigits_append,
        Text.readDigits_zeros, Nat.mul_zero]
      exact Text.ofDigits_digits _
    · rw [List.length_append, List.length_replicate]
      omega

namespace Denotes

theorem integer_text (n : Integer) : Denotes (Number.int n).text (.num (.int n)) := by
  have hd : ∀ c ∈ Text.digits n.toInt.natAbs, Text.isDigit c = true := fun c hc => Text.isDigit_of_mem_digits hc
  have hne := Text.digits_ne_nil n.toInt.natAbs
  rw [Number.text, Text.ofInt]
  split
  · next hneg =>
    have hs : Literal.Spells ("-" ++ Text.ofNat n.toInt.natAbs).toList
        (.integer true (Text.digits n.toInt.natAbs)) := by
      rw [String.toList_append, Text.toList_ofNat]
      exact .integer .minus hd hne
    refine .integer hs ?_
    rw [Text.ofDigits_digits, Literal.signed, if_pos rfl]
    omega
  · next hpos =>
    have hs : Literal.Spells (Text.ofNat n.toInt.natAbs).toList (.integer false (Text.digits n.toInt.natAbs)) := by
      rw [Text.toList_ofNat]
      exact .integer .absent hd hne
    refine .integer hs ?_
    rw [Text.ofDigits_digits, Literal.signed, if_neg Bool.false_ne_true]
    omega

theorem integral_text {x : Binary64.Finite} (h : x.isIntegral = true) :
    Denotes (x.sign ++ (Text.ofNat (x.numerator / x.denominator) ++ ".0")) (.num (.float (.finite x))) := by
  obtain ⟨n, hn⟩ : x.denominator ∣ x.numerator := Nat.dvd_of_mod_eq_zero (beq_iff_eq.1 h)
  have hdiv : x.numerator / x.denominator = n := by rw [hn, Nat.mul_div_cancel_left _ x.denominator_pos]
  have hs : Literal.Spells (x.sign ++ (Text.ofNat n ++ ".0")).toList (.decimal x.negative (Text.digits n) ['0']) := by
    rw [String.toList_append, String.toList_append, Text.toList_ofNat]
    refine .decimal x.sign_spelled (fun c hc => Text.isDigit_of_mem_digits hc) (fun c hc => ?_) ?_
    · rw [List.mem_singleton.1 hc]
      decide
    · exact List.append_ne_nil_of_right_ne_nil _ (List.cons_ne_nil _ _)
  have hdigits : Text.ofDigits (Text.digits n ++ ['0']) = 10 ^ 1 * n := by
    rw [Text.ofDigits, Text.readDigits_append, ← Text.ofDigits, Text.ofDigits_digits]
    exact Text.readDigits_zeros 1 n
  rw [hdiv]
  refine .decimal hs ?_
  calc Binary64.round x.negative (Text.ofDigits (Text.digits n ++ ['0'])) (10 ^ 1)
      = Binary64.round x.negative (10 ^ 1 * n) (10 ^ 1) := by rw [hdigits]
    _ = Binary64.round x.negative n 1 := Binary64.round_mul_self x.negative (by decide) n
    _ = Binary64.round x.negative (x.denominator * n) x.denominator :=
      (Binary64.round_mul_self x.negative x.denominator_pos n).symm
    _ = .finite x := by rw [← hn, x.round_self]

theorem fractional_text {x : Binary64.Finite} (h : x.isIntegral = false) :
    Denotes (x.sign ++ x.shortest.positional) (.num (.float (.finite x))) := by
  have hneg := Binary64.Finite.exponent_shortest h
  obtain ⟨whole, fraction, htext, hdigits, hne, hvalue, hlen⟩ := Decimal.positional_eq hneg
  have hs : Literal.Spells (x.sign ++ x.shortest.positional).toList (.decimal x.negative whole fraction) := by
    rw [String.toList_append, htext]
    exact .decimal x.sign_spelled (fun c hc => hdigits c (List.mem_append_left _ hc))
      (fun c hc => hdigits c (List.mem_append_right _ hc)) hne
  have hexp : x.shortest.exponent.toNat = 0 := by omega
  have hround := x.round_shortest
  rw [Decimal.round, hexp, Nat.pow_zero, Nat.mul_one] at hround
  refine .decimal hs ?_
  rw [hvalue, hlen]
  exact hround

theorem float_text (x : Binary64.Finite) : Denotes (Number.float (.finite x)).text (.num (.float (.finite x))) := by
  rw [Number.text, Binary64.text, Binary64.Finite.text]
  cases h : x.isIntegral with
  | true => exact integral_text h
  | false => exact fractional_text h

end Denotes
end Lisplet
