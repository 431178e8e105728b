import Lisplet.Proofs.Comparison
import Mathlib.Data.List.Chain
/-!
# Equal neighbours

Equality compares neighbours only.  Values are equal if they show the same face (`face?`), where an integer shows the
float that it converts to, and if two integers are the same integer besides (`Value.beq_iff`).  The second condition
keeps equality from being transitive: past `2 ^ 53` two different integers can convert to one float, which is then equal
to both.

So neighbours that are equal are all of the same face, and two operands among them differ only if they are such
integers.  Unless an operand is equal to two different integers (`Conflates`), all neighbours are equal exactly if all
pairs are, and the order of the operands does not matter.
-/
namespace Lisplet

open Binary64 (Line)

variable {ε : Type}

namespace Number

/-- **Numbers are equal if the floats that they convert to are**, and the same integer if they are integers. -/
theorem equal_iff {x y : Number} : x.equal y = true ↔
    x.toBinary64.equal y.toBinary64 = true ∧ ∀ a b, x = .int a → y = .int b → a = b := by
  cases x with
  | int a =>
    cases y with
    | int b =>
      have hplace : (int a).toBinary64.place? ≠ none := by simp [place?_toBinary64_eq_none_iff]
      rw [equal, beq_iff_eq]
      constructor
      · rintro rfl
        refine ⟨Binary64.equal_iff.2 ⟨rfl, hplace⟩, fun a' b' ha hb => ?_⟩
        rw [← int.inj ha, ← int.inj hb]
      · intro h
        exact h.2 a b rfl rfl
    | float y => simp [equal]
  | float x => simp [equal]

end Number

namespace Value

/-- **What equality sees of a value**, an integer taken for the float that it converts to. -/
inductive Face where
  | null
  | bool (b : Bool)
  | number (place : Line)
  | symbol (name : String)
  | closure (id : Nat)
  | builtin (name : String)

variable [Named ε]

def face? : Value ε → Option Face
  | .null => some .null
  | .bool b => some (.bool b)
  | .num n => n.toBinary64.place?.map .number
  | .symbol name => some (.symbol name)
  | .closure c => some (.closure c.id)
  | .builtin tool => some (.builtin tool.name)

def SameFace (u v : Value ε) : Prop :=
  u.face? = v.face? ∧ u.face? ≠ none

def SameInteger (u v : Value ε) : Prop :=
  ∀ a b, u = .num (.int a) → v = .num (.int b) → a = b

def ConvertAlike (u v : Value ε) : Prop :=
  ∃ a b : Integer, u = .num (.int a) ∧ v = .num (.int b) ∧ (Binary64.ofInt a.toInt).equal (.ofInt b.toInt) = true

variable {u v w : Value ε}

theorem SameFace.symm (h : SameFace u v) : SameFace v u :=
  ⟨h.1.symm, h.1 ▸ h.2⟩

theorem SameFace.trans (huv : SameFace u v) (hvw : SameFace v w) : SameFace u w :=
  ⟨huv.1.trans hvw.1, huv.2⟩

instance : Trans (SameFace (ε := ε)) SameFace SameFace where
  trans := SameFace.trans

theorem sameFace_num_iff {x y : Number} :
    SameFace (.num x : Value ε) (.num y) ↔ x.toBinary64.equal y.toBinary64 = true := by
  have hinj : Function.Injective (Option.map Face.number) := Option.map_injective fun _ _ h => Face.number.inj h
  rw [SameFace, face?, face?, hinj.eq_iff, Ne, Option.map_eq_none_iff, Binary64.equal_iff]

/-- **Values are equal if they show the same face**, and are the same integer if they are integers. -/
theorem beq_iff : (u == v) = true ↔ SameFace u v ∧ SameInteger u v := by
  show equal u v = true ↔ _
  cases u with
  | num x =>
    cases v with
    | num y =>
      rw [equal, Number.equal_iff, sameFace_num_iff]
      simp [SameInteger]
    | null | bool | symbol | closure | builtin => simp [equal, SameFace, face?]
  | null | bool | symbol | closure | builtin =>
    cases v <;> simp [equal, SameFace, SameInteger, face?]

theorem beq_symm (h : (u == v) = true) : (v == u) = true := by
  obtain ⟨hface, hint⟩ := beq_iff.1 h
  exact beq_iff.2 ⟨hface.symm, fun a b hv hu => (hint b a hu hv).symm⟩

theorem SameFace.beq_or_convertAlike (h : SameFace u v) : (u == v) = true ∨ ConvertAlike u v := by
  by_cases hint : SameInteger u v
  · exact .inl (beq_iff.2 ⟨h, hint⟩)
  · simp only [SameInteger, not_forall] at hint
    obtain ⟨a, b, rfl, rfl, -⟩ := hint
    exact .inr ⟨a, b, rfl, rfl, sameFace_num_iff.1 h⟩

end Value

namespace Operator

variable [Named ε] {args : List (Value ε)}

/-- **An operand is equal to two different integers among the operands**, which only a float can be. -/
def Conflates (args : List (Value ε)) : Prop :=
  ∃ v ∈ args, ∃ a b : Integer, .num (.int a) ∈ args ∧ .num (.int b) ∈ args ∧ a ≠ b ∧
    (v == .num (.int a)) = true ∧ (v == .num (.int b)) = true

theorem chained_iff : ∀ args : List (Value ε), chained args = true ↔ args.IsChain fun u v => (u == v) = true
  | [] | [_] => by simp [chained]
  | a :: b :: rest => by rw [chained, Bool.and_eq_true, chained_iff (b :: rest), List.isChain_cons_cons]

/-- **Equal neighbours all show the same face**, so that two operands differ only as integers that convert alike. -/
theorem pairwise_of_chained (h : chained args = true) :
    args.Pairwise fun u v => (u == v) = true ∨ u.ConvertAlike v := by
  have hfaces : args.IsChain Value.SameFace := ((chained_iff args).1 h).imp fun u v huv => (Value.beq_iff.1 huv).1
  exact (List.isChain_iff_pairwise.1 hfaces).imp fun huv => huv.beq_or_convertAlike

theorem beq_trans_of_not_conflates (hc : ¬ Conflates args) {u v w : Value ε} (hu : u ∈ args) (hv : v ∈ args)
    (hw : w ∈ args) (huv : (u == v) = true) (hvw : (v == w) = true) : (u == w) = true := by
  refine Value.beq_iff.2 ⟨(Value.beq_iff.1 huv).1.trans (Value.beq_iff.1 hvw).1, ?_⟩
  rintro a b rfl rfl
  by_contra hab
  exact hc ⟨v, hv, a, b, hu, hw, hab, Value.beq_symm huv, hvw⟩

theorem chained_iff_pairwise (hc : ¬ Conflates args) :
    chained args = true ↔ args.Pairwise fun u v => (u == v) = true := by
  rw [chained_iff]
  constructor
  · intro h
    -- equality is transitive among the operands only, so they are carried along
    let R (u v : Value ε) : Prop := u ∈ args ∧ v ∈ args ∧ (u == v) = true
    have htrans : Trans R R R := by
      refine ⟨?_⟩
      rintro u v w ⟨hu, hv, huv⟩ ⟨-, hw, hvw⟩
      exact ⟨hu, hw, beq_trans_of_not_conflates hc hu hv hw huv hvw⟩
    have hR : args.IsChain R := h.imp_of_mem_imp fun u v hu hv huv => ⟨hu, hv, huv⟩
    exact (List.isChain_iff_pairwise.1 hR).imp fun huv => huv.2.2
  · exact List.Pairwise.isChain

theorem conflates_perm {others : List (Value ε)} (hperm : args.Perm others) : Conflates args ↔ Conflates others := by
  simp only [Conflates, hperm.mem_iff]

theorem run_equal (hlen : 2 ≤ args.length) : Operator.equal.run args = .ok (.bool (chained args)) := by
  match args, hlen with
  | _ :: _ :: _, _ => rfl

/-- **What the answer of equality says of all pairs.**  Two operands or more always have an answer.  It is true if every
two of them are equal; and if it is true, every two are equal or integers that convert to equal floats.  Unless an
operand is equal to two different integers, it is true exactly if every two operands are equal, in whatever order they
stand. -/
theorem run_equal_pairwise (args : List (Value ε)) (hlen : 2 ≤ args.length) :
    ∃ answer, Operator.equal.run args = .ok (.bool answer) ∧
      (args.Pairwise (fun u v => (u == v) = true) → answer = true) ∧
      (answer = true → args.Pairwise fun u v => (u == v) = true ∨ u.ConvertAlike v) ∧
      (¬ Conflates args →
        (answer = true ↔ args.Pairwise fun u v => (u == v) = true) ∧
        ∀ others, args.Perm others → Operator.equal.run others = .ok (.bool answer)) := by
  refine ⟨chained args, run_equal hlen, fun h => (chained_iff args).2 h.isChain, pairwise_of_chained, fun hc => ?_⟩
  refine ⟨chained_iff_pairwise hc, fun others hperm => ?_⟩
  have hc' : ¬ Conflates others := mt (conflates_perm hperm).2 hc
  have hsame : chained others = chained args := by
    rw [Bool.eq_iff_iff, chained_iff_pairwise hc, chained_iff_pairwise hc']
    exact (hperm.pairwise_iff Value.beq_symm).symm
  rw [run_equal (hperm.length_eq ▸ hlen), hsame]

/-- An integer that is rounded by its conversion, on both sides of the float that it converts to: the operands are equal
in any order. -/
theorem run_equal_pairwise_rounded :
    let large : Value Empty := .num (.int 9007199254740993)
    let float : Value Empty := .num (.float (.ofInt 9007199254740992))
    ¬ Conflates [large, float, large] ∧
      ∀ others, [large, float, large].Perm others → Operator.equal.run others = .ok (.bool true) := by
  intro large float
  have hc : ¬ Conflates [large, float, large] := by
    rintro ⟨-, -, a, b, ha, hb, hab, -⟩
    have hint : ∀ n : Integer, .num (.int n) ∈ [large, float, large] → n = 9007199254740993 := by simp [large, float]
    exact hab ((hint a ha).trans (hint b hb).symm)
  obtain ⟨answer, hrun, -, -, h⟩ := run_equal_pairwise [large, float, large] (by simp)
  have htrue : Operator.equal.run [large, float, large] = .ok (.bool true) := rfl
  cases htrue.symm.trans hrun
  exact ⟨hc, (h hc).2⟩

/-- **Equal neighbours are not always equal pairs**: a float stands between two different integers that both convert to
it, and in another order the answer is another one. -/
theorem run_equal_neighbours :
    let small : Value Empty := .num (.int 9007199254740992)
    let float : Value Empty := .num (.float (.ofInt 9007199254740992))
    let large : Value Empty := .num (.int 9007199254740993)
    (∀ v ∈ [small, float, large], v ≠ .num (.float .nan)) ∧
      Operator.equal.run [small, float, large] = .ok (.bool true) ∧
      ¬ [small, float, large].Pairwise (fun u v => (u == v) = true) ∧
      Operator.equal.run [small, large, float] = .ok (.bool false) := by
  intro small float large
  refine ⟨?_, rfl, ?_, rfl⟩
  · simp [small, float, large, Binary64.ofInt_ne_nan]
  · intro h
    have hends : (small == large) = true := List.rel_of_pairwise_cons h (by simp)
    cases hends

end Operator
end Lisplet
