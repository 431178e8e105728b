import Lisplet.Proofs.Scoping
/-!
# The lineage of a scope

In a sound store the parent links lead from every scope to a root in finitely many steps.  The search for a name and the
count of scopes stop where a parent would not be older than its child; in a sound store that never happens before the
root (`lineage_chain`), so the one looks at the whole lineage and the other counts all of it.
-/
namespace Lisplet

variable {ε : Type}

namespace Store

variable {s : Store ε} {i : ScopeId}

def IsRoot (s : Store ε) (i : ScopeId) : Prop :=
  ∃ scope, s.scopes[i]? = some scope ∧ scope.parent = none

theorem not_isRoot_of_inner (h : s.Inner i) : ¬ s.IsRoot i := by
  obtain ⟨scope, p, hs, hp⟩ := h
  rintro ⟨scope', hs', hroot⟩
  cases hs.symm.trans hs'
  cases hroot.symm.trans hp

/-- **The lineage of a scope**: the scope, its parent, and so on to the root. -/
inductive Lineage (s : Store ε) : ScopeId → List ScopeId → Prop where
  | root {i : ScopeId} {scope : Scope ε} (hs : s.scopes[i]? = some scope) (hp : scope.parent = none) : Lineage s i [i]
  | child {i p : ScopeId} {scope : Scope ε} {path : List ScopeId} (hs : s.scopes[i]? = some scope)
    (hp : scope.parent = some p) (h : Lineage s p path) : Lineage s i (i :: path)

theorem Lineage.ne_nil {path : List ScopeId} (h : s.Lineage i path) : path ≠ [] := by
  cases h <;> exact List.cons_ne_nil _ _

/-- **A lineage ends in its only root.** -/
theorem Lineage.exists_root {path : List ScopeId} (h : s.Lineage i path) :
    ∃ root, path.getLast? = some root ∧ s.IsRoot root ∧ ∀ j ∈ path, s.IsRoot j → j = root := by
  induction h with
  | @root i scope hs hp => exact ⟨i, rfl, ⟨scope, hs, hp⟩, fun j hj _ => List.mem_singleton.1 hj⟩
  | @child i p scope path hs hp h ih =>
    obtain ⟨root, hlast, hroot, honly⟩ := ih
    refine ⟨root, ?_, hroot, fun j hj hr => ?_⟩
    · obtain ⟨q, rest, rfl⟩ := List.exists_cons_of_ne_nil h.ne_nil
      rw [List.getLast?_cons_cons]
      exact hlast
    · rcases List.mem_cons.1 hj with rfl | hj
      · exact absurd hr (not_isRoot_of_inner ⟨scope, p, hs, hp⟩)
      · exact honly j hj hr

theorem parent?_of_root {scope : Scope ε} (hs : s.scopes[i]? = some scope) (hp : scope.parent = none) :
    s.parent? i = none := by
  rw [parent?, hs]
  simp only [hp]

theorem Sound.parent?_of_child (h : s.Sound) {scope : Scope ε} {p : ScopeId} (hs : s.scopes[i]? = some scope)
    (hp : scope.parent = some p) : s.parent? i = some ⟨p, h.parent_lt i scope p hs hp⟩ := by
  have hlt := h.parent_lt i scope p hs hp
  rw [parent?, hs]
  simp only [hp, dif_pos hlt]

/-- **In a sound store the search goes through the whole lineage.** -/
theorem Sound.lineage_chain (h : s.Sound) (i : ScopeId) (hi : i < s.scopes.size) : s.Lineage i (s.chain i) := by
  have hs : s.scopes[i]? = some s.scopes[i] := Array.getElem?_eq_getElem hi
  rw [chain]
  cases hp : s.scopes[i].parent with
  | none =>
    rw [parent?_of_root hs hp]
    exact .root hs hp
  | some p =>
    have hlt := h.parent_lt i _ p hs hp
    rw [h.parent?_of_child hs hp]
    exact .child hs hp (h.lineage_chain p (Nat.lt_trans hlt hi))
termination_by i

theorem get?_eq_findSome? (s : Store ε) (env : ScopeId) (name : String) :
    s.get? env name = (s.chain env).findSome? fun i => (s.bindings i).find? name := by
  fun_induction Store.get? s env name with
  | case1 env v hv =>
    rw [chain]
    split <;> rw [List.findSome?_cons, hv]
  | case2 env hv hp => rw [chain, hp, List.findSome?_cons, hv, List.findSome?_nil]
  | case3 env hv p hp hpar ih =>
    rw [chain, hpar, List.findSome?_cons, hv]
    exact ih

theorem Sound.two_le_depth (h : s.Sound) (hi : s.Inner i) : 2 ≤ s.depth i := by
  have hl := h.lineage_chain i hi.lt_size
  rw [depth]
  generalize s.chain i = path at hl ⊢
  cases hl with
  | root hs hp => exact absurd ⟨_, hs, hp⟩ (not_isRoot_of_inner hi)
  | child hs hp hl =>
    have := List.length_pos_iff.2 hl.ne_nil
    rw [List.length_cons]
    omega

end Store
end Lisplet
