import Lisplet.Proofs.World
/-!
# What a definition changes

A definition writes one binding into one scope.  Who gets to see it is settled by the way from a scope to its root: the new
binding is found from a scope just if the scope of the definition lies on that way and no scope nearer by binds the name
(`Exposed`).  Every other look-up, from any scope and under any name, finds what it found before.

The way itself is not changed, so that it is the same list that is searched before and after, and the two searches differ
in the one binding only (`findSome?_define_of_exposed`, `findSome?_define_of_not_exposed`).
-/
namespace Lisplet

variable {ε : Type}

namespace Store

def ExposedOn (s : Store ε) (path : List ScopeId) (env : ScopeId) (name : String) : Prop :=
  ∃ nearer farther, path = nearer ++ env :: farther ∧ ∀ i ∈ nearer, (s.bindings i).find? name = none

/-- **A binding of the name in the scope `env` is found from the scope `viewer`**: `env` lies on the way from `viewer` to
its root, and no scope nearer to `viewer` binds the name. -/
def Exposed (s : Store ε) (env : ScopeId) (name : String) (viewer : ScopeId) : Prop :=
  s.ExposedOn (s.chain viewer) env name

variable {s : Store ε} {env : ScopeId}

/-! ## The way to the root -/

theorem parent?_define (s : Store ε) (env : ScopeId) (name : String) (v : Value ε) (i : ScopeId) :
    (s.define env name v).parent? i = s.parent? i := by
  rw [parent?, parent?, getElem?_define]
  by_cases he : env = i
  · rw [if_pos he]
    cases s.scopes[i]? with
    | none => rfl
    | some scope => rfl
  · rw [if_neg he]

theorem chain_of_root {i : ScopeId} (h : s.parent? i = none) : s.chain i = [i] := by
  rw [chain, h]

theorem chain_of_parent {i p : ScopeId} {hp : p < i} (h : s.parent? i = some ⟨p, hp⟩) :
    s.chain i = i :: s.chain p := by
  rw [chain, h]

theorem chain_define (s : Store ε) (env : ScopeId) (name : String) (v : Value ε) (i : ScopeId) :
    (s.define env name v).chain i = s.chain i := by
  induction i using Nat.strongRecOn with
  | ind i ih =>
    rw [chain, chain, parent?_define]
    cases s.parent? i with
    | none => rfl
    | some p => exact congrArg (i :: ·) (ih p.1 p.2)

theorem depth_define (s : Store ε) (env : ScopeId) (name : String) (v : Value ε) (i : ScopeId) :
    (s.define env name v).depth i = s.depth i := by
  rw [depth, depth, chain_define]

/-! ## Bindings -/

theorem bindings_define_of_ne (s : Store ε) {i : ScopeId} (name : String) (v : Value ε) (h : i ≠ env) :
    (s.define env name v).bindings i = s.bindings i := by
  rw [bindings, bindings, getElem?_define_of_ne s name v h]

theorem find?_bindings_define (henv : env < s.scopes.size) (name : String) (v : Value ε) (i : ScopeId) (other : String) :
    ((s.define env name v).bindings i).find? other =
      if i = env ∧ other = name then some v else (s.bindings i).find? other := by
  by_cases hi : i = env
  · subst hi
    have hscope : s.scopes[i]? = some s.scopes[i] := Array.getElem?_eq_getElem henv
    rw [bindings, bindings, getElem?_define, if_pos rfl, hscope]
    simp only [true_and]
    exact s.scopes[i].get?_define name v other
  · rw [bindings_define_of_ne s name v hi, if_neg fun h => hi h.1]

/-! ## Searches -/

theorem exposedOn_cons {i : ScopeId} {path : List ScopeId} {name : String} (h : s.ExposedOn path env name)
    (hi : (s.bindings i).find? name = none) : s.ExposedOn (i :: path) env name := by
  obtain ⟨nearer, farther, rfl, hnearer⟩ := h
  exact ⟨i :: nearer, farther, rfl, List.forall_mem_cons.2 ⟨hi, hnearer⟩⟩

theorem findSome?_define_of_exposed (henv : env < s.scopes.size) {name : String} (v : Value ε) {path : List ScopeId}
    (h : s.ExposedOn path env name) :
    path.findSome? (fun i => ((s.define env name v).bindings i).find? name) = some v := by
  obtain ⟨nearer, farther, rfl, hnearer⟩ := h
  induction nearer with
  | nil =>
    rw [List.nil_append, List.findSome?_cons, find?_bindings_define henv, if_pos ⟨rfl, rfl⟩]
  | cons i nearer ih =>
    obtain ⟨hi, hnearer⟩ := List.forall_mem_cons.1 hnearer
    rw [List.cons_append, List.findSome?_cons, find?_bindings_define henv]
    by_cases he : i = env
    · rw [if_pos ⟨he, rfl⟩]
    · rw [if_neg fun h => he h.1, hi]
      exact ih hnearer

theorem findSome?_define_of_not_exposed (henv : env < s.scopes.size) {name other : String} (v : Value ε) :
    ∀ {path : List ScopeId}, ¬ (other = name ∧ s.ExposedOn path env name) →
      path.findSome? (fun i => ((s.define env name v).bindings i).find? other) =
        path.findSome? (fun i => (s.bindings i).find? other)
  | [], _ => rfl
  | i :: path, h => by
    have hi : ¬ (i = env ∧ other = name) := fun ⟨he, hname⟩ => h ⟨hname, [], path, by rw [he]; rfl, by simp⟩
    rw [List.findSome?_cons, List.findSome?_cons, find?_bindings_define henv, if_neg hi]
    cases hfind : (s.bindings i).find? other with
    | some w => rfl
    | none =>
      -- a binding exposed on the rest of the way would be exposed on the whole of it
      refine findSome?_define_of_not_exposed henv v fun ⟨hname, hpath⟩ => h ⟨hname, exposedOn_cons hpath ?_⟩
      rw [← hname, hfind]

/-- **What is found from a scope after a definition**, where the definition is exposed to it. -/
theorem get?_define_of_exposed (henv : env < s.scopes.size) {name : String} (v : Value ε) {viewer : ScopeId}
    (h : s.Exposed env name viewer) : (s.define env name v).get? viewer name = some v := by
  rw [get?_eq_findSome?, chain_define]
  exact findSome?_define_of_exposed henv v h

theorem get?_define_of_not_exposed (henv : env < s.scopes.size) {name other : String} (v : Value ε) {viewer : ScopeId}
    (h : ¬ (other = name ∧ s.Exposed env name viewer)) :
    (s.define env name v).get? viewer other = s.get? viewer other := by
  rw [get?_eq_findSome?, get?_eq_findSome?, chain_define]
  exact findSome?_define_of_not_exposed henv v h

theorem not_exposed_of_not_mem {name : String} {viewer : ScopeId} (h : env ∉ s.chain viewer) :
    ¬ s.Exposed env name viewer := by
  rintro ⟨nearer, farther, hchain, _⟩
  exact h (by rw [hchain]; simp)

theorem Lineage.define {i : ScopeId} {path : List ScopeId} (h : s.Lineage i path) (env : ScopeId) (name : String)
    (v : Value ε) : (s.define env name v).Lineage i path := by
  have hkept : ∀ (j : ScopeId) (scope : Scope ε), s.scopes[j]? = some scope →
      ∃ scope', (s.define env name v).scopes[j]? = some scope' ∧ scope'.parent = scope.parent := by
    intro j scope hj
    rw [getElem?_define, hj]
    split
    · exact ⟨_, rfl, rfl⟩
    · exact ⟨_, rfl, rfl⟩
  induction h with
  | root hs hp =>
    obtain ⟨scope', hs', hp'⟩ := hkept _ _ hs
    exact .root hs' (hp'.trans hp)
  | child hs hp _ ih =>
    obtain ⟨scope', hs', hp'⟩ := hkept _ _ hs
    exact .child hs' (hp'.trans hp) ih

/-- **What one definition changes**, from the store `s` to the store `t`. -/
structure Redefined (s t : Store ε) (env : ScopeId) (name : String) (v : Value ε) : Prop where
  -- a scope is searched along its lineage, which stays as it is, and the first scope that has the name decides
  lineage : ∀ viewer, viewer < s.scopes.size → s.Lineage viewer (s.chain viewer) ∧ t.Lineage viewer (s.chain viewer)
  first : ∀ viewer other,
    s.get? viewer other = (s.chain viewer).findSome? (fun i => (s.bindings i).find? other) ∧
    t.get? viewer other = (s.chain viewer).findSome? (fun i => (t.bindings i).find? other)
  -- the new binding is found from those to whom it is exposed, and nothing else is found otherwise than before
  found : ∀ viewer, s.Exposed env name viewer → t.get? viewer name = some v
  kept : ∀ viewer other, ¬ (other = name ∧ s.Exposed env name viewer) → t.get? viewer other = s.get? viewer other
  -- in particular nothing is for those who do not lie inside the scope
  outside : ∀ viewer, env ∉ s.chain viewer → ∀ other, t.get? viewer other = s.get? viewer other
  depth : ∀ viewer, t.depth viewer = s.depth viewer
  parent : ∀ i : ScopeId, t.scopes[i]?.map Scope.parent = s.scopes[i]?.map Scope.parent
  own : ∀ other, (t.bindings env).find? other = if other = name then some v else (s.bindings env).find? other
  others : ∀ i : ScopeId, i ≠ env → t.scopes[i]? = s.scopes[i]? ∧ t.snapshot i = s.snapshot i
  -- a root is never the scope of a definition, so the tools there are shadowed at most
  roots : ∀ i : ScopeId, s.IsRoot i → t.scopes[i]? = s.scopes[i]?

theorem parent_define (s : Store ε) (env : ScopeId) (name : String) (v : Value ε) (i : ScopeId) :
    (s.define env name v).scopes[i]?.map Scope.parent = s.scopes[i]?.map Scope.parent := by
  rw [getElem?_define]
  split
  · rw [Option.map_map]
    rfl
  · rfl

end Store

namespace World

variable [Host ε]

/-- **What a definition changes, seen from everywhere.**  Whatever the host did before: after a definition in a scope that
it holds, a look-up finds the new value just if it is for that name and the scope is the first one on the way to the root
that has it; every other look-up, from every scope, finds what it found before.  The host's own scopes are all in the
store, and so the definition is in one of them. -/
theorem redefined_of_reachable (hosts : Host.KeepsScopes ε) {w : World ε} (hw : w.Reachable) {env : ScopeId}
    (henv : env ∈ w.handles) (name : String) (v : Value ε) :
    (∀ viewer ∈ w.handles, viewer < w.session.store.scopes.size) ∧
      w.session.store.Redefined (w.session.store.define env name v) env name v := by
  have hsound := sound_of_reachable hosts hw
  have hin : ∀ viewer ∈ w.handles, viewer < w.session.store.scopes.size :=
    fun viewer hviewer => (hsound.handles viewer hviewer).lt_size
  have hlt := hin env henv
  refine ⟨hin, ⟨fun viewer hviewer => ?_, fun viewer other => ?_, fun viewer h => ?_, fun viewer other h => ?_,
    fun viewer h other => ?_, fun viewer => ?_, fun i => ?_, fun other => ?_, fun i hi => ?_, fun i hi => ?_⟩⟩
  · have hl := hsound.store.lineage_chain viewer hviewer
    exact ⟨hl, hl.define env name v⟩
  · refine ⟨Store.get?_eq_findSome? _ viewer other, ?_⟩
    rw [Store.get?_eq_findSome?, Store.chain_define]
  · exact Store.get?_define_of_exposed hlt v h
  · exact Store.get?_define_of_not_exposed hlt v h
  · exact Store.get?_define_of_not_exposed hlt v fun hother => Store.not_exposed_of_not_mem h hother.2
  · exact Store.depth_define _ env name v viewer
  · exact Store.parent_define _ env name v i
  · rw [Store.find?_bindings_define hlt]
    simp only [true_and]
  · refine ⟨Store.getElem?_define_of_ne _ name v hi, ?_⟩
    rw [Store.snapshot, Store.snapshot, Store.bindings_define_of_ne _ name v hi]
  · have hne : i ≠ env := by
      rintro rfl
      exact Store.not_isRoot_of_inner (hsound.handles i henv) hi
    exact Store.getElem?_define_of_ne _ name v hne

/-- A scope inside another one has a variable of its own, and the outer scope gets one of the same name: the inner scope
goes on seeing its own. -/
theorem redefined_outer :
    ∃ w : World Probe, w.Reachable ∧ 1 ∈ w.handles ∧ 2 ∈ w.handles ∧
      w.session.store.chain 2 = [2, 1, 0] ∧ w.session.store.bindings 2 = [("x", .num (.int 20))] ∧
      w.session.store.Redefined (w.session.store.define 1 "x" (.num (.int 10))) 1 "x" (.num (.int 10)) ∧
      (w.session.store.define 1 "x" (.num (.int 10))).get? 1 "x" = some (.num (.int 10)) ∧
      (w.session.store.define 1 "x" (.num (.int 10))).get? 2 "x" = some (.num (.int 20)) := by
  have hfresh : Reachable _ := .step .empty (.fresh (ε := Probe))
  have hchild := hfresh.step (.child List.mem_cons_self)
  obtain ⟨w, hw, houter, hinner, hchain₁, hchain₂, hbound⟩ : ∃ w : World Probe, w.Reachable ∧ 1 ∈ w.handles ∧
      2 ∈ w.handles ∧ w.session.store.chain 1 = [1, 0] ∧ w.session.store.chain 2 = [2, 1, 0] ∧
      w.session.store.bindings 2 = [("x", .num (.int 20))] :=
    ⟨_, hchild.step (.define (v := .num (.int 20)) "x" List.mem_cons_self (.inr nofun)), by decide, by decide,
      by rw [Store.chain_of_parent (p := 0) rfl, Store.chain_of_root rfl],
      by rw [Store.chain_of_parent (p := 1) rfl, Store.chain_of_parent (p := 0) rfl, Store.chain_of_root rfl], rfl⟩
  obtain ⟨_, hdef⟩ := redefined_of_reachable Probe.keepsScopes hw houter "x" (.num (.int 10))
  have hfind : (w.session.store.bindings 2).find? "x" = some (.num (.int 20)) := by rw [hbound]; rfl
  refine ⟨w, hw, houter, hinner, hchain₂, hbound, hdef, hdef.found 1 ⟨[], [0], hchain₁, by simp⟩, ?_⟩
  rw [(hdef.first 2 "x").2, hchain₂, List.findSome?_cons, Store.bindings_define_of_ne _ _ _ (by decide), hfind]

end World
end Lisplet
