import Lisplet.Proofs.Whole
/-!
# The same work from another store

Scopes and closures are told apart by the places where a run has put them, and a run that starts from a larger store puts
them further on.  A `Relocation` says how places of the one run correspond to places of the other: what was there before
stands where it stood, and what the runs make stands as far apart as the stores were at the start.  Of what was there
before only a part may be alike in both stores; what is not `seen` is left out.

`Store.Mirrors` relates two stores in this way, and each operation on a store keeps it.  Looking up gives the same value
up to places (`Mirrors.resolve`), and operators do not notice them (`Operator.run_relocate`): closures are equal by
identity, and places that differ differ again after the relocation.
-/
namespace Lisplet

variable {ε : Type}

/-! ## Places -/

/-- The first `base` places stay, the others move on by `gap`. -/
def shifted (base gap i : Nat) : Nat :=
  if i < base then i else i + gap

theorem shifted_of_lt {base gap i : Nat} (h : i < base) : shifted base gap i = i :=
  if_pos h

theorem shifted_of_le {base gap i : Nat} (h : base ≤ i) : shifted base gap i = i + gap :=
  if_neg (Nat.not_lt_of_le h)

theorem shifted_lt_shifted_iff {base gap i j : Nat} : shifted base gap i < shifted base gap j ↔ i < j := by
  unfold shifted
  split <;> split <;> omega

theorem shifted_inj {base gap i j : Nat} : shifted base gap i = shifted base gap j ↔ i = j := by
  unfold shifted
  split <;> split <;> omega

structure Relocation where
  scopes : Nat
  closures : Nat
  scopeGap : Nat
  closureGap : Nat
  /-- The scopes from before that are alike in both stores. -/
  seen : ScopeId → Prop

namespace Relocation

variable (r : Relocation)

def scope : ScopeId → ScopeId :=
  shifted r.scopes r.scopeGap

def closure : Nat → Nat :=
  shifted r.closures r.closureGap

def Covers (i : ScopeId) : Prop :=
  r.seen i ∨ r.scopes ≤ i

theorem scope_lt_scope_iff {i j : ScopeId} : r.scope i < r.scope j ↔ i < j :=
  shifted_lt_shifted_iff

theorem scope_inj {i j : ScopeId} : r.scope i = r.scope j ↔ i = j :=
  shifted_inj

end Relocation

/-! ## Values -/

def Closure.relocate (r : Relocation) (c : Closure) : Closure :=
  { c with id := r.closure c.id, env := r.scope c.env }

@[simp] theorem Closure.body_relocate (r : Relocation) (c : Closure) : (c.relocate r).body = c.body := rfl

namespace Value

def relocate (r : Relocation) : Value ε → Value ε
  | .closure c => .closure (c.relocate r)
  | v => v

def Within (r : Relocation) (v : Value ε) : Prop :=
  v.Standard fun c => r.Covers c.env

variable (r : Relocation)

@[simp] theorem kind_relocate (v : Value ε) : (v.relocate r).kind = v.kind := by
  cases v <;> rfl

@[simp] theorem isTruthy_relocate (v : Value ε) : (v.relocate r).isTruthy = v.isTruthy := by
  cases v <;> rfl

@[simp] theorem number_relocate (v : Value ε) : (v.relocate r).number = v.number := by
  cases v <;> rfl

@[simp] theorem text_relocate [Named ε] (v : Value ε) : (v.relocate r).text = v.text := by
  cases v <;> rfl

theorem alias?_relocate (v : Value ε) : (v.relocate r).alias? = v.alias? := by
  cases v <;> rfl

theorem relocate_beq_relocate [Named ε] (v w : Value ε) : (v.relocate r == w.relocate r) = (v == w) := by
  cases v with
  | closure c =>
    cases w with
    | closure d =>
      show (r.closure c.id == r.closure d.id) = (c.id == d.id)
      rw [Bool.eq_iff_iff, beq_iff_eq, beq_iff_eq]
      exact shifted_inj
    | null | bool | num | symbol | builtin => rfl
  | null | bool | num | symbol | builtin => cases w <;> rfl

end Value

def Callable.relocate (r : Relocation) : Callable ε → Callable ε
  | .closure c => .closure (c.relocate r)
  | .builtin tool => .builtin tool

theorem Value.callable?_relocate (r : Relocation) (v : Value ε) :
    (v.relocate r).callable? = v.callable?.map (Callable.relocate r) := by
  cases v <;> rfl

theorem Operator.run_relocate [Named ε] (r : Relocation) (op : Operator) (args : List (Value ε)) :
    op.run (args.map (Value.relocate r)) = (op.run args).map (Value.relocate r) := by
  rw [run_map (Value.number_relocate r) (Value.relocate_beq_relocate r)]
  cases hrun : op.run args with
  | error e => rfl
  | ok v =>
    rcases run_eq_ok hrun with ⟨n, rfl⟩ | ⟨b, rfl⟩
    · rfl
    · rfl

/-! ## Scopes and stores -/

structure Scope.Mirrors (r : Relocation) (x y : Scope ε) : Prop where
  parent : y.parent = x.parent.map r.scope
  get? : ∀ name, y.get? name = (x.get? name).map (Value.relocate r)
  covered : ∀ p, x.parent = some p → r.Covers p
  within : ∀ name v, x.get? name = some v → v.Within r

/-- **The store `t` has the covered scopes of the store `s` at their new places.** -/
structure Store.Mirrors (r : Relocation) (s t : Store ε) : Prop where
  scopes_le : r.scopes ≤ s.scopes.size
  size_eq : t.scopes.size = s.scopes.size + r.scopeGap
  closures_le : r.closures ≤ s.closures
  closures_eq : t.closures = s.closures + r.closureGap
  scope : ∀ (i : ScopeId) (x : Scope ε), r.Covers i → s.scopes[i]? = some x →
    ∃ y, t.scopes[r.scope i]? = some y ∧ x.Mirrors r y

theorem Scope.Mirrors.define {r : Relocation} {x y : Scope ε} (h : x.Mirrors r y) (name : String) {v : Value ε}
    (hv : v.Within r) : (x.define name v).Mirrors r (y.define name (v.relocate r)) where
  parent := h.parent
  get? other := by
    rw [get?_define, get?_define]
    split
    · rfl
    · exact h.get? other
  covered := h.covered
  within other w hw := by
    rw [get?_define] at hw
    split at hw
    · cases hw
      exact hv
    · exact h.within other w hw

namespace Store.Mirrors

variable {r : Relocation} {s t : Store ε} (h : s.Mirrors r t)

include h

theorem scope_size : r.scope s.scopes.size = t.scopes.size := by
  rw [Relocation.scope, shifted_of_le h.scopes_le, h.size_eq]

theorem closure_closures : r.closure s.closures = t.closures := by
  rw [Relocation.closure, shifted_of_le h.closures_le, h.closures_eq]

theorem scope_none {i : ScopeId} (hi : s.scopes[i]? = none) : t.scopes[r.scope i]? = none := by
  rw [Array.getElem?_eq_none_iff] at hi ⊢
  have hle := h.scopes_le
  have hsize := h.size_eq
  rw [Relocation.scope, shifted_of_le (by omega)]
  omega

/-! ### Looking up -/

theorem find?_bindings {i : ScopeId} (hi : r.Covers i) (name : String) :
    (t.bindings (r.scope i)).find? name = ((s.bindings i).find? name).map (Value.relocate r) := by
  unfold bindings
  cases hs : s.scopes[i]? with
  | none => rw [h.scope_none hs]; rfl
  | some x =>
    obtain ⟨y, hy, hxy⟩ := h.scope i x hi hs
    rw [hy]
    exact hxy.get? name

theorem parent?_none {i : ScopeId} (hi : r.Covers i) (hp : s.parent? i = none) : t.parent? (r.scope i) = none := by
  unfold parent? at hp ⊢
  cases hs : s.scopes[i]? with
  | none => rw [h.scope_none hs]
  | some x =>
    obtain ⟨y, hy, hxy⟩ := h.scope i x hi hs
    simp only [hs] at hp
    simp only [hy, hxy.parent]
    cases hx : x.parent with
    | none => rfl
    | some p =>
      have hlt : ¬ p < i := fun hlt => by simp [hx, hlt] at hp
      have hlt' : ¬ r.scope p < r.scope i := fun hr => hlt (r.scope_lt_scope_iff.1 hr)
      simp [hlt']

theorem parent?_some {i p : ScopeId} {hpi : p < i} (hi : r.Covers i) (hp : s.parent? i = some ⟨p, hpi⟩) :
    t.parent? (r.scope i) = some ⟨r.scope p, r.scope_lt_scope_iff.2 hpi⟩ ∧ r.Covers p := by
  unfold parent? at hp ⊢
  cases hs : s.scopes[i]? with
  | none => simp [hs] at hp
  | some x =>
    obtain ⟨y, hy, hxy⟩ := h.scope i x hi hs
    simp only [hs] at hp
    simp only [hy, hxy.parent]
    cases hx : x.parent with
    | none => simp [hx] at hp
    | some q =>
      simp only [hx] at hp
      split at hp
      · cases hp
        simp [r.scope_lt_scope_iff.2 hpi, hxy.covered p hx]
      · cases hp

theorem get? {env : ScopeId} (henv : r.Covers env) (name : String) :
    t.get? (r.scope env) name = (s.get? env name).map (Value.relocate r) := by
  fun_induction Store.get? s env name with
  | case1 env v hv =>
    rw [Store.get?, h.find?_bindings henv, hv]
    rfl
  | case2 env hv hp =>
    rw [Store.get?, h.find?_bindings henv, hv, h.parent?_none henv hp]
    rfl
  | case3 env hv p hlt hp ih =>
    obtain ⟨hp', hcov⟩ := h.parent?_some henv hp
    rw [Store.get?, h.find?_bindings henv, hv, hp']
    exact ih hcov

theorem within_get? {env : ScopeId} (henv : r.Covers env) {name : String} {v : Value ε}
    (hv : s.get? env name = some v) : v.Within r := by
  fun_induction Store.get? s env name with
  | case1 env w hw =>
    cases hv
    unfold bindings at hw
    cases hs : s.scopes[env]? with
    | none => simp [hs, Bindings.find?] at hw
    | some x =>
      obtain ⟨_, _, hxy⟩ := h.scope env x henv hs
      simp only [hs] at hw
      exact hxy.within name v hw
  | case2 => cases hv
  | case3 env _ p hlt hp ih => exact ih (h.parent?_some henv hp).2 hv

/-- **A name resolves to the same value** in both stores, up to where it stands, or to the same error. -/
theorem resolve {env : ScopeId} (henv : r.Covers env) (name : String) :
    t.resolve (r.scope env) name = (s.resolve env name).map (Value.relocate r) := by
  unfold Store.resolve
  generalize [name] = met
  fun_induction Store.resolveFrom s env met name with
  | case1 met name hget =>
    have hget' : t.get? (r.scope env) name = none := by rw [h.get? henv, hget]; rfl
    rw [resolveFrom_of_none hget']
    rfl
  | case2 met name target hget hmet =>
    have hget' : t.get? (r.scope env) name = some (.symbol target) := by rw [h.get? henv, hget]; rfl
    rw [resolveFrom_of_alias hget', if_pos hmet]
    rfl
  | case3 met name target hget hmet hlt ih =>
    have hget' : t.get? (r.scope env) name = some (.symbol target) := by rw [h.get? henv, hget]; rfl
    rw [resolveFrom_of_alias hget', if_neg hmet]
    exact ih
  | case4 met name v hv hget =>
    have hget' : t.get? (r.scope env) name = some (v.relocate r) := by rw [h.get? henv, hget]; rfl
    rw [resolveFrom_of_value hget' (by rw [Value.alias?_relocate, Value.alias?_eq_none hv])]
    rfl

theorem within_resolve {env : ScopeId} (henv : r.Covers env) {name : String} {v : Value ε}
    (hv : s.resolve env name = .ok v) : v.Within r := by
  rcases s.resolve_cases env name with ⟨n, w, hget, _, hr⟩ | ⟨_, _, hr⟩ | ⟨_, hr⟩
  · cases hr.symm.trans hv
    exact h.within_get? henv hget
  · cases hr.symm.trans hv
  · cases hr.symm.trans hv

/-! ### Changes -/

theorem define (env : ScopeId) (name : String) {v : Value ε} (hv : v.Within r) :
    (s.define env name v).Mirrors r (t.define (r.scope env) name (v.relocate r)) where
  scopes_le := by simpa [Store.define] using h.scopes_le
  size_eq := by simpa [Store.define] using h.size_eq
  closures_le := h.closures_le
  closures_eq := h.closures_eq
  scope i x hi hx := by
    rw [getElem?_define] at hx ⊢
    by_cases he : env = i
    · subst he
      rw [if_pos rfl] at hx ⊢
      obtain ⟨old, hold, rfl⟩ := Option.map_eq_some_iff.1 hx
      obtain ⟨y, hy, hxy⟩ := h.scope env old hi hold
      exact ⟨y.define name (v.relocate r), by rw [hy]; rfl, hxy.define name hv⟩
    · have hne : r.scope env ≠ r.scope i := fun hr => he (r.scope_inj.1 hr)
      rw [if_neg he] at hx
      rw [if_neg hne]
      exact h.scope i x hi hx

theorem newClosure (params : List String) (body : Expr) (env : ScopeId) :
    (s.newClosure params body env).2.Mirrors r (t.newClosure params body (r.scope env)).2 where
  scopes_le := h.scopes_le
  size_eq := h.size_eq
  closures_le := Nat.le_succ_of_le h.closures_le
  closures_eq := by
    have hcount := h.closures_eq
    simp only [Store.newClosure]
    omega
  scope := h.scope

theorem relocate_newClosure (params : List String) (body : Expr) (env : ScopeId) :
    (s.newClosure params body env).1.relocate r = (t.newClosure params body (r.scope env)).1 := by
  simp only [Store.newClosure, Closure.relocate, h.closure_closures]

theorem child {env : ScopeId} (henv : r.Covers env) :
    (s.child env).2.Mirrors r (t.child (r.scope env)).2 where
  scopes_le := by
    have hle := h.scopes_le
    simp only [Store.child, alloc, Array.size_push]
    omega
  size_eq := by
    have hsize := h.size_eq
    simp only [Store.child, alloc, Array.size_push]
    omega
  closures_le := h.closures_le
  closures_eq := h.closures_eq
  scope i x hi hx := by
    rw [getElem?_child] at hx ⊢
    by_cases he : i = s.scopes.size
    · subst he
      rw [if_pos rfl] at hx
      cases hx
      refine ⟨⟨[], some (r.scope env)⟩, by rw [if_pos h.scope_size], rfl, fun _ => rfl, fun p hp => ?_, fun _ _ hv => ?_⟩
      · cases hp
        exact henv
      · cases hv
    · have hne : r.scope i ≠ t.scopes.size := by
        rw [← h.scope_size]
        exact fun hr => he (r.scope_inj.1 hr)
      rw [if_neg he] at hx
      rw [if_neg hne]
      exact h.scope i x hi hx

omit h in
theorem defineAll (env : ScopeId) : ∀ {s t : Store ε} (names : List String) (vs : List (Value ε)), s.Mirrors r t →
    (∀ v ∈ vs, v.Within r) →
    (s.defineAll env (names.zip vs)).Mirrors r
      (t.defineAll (r.scope env) (names.zip (vs.map (Value.relocate r))))
  | _, _, [], _, h, _ => h
  | _, _, _ :: _, [], h, _ => h
  | _, _, name :: names, v :: vs, h, hvs => by
    have hfirst := h.define env name (hvs v List.mem_cons_self)
    exact defineAll env names vs hfirst fun w hw => hvs w (List.mem_cons_of_mem _ hw)

end Store.Mirrors
end Lisplet
