import Lisplet.Store.Basic
/-!
# Aliases

A variable may be bound to a symbol, which is an alias: its value is the value of the variable with that name.  `resolve`
follows aliases, always looking up from the scope where it started, until it meets a value that is no alias.  A name met
for the second time is a cycle.

Every alias followed is one of the finitely many that are visible from the scope, and none is followed twice, so the
search ends.
-/
namespace Lisplet

variable {ε : Type}

def Value.alias? : Value ε → Option String
  | .symbol name => some name
  | _ => none

theorem Value.alias?_eq_none {v : Value ε} (h : ∀ target, v ≠ .symbol target) : v.alias? = none := by
  cases v with
  | symbol target => exact absurd rfl (h target)
  | null | bool | num | closure | builtin => rfl

namespace Store

def aliases (s : Store ε) (env : ScopeId) : List String :=
  (s.chain env).flatMap fun scope => (s.bindings scope).filterMap (·.2.alias?)

theorem mem_of_find? {v : Value ε} {name : String} :
    ∀ {bs : Bindings ε}, bs.find? name = some v → ∃ b ∈ bs, b.2 = v
  | b :: rest, h => by
    rw [Bindings.find?] at h
    split at h
    · cases h; exact ⟨b, List.mem_cons_self, rfl⟩
    · obtain ⟨c, hc, rfl⟩ := mem_of_find? h
      exact ⟨c, List.mem_cons_of_mem _ hc, rfl⟩

theorem mem_aliases_of_get? {s : Store ε} {env : ScopeId} {name target : String}
    (h : s.get? env name = some (.symbol target)) : target ∈ s.aliases env := by
  fun_induction Store.get? s env name with
  | case1 env v hv =>
    cases h
    obtain ⟨b, hb, he⟩ := mem_of_find? hv
    refine List.mem_flatMap.2 ⟨env, ?_, List.mem_filterMap.2 ⟨b, hb, by rw [he]; rfl⟩⟩
    rw [Store.chain]; split <;> exact List.mem_cons_self
  | case2 env _ _ => cases h
  | case3 env _ p hp hpar ih =>
    obtain ⟨scope, hs, ht⟩ := List.mem_flatMap.1 (ih h)
    refine List.mem_flatMap.2 ⟨scope, ?_, ht⟩
    rw [Store.chain, hpar]
    exact List.mem_cons_of_mem _ hs

def unseen (s : Store ε) (env : ScopeId) (seen : List String) : List String :=
  (s.aliases env).filter fun name => decide (name ∉ seen)

theorem length_unseen_lt {s : Store ε} {env : ScopeId} {seen : List String} {target : String}
    (ht : target ∈ s.aliases env) (hs : target ∉ seen) :
    (s.unseen env (target :: seen)).length < (s.unseen env seen).length := by
  have hf : s.unseen env (target :: seen) = (s.unseen env seen).filter fun name => decide (name ≠ target) := by
    simp [unseen, List.filter_filter]
  rw [hf, List.length_filter_lt_length_iff_exists]
  exact ⟨target, List.mem_filter.2 ⟨ht, by simpa using hs⟩, by simp⟩

/-- Follows aliases on from `name`; `seen` holds the names already met. -/
def resolveFrom (s : Store ε) (env : ScopeId) (seen : List String) (name : String) : Except Error (Value ε) :=
  match h : s.get? env name with
  | none => .error (.unbound name)
  | some (.symbol target) =>
    if hs : target ∈ seen then .error (.malformed (.aliasCycle target))
    else
      have := length_unseen_lt (mem_aliases_of_get? h) hs
      s.resolveFrom env (target :: seen) target
  | some v => .ok v
termination_by (s.unseen env seen).length

/-- **The value of a variable**, with aliases followed to their end. -/
def resolve (s : Store ε) (env : ScopeId) (name : String) : Except Error (Value ε) :=
  s.resolveFrom env [name] name

/-! ### The search, step by step -/

theorem resolveFrom_of_none {s : Store ε} {env : ScopeId} {name : String} (h : s.get? env name = none)
    (seen : List String) : s.resolveFrom env seen name = .error (.unbound name) := by
  rw [resolveFrom]
  split
  · rfl
  · next h' => simp [h] at h'
  · next h' => simp [h] at h'

theorem resolveFrom_of_alias {s : Store ε} {env : ScopeId} {name target : String}
    (h : s.get? env name = some (.symbol target)) (seen : List String) :
    s.resolveFrom env seen name =
      if target ∈ seen then .error (.malformed (.aliasCycle target))
      else s.resolveFrom env (target :: seen) target := by
  rw [resolveFrom]
  split
  · next h' => simp [h] at h'
  · next h' =>
    rw [h] at h'
    cases h'
    simp
  · next hv h' =>
    rw [h] at h'
    cases h'
    exact absurd rfl (hv target)

theorem resolveFrom_of_value {s : Store ε} {env : ScopeId} {name : String} {v : Value ε}
    (h : s.get? env name = some v) (hv : v.alias? = none) (seen : List String) :
    s.resolveFrom env seen name = .ok v := by
  rw [resolveFrom]
  split
  · next h' => simp [h] at h'
  · next h' =>
    rw [h] at h'
    cases h'
    cases hv
  · next h' =>
    rw [h] at h'
    cases h'
    rfl

/-- **How the search ends**: at a value that is no alias, at a name that is not bound, or at a name met before. -/
theorem resolve_cases (s : Store ε) (env : ScopeId) (name : String) :
    (∃ n v, s.get? env n = some v ∧ v.alias? = none ∧ s.resolve env name = .ok v) ∨
    (∃ n, s.get? env n = none ∧ s.resolve env name = .error (.unbound n)) ∨
    (∃ n, s.resolve env name = .error (.malformed (.aliasCycle n))) := by
  unfold resolve
  generalize [name] = seen
  fun_induction resolveFrom s env seen name with
  | case1 _ name h => exact .inr (.inl ⟨name, h, rfl⟩)
  | case2 _ _ target => exact .inr (.inr ⟨target, rfl⟩)
  | case3 _ _ _ _ _ _ ih => exact ih
  | case4 _ name v hv h => exact .inl ⟨name, v, h, Value.alias?_eq_none hv, rfl⟩

end Store
end Lisplet
