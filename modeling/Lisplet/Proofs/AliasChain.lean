import Lisplet.Evaluator.Lemmas
/-!
# Where an alias leads

From a name the aliases lead on to other names, each looked up from the scope where the first one stands: this is the
alias chain of the name.  It comes to a value, or to a name that is not bound, or it never ends, and then it comes back to
a name.  Resolving a name tells which: it gives the value, the name that is not bound, or the first name to which the
chain comes back.

The search remembers the names that it has met.  As long as they are all different they are the chain up to here, so
that the first name met again is the first one that the chain repeats (`chainEnd_resolveFrom`).  The other direction needs
no second search: a chain ends in one way only (`ChainEnd.unique`).
-/
namespace Lisplet

variable {ε : Type}

namespace Store

def aliasOf? (s : Store ε) (env : ScopeId) (name : String) : Option String :=
  (s.get? env name).bind Value.alias?

/-- **The alias chain**: the name to which `k` aliases lead from `name`, if there are as many. -/
def aliasChain (s : Store ε) (env : ScopeId) (name : String) : Nat → Option String
  | 0 => some name
  | k + 1 => (s.aliasChain env name k).bind (s.aliasOf? env)

/-- The name is the first one to which the chain comes for the second time. -/
def FirstRepeated (s : Store ε) (env : ScopeId) (name repeated : String) : Prop :=
  ∃ j, s.aliasChain env name j = some repeated ∧ (∃ i, i < j ∧ s.aliasChain env name i = some repeated) ∧
    ∀ i k, i < k → k < j → s.aliasChain env name i ≠ s.aliasChain env name k

inductive ChainEnd (s : Store ε) (env : ScopeId) (name : String) : Except Error (Value ε) → Prop where
  | value {k : Nat} {last : String} {v : Value ε} (hk : s.aliasChain env name k = some last)
    (hget : s.get? env last = some v) (hv : v.alias? = none) : ChainEnd s env name (.ok v)
  | unbound {k : Nat} {last : String} (hk : s.aliasChain env name k = some last) (hget : s.get? env last = none) :
    ChainEnd s env name (.error (.unbound last))
  | cycle {repeated : String} (h : s.FirstRepeated env name repeated) :
    ChainEnd s env name (.error (.malformed (.aliasCycle repeated)))

variable {s : Store ε} {env : ScopeId} {name : String}

/-! ## Chains -/

theorem aliasOf?_of_alias {target : String} (h : s.get? env name = some (.symbol target)) :
    s.aliasOf? env name = some target := by
  rw [aliasOf?, h]
  rfl

theorem aliasOf?_of_value {v : Value ε} (h : s.get? env name = some v) (hv : v.alias? = none) :
    s.aliasOf? env name = none := by
  rw [aliasOf?, h]
  exact hv

theorem aliasOf?_of_none (h : s.get? env name = none) : s.aliasOf? env name = none := by
  rw [aliasOf?, h]
  rfl

theorem aliasChain_succ {k : Nat} {last : String} (hk : s.aliasChain env name k = some last) :
    s.aliasChain env name (k + 1) = s.aliasOf? env last := by
  rw [aliasChain, hk]
  rfl

theorem aliasChain_of_le {k l : Nat} (hk : s.aliasChain env name k = none) (hkl : k ≤ l) :
    s.aliasChain env name l = none := by
  induction hkl with
  | refl => exact hk
  | step _ ih => rw [aliasChain, ih]; rfl

theorem aliasChain_add {i j : Nat} (h : s.aliasChain env name i = s.aliasChain env name j) (k : Nat) :
    s.aliasChain env name (i + k) = s.aliasChain env name (j + k) := by
  induction k with
  | zero => exact h
  | succ k ih => rw [← Nat.add_assoc, ← Nat.add_assoc, aliasChain, aliasChain, ih]

/-- **A chain that comes back to a name never ends.** -/
theorem FirstRepeated.exists_aliasChain {repeated : String} (h : s.FirstRepeated env name repeated) (k : Nat) :
    ∃ n, s.aliasChain env name k = some n := by
  obtain ⟨j, hj, ⟨i, hij, hi⟩, _⟩ := h
  induction k using Nat.strongRecOn with
  | ind k ih =>
    by_cases hkj : k ≤ j
    · cases hk : s.aliasChain env name k with
      | some n => exact ⟨n, rfl⟩
      | none =>
        rw [aliasChain_of_le hk hkj] at hj
        cases hj
    · -- beyond the repeated name the chain is what it was one round before
      have hround := aliasChain_add (hi.trans hj.symm) (k - j)
      rw [Nat.add_sub_cancel' (Nat.le_of_not_le hkj)] at hround
      rw [← hround]
      exact ih (i + (k - j)) (by omega)

theorem aliasChain_end_unique {k l : Nat} {last other : String} (hk : s.aliasChain env name k = some last)
    (hlast : s.aliasOf? env last = none) (hl : s.aliasChain env name l = some other)
    (hother : s.aliasOf? env other = none) : last = other := by
  have hkend : s.aliasChain env name (k + 1) = none := (aliasChain_succ hk).trans hlast
  have hlend : s.aliasChain env name (l + 1) = none := (aliasChain_succ hl).trans hother
  have hkl : k = l := by
    rcases Nat.lt_trichotomy k l with hlt | heq | hlt
    · cases (aliasChain_of_le hkend hlt).symm.trans hl
    · exact heq
    · cases (aliasChain_of_le hlend hlt).symm.trans hk
  rw [hkl, hl] at hk
  exact (Option.some.inj hk).symm

theorem FirstRepeated.aliasOf?_ne_none {repeated last : String} {k : Nat} (h : s.FirstRepeated env name repeated)
    (hk : s.aliasChain env name k = some last) : s.aliasOf? env last ≠ none := by
  obtain ⟨n, hn⟩ := h.exists_aliasChain (k + 1)
  rw [← aliasChain_succ hk, hn]
  exact Option.some_ne_none n

theorem FirstRepeated.unique {a b : String} (ha : s.FirstRepeated env name a) (hb : s.FirstRepeated env name b) :
    a = b := by
  obtain ⟨j, hj, ⟨i, hij, hi⟩, hbefore⟩ := ha
  obtain ⟨l, hl, ⟨k, hkl, hk⟩, hbefore'⟩ := hb
  have hjl : j = l := by
    rcases Nat.lt_trichotomy j l with hlt | heq | hlt
    · exact absurd (hi.trans hj.symm) (hbefore' i j hij hlt)
    · exact heq
    · exact absurd (hk.trans hl.symm) (hbefore k l hkl hlt)
  rw [hjl, hl] at hj
  exact (Option.some.inj hj).symm

/-- **A chain ends in one way only.** -/
theorem ChainEnd.unique {r r' : Except Error (Value ε)} (h : s.ChainEnd env name r) (h' : s.ChainEnd env name r') :
    r = r' := by
  cases h with
  | value hk hget hv =>
    have hend := aliasOf?_of_value hget hv
    cases h' with
    | value hk' hget' hv' =>
      cases aliasChain_end_unique hk hend hk' (aliasOf?_of_value hget' hv')
      rw [Option.some.inj (hget.symm.trans hget')]
    | unbound hk' hget' =>
      cases aliasChain_end_unique hk hend hk' (aliasOf?_of_none hget')
      cases hget.symm.trans hget'
    | cycle hr => exact absurd hend (hr.aliasOf?_ne_none hk)
  | unbound hk hget =>
    have hend := aliasOf?_of_none hget
    cases h' with
    | value hk' hget' hv' =>
      cases aliasChain_end_unique hk hend hk' (aliasOf?_of_value hget' hv')
      cases hget.symm.trans hget'
    | unbound hk' hget' => rw [aliasChain_end_unique hk hend hk' (aliasOf?_of_none hget')]
    | cycle hr => exact absurd hend (hr.aliasOf?_ne_none hk)
  | cycle hr =>
    cases h' with
    | value hk' hget' hv' => exact absurd (aliasOf?_of_value hget' hv') (hr.aliasOf?_ne_none hk')
    | unbound hk' hget' => exact absurd (aliasOf?_of_none hget') (hr.aliasOf?_ne_none hk')
    | cycle hr' => rw [hr.unique hr']

/-! ## The search -/

/-- The names met are those of the chain up to its place `k`, where `last` stands, and all of them are different. -/
structure Followed (s : Store ε) (env : ScopeId) (name : String) (k : Nat) (last : String) (met : List String) :
    Prop where
  last : s.aliasChain env name k = some last
  met : ∀ n, n ∈ met ↔ ∃ i, i ≤ k ∧ s.aliasChain env name i = some n
  different : ∀ i j, i < j → j ≤ k → s.aliasChain env name i ≠ s.aliasChain env name j

theorem followed_start (s : Store ε) (env : ScopeId) (name : String) : s.Followed env name 0 name [name] where
  last := rfl
  met n := by
    rw [List.mem_singleton]
    constructor
    · rintro rfl
      exact ⟨0, Nat.le_refl 0, rfl⟩
    · rintro ⟨i, hi, hn⟩
      cases Nat.le_zero.1 hi
      exact (Option.some.inj hn).symm
  different i j hij hj := by omega

theorem Followed.step {k : Nat} {last target : String} {met : List String} (h : s.Followed env name k last met)
    (htarget : s.aliasChain env name (k + 1) = some target) (hnew : target ∉ met) :
    s.Followed env name (k + 1) target (target :: met) where
  last := htarget
  met n := by
    rw [List.mem_cons, h.met]
    constructor
    · rintro (rfl | ⟨i, hi, hn⟩)
      · exact ⟨k + 1, Nat.le_refl _, htarget⟩
      · exact ⟨i, Nat.le_succ_of_le hi, hn⟩
    · rintro ⟨i, hi, hn⟩
      rcases Nat.le_succ_iff.1 hi with hi | rfl
      · exact .inr ⟨i, hi, hn⟩
      · exact .inl (Option.some.inj (hn.symm.trans htarget))
  different i j hij hj := by
    rcases Nat.le_succ_iff.1 hj with hj | rfl
    · exact h.different i j hij hj
    · intro he
      exact hnew ((h.met target).2 ⟨i, Nat.le_of_lt_succ hij, he.trans htarget⟩)

theorem Followed.firstRepeated {k : Nat} {last target : String} {met : List String} (h : s.Followed env name k last met)
    (htarget : s.aliasChain env name (k + 1) = some target) (hmet : target ∈ met) : s.FirstRepeated env name target := by
  obtain ⟨i, hi, hn⟩ := (h.met target).1 hmet
  exact ⟨k + 1, htarget, ⟨i, Nat.lt_succ_of_le hi, hn⟩, fun a b hab hb => h.different a b hab (Nat.le_of_lt_succ hb)⟩

/-- **The search ends as the chain does**, from wherever it has been followed to. -/
theorem chainEnd_resolveFrom {met : List String} {last : String} {k : Nat} (h : s.Followed env name k last met) :
    s.ChainEnd env name (s.resolveFrom env met last) := by
  fun_induction Store.resolveFrom s env met last generalizing k with
  | case1 met last hget => exact .unbound h.last hget
  | case2 met last target hget hmet =>
    have htarget := (aliasChain_succ h.last).trans (aliasOf?_of_alias hget)
    exact .cycle (h.firstRepeated htarget hmet)
  | case3 met last target hget hnew _ ih =>
    have htarget := (aliasChain_succ h.last).trans (aliasOf?_of_alias hget)
    exact ih (h.step htarget hnew)
  | case4 met last v hv hget => exact .value h.last hget (Value.alias?_eq_none hv)

theorem resolve_eq_iff {r : Except Error (Value ε)} : s.resolve env name = r ↔ s.ChainEnd env name r := by
  have hresolve : s.ChainEnd env name (s.resolve env name) := chainEnd_resolveFrom (followed_start s env name)
  constructor
  · rintro rfl
    exact hresolve
  · exact fun h => hresolve.unique h

theorem resolve_eq_ok_iff {v : Value ε} : s.resolve env name = .ok v ↔
    ∃ k last, s.aliasChain env name k = some last ∧ s.get? env last = some v ∧ v.alias? = none := by
  rw [resolve_eq_iff]
  constructor
  · intro h
    cases h with
    | value hk hget hv => exact ⟨_, _, hk, hget, hv⟩
  · rintro ⟨k, last, hk, hget, hv⟩
    exact .value hk hget hv

theorem resolve_eq_unbound_iff {last : String} : s.resolve env name = .error (.unbound last) ↔
    ∃ k, s.aliasChain env name k = some last ∧ s.get? env last = none := by
  rw [resolve_eq_iff]
  constructor
  · intro h
    cases h with
    | unbound hk hget => exact ⟨_, hk, hget⟩
  · rintro ⟨k, hk, hget⟩
    exact .unbound hk hget

theorem resolve_eq_cycle_iff {repeated : String} :
    s.resolve env name = .error (.malformed (.aliasCycle repeated)) ↔ s.FirstRepeated env name repeated := by
  rw [resolve_eq_iff]
  constructor
  · intro h
    cases h with
    | cycle hr => exact hr
  · exact .cycle

theorem exists_firstRepeated_iff : (∃ repeated, s.FirstRepeated env name repeated) ↔
    ∀ k, ∃ n, s.aliasChain env name k = some n := by
  constructor
  · rintro ⟨repeated, hr⟩
    exact hr.exists_aliasChain
  · intro h
    obtain ⟨r, hend⟩ : ∃ r, s.ChainEnd env name r := ⟨_, resolve_eq_iff.1 rfl⟩
    cases hend with
    | @value k last v hk hget hv =>
      obtain ⟨n, hn⟩ := h (k + 1)
      cases hn.symm.trans ((aliasChain_succ hk).trans (aliasOf?_of_value hget hv))
    | @unbound k last hk hget =>
      obtain ⟨n, hn⟩ := h (k + 1)
      cases hn.symm.trans ((aliasChain_succ hk).trans (aliasOf?_of_none hget))
    | cycle hr => exact ⟨_, hr⟩

end Store

namespace Evaluator

variable [Host ε]

/-- **A symbol evaluates to what its alias chain comes to.**  It has the value `v` just if some name of the chain is bound
to `v` and `v` is no alias, the error for a name that is not bound just if the chain comes to such a name, and the error
for a cycle just if the chain never ends; the name in that error is the first one to which the chain comes for the second
time.  Nothing is changed by it. -/
theorem evaluate_symbol_iff (ev : Evaluator) (env : ScopeId) (name : String) (session : Session ε) :
    (∀ v, (ev.evaluate (.symbol name) env session).result = .ok v ↔
      ∃ k last, session.store.aliasChain env name k = some last ∧ session.store.get? env last = some v ∧
        v.alias? = none) ∧
    (∀ last, (ev.evaluate (.symbol name) env session).result = .error (.unbound last) ↔
      ∃ k, session.store.aliasChain env name k = some last ∧ session.store.get? env last = none) ∧
    ((∃ repeated, (ev.evaluate (.symbol name) env session).result = .error (.malformed (.aliasCycle repeated))) ↔
      ∀ k, ∃ n, session.store.aliasChain env name k = some n) ∧
    (∀ repeated, (ev.evaluate (.symbol name) env session).result = .error (.malformed (.aliasCycle repeated)) ↔
      session.store.FirstRepeated env name repeated) ∧
    (ev.evaluate (.symbol name) env session).session = session := by
  have heval : ev.evaluate (.symbol name) env session = ⟨session.store.resolve env name, ev.depth, session⟩ := by
    rw [evaluate_eq, Semantics.eval_eq]
    rfl
  rw [heval]
  refine ⟨fun v => Store.resolve_eq_ok_iff, fun last => Store.resolve_eq_unbound_iff, ?_,
    fun repeated => Store.resolve_eq_cycle_iff, rfl⟩
  simp only [Store.resolve_eq_cycle_iff]
  exact Store.exists_firstRepeated_iff

end Evaluator
end Lisplet
