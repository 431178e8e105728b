import Lisplet.Session
/-!
# What a session's operations do to scopes and events

One equation for each operation on scopes, read at any place of the store, and what is recorded is added at the end.  From
a fresh scope the operators are found under their names (`get?_fresh`).

A call is refused for one of two causes (`beginCall_eq_error`) or let in (`beginCall_eq_ok`); the scope that it opens then
is the first free place of the store, so no scope that was there before is touched (`getElem?_openFrame`).

`Binds` says something of all that is bound anywhere in a store; it has to be seen to only where something is defined.
-/
namespace Lisplet

variable {ε : Type}

namespace Store

theorem getElem?_define (s : Store ε) (env : ScopeId) (name : String) (v : Value ε) (i : ScopeId) :
    (s.define env name v).scopes[i]? =
      if env = i then s.scopes[i]?.map (·.define name v) else s.scopes[i]? := by
  rw [define, Array.getElem?_modify]

theorem getElem?_define_of_ne (s : Store ε) {env i : ScopeId} (name : String) (v : Value ε) (h : i ≠ env) :
    (s.define env name v).scopes[i]? = s.scopes[i]? := by
  rw [getElem?_define, if_neg (Ne.symm h)]

theorem getElem?_defineAll_of_ne {env i : ScopeId} (h : i ≠ env) :
    ∀ (bs : List (String × Value ε)) (s : Store ε), (s.defineAll env bs).scopes[i]? = s.scopes[i]?
  | [], _ => rfl
  | b :: bs, s => by
    rw [defineAll, List.foldl_cons, ← defineAll, getElem?_defineAll_of_ne h bs, getElem?_define_of_ne _ _ _ h]

theorem getElem?_alloc (s : Store ε) (scope : Scope ε) (i : ScopeId) :
    (s.alloc scope).2.scopes[i]? = if i = s.scopes.size then some scope else s.scopes[i]? :=
  Array.getElem?_push

theorem lt_size_alloc (s : Store ε) (scope : Scope ε) : s.scopes.size < (s.alloc scope).2.scopes.size := by
  rw [alloc, Array.size_push]
  exact Nat.lt_succ_self _

theorem getElem?_alloc_of_some {s : Store ε} {scope : Scope ε} {i : ScopeId} {old : Scope ε}
    (h : s.scopes[i]? = some old) : (s.alloc scope).2.scopes[i]? = some old := by
  rw [getElem?_alloc, if_neg (Nat.ne_of_lt (Array.getElem?_eq_some_iff.1 h).1), h]

theorem getElem?_child (s : Store ε) (env i : ScopeId) :
    (s.child env).2.scopes[i]? = if i = s.scopes.size then some ⟨[], some env⟩ else s.scopes[i]? :=
  s.getElem?_alloc ⟨[], some env⟩ i

theorem parent?_child (s : Store ε) {env : ScopeId} (henv : env < s.scopes.size) :
    (s.child env).2.parent? s.scopes.size = some ⟨env, henv⟩ := by
  have hnew := s.getElem?_child env s.scopes.size
  rw [if_pos rfl] at hnew
  rw [Store.parent?, hnew]
  simp only [dif_pos henv]

theorem get?_fresh [Named ε] (s : Store ε) (op : Operator) :
    s.fresh.2.get? s.fresh.1 op.spelling = some (.builtin (.operator op)) := by
  let root : Scope ε := ⟨(Registry.standard.tools : List (Tool ε)).map fun t => (t.name, .builtin t), none⟩
  have hsize : s.scopes.size < (s.alloc root).2.scopes.size := s.lt_size_alloc root
  have hown : (s.fresh.2.bindings s.fresh.1).find? op.spelling = none := by
    show (Store.bindings ((s.alloc root).2.child s.scopes.size).2 (s.alloc root).2.scopes.size).find? _ = none
    rw [bindings, getElem?_child, if_pos rfl]
    rfl
  have hparent : s.fresh.2.parent? s.fresh.1 = some ⟨s.scopes.size, hsize⟩ := (s.alloc root).2.parent?_child hsize
  have hroot : (s.fresh.2.bindings s.scopes.size).find? op.spelling = some (.builtin (.operator op)) := by
    show (Store.bindings ((s.alloc root).2.child s.scopes.size).2 s.scopes.size).find? _ = _
    rw [bindings, getElem?_child, if_neg (Nat.ne_of_lt hsize), getElem?_alloc, if_pos rfl]
    cases op <;> simp [root, Bindings.find?, Registry.standard, Operator.all, Tool.name, Operator.spelling]
  rw [get?, hown]
  simp only [hparent]
  rw [get?, hroot]

/-! ## All that is bound -/

/-- All bindings of the store are as `P` says, of the scope, the name and the value. -/
def Binds (P : ScopeId → String → Value ε → Prop) (s : Store ε) : Prop :=
  ∀ (i : ScopeId) (x : Scope ε) (name : String) (v : Value ε), s.scopes[i]? = some x → x.get? name = some v → P i name v

namespace Binds

variable {P Q : ScopeId → String → Value ε → Prop} {s : Store ε} {env : ScopeId} {name : String} {v : Value ε}

theorem empty : (Store.empty : Store ε).Binds P := by
  intro i x name v hx
  simp [Store.empty] at hx

theorem mono (h : s.Binds P) (hP : ∀ i name v, P i name v → Q i name v) : s.Binds Q :=
  fun i x name v hx hv => hP i name v (h i x name v hx hv)

theorem define (h : s.Binds P) (hv : P env name v) : (s.define env name v).Binds P := by
  intro i x other w hx hw
  rw [getElem?_define] at hx
  split at hx
  · next he =>
    subst he
    obtain ⟨old, hold, rfl⟩ := Option.map_eq_some_iff.1 hx
    rw [Scope.get?_define] at hw
    split at hw
    · next hname =>
      cases hw
      rw [hname]
      exact hv
    · exact h env old other w hold hw
  · exact h i x other w hx hw

theorem alloc (h : s.Binds P) {x : Scope ε} (hx : ∀ name v, x.get? name = some v → P s.scopes.size name v) :
    (s.alloc x).2.Binds P := by
  intro i y name v hy hv
  rw [getElem?_alloc] at hy
  split at hy
  · next he =>
    cases hy
    rw [he]
    exact hx name v hv
  · exact h i y name v hy hv

theorem child (h : s.Binds P) (env : ScopeId) : (s.child env).2.Binds P :=
  h.alloc fun name v hv => by cases hv

theorem defineAll : ∀ (bs : List (String × Value ε)) {s : Store ε}, s.Binds P → (∀ b ∈ bs, P env b.1 b.2) →
    (s.defineAll env bs).Binds P
  | [], _, h, _ => h
  | b :: bs, _, h, hbs =>
    defineAll bs (h.define (hbs b List.mem_cons_self)) fun b' hb' => hbs b' (List.mem_cons_of_mem _ hb')

theorem fresh [Named ε] (h : s.Binds P) (hP : ∀ i name op, P i name (.builtin (.operator op))) : s.fresh.2.Binds P := by
  refine (h.alloc fun name v hv => ?_).child _
  obtain ⟨b, hb, rfl⟩ := mem_of_find? hv
  obtain ⟨tool, htool, rfl⟩ := List.mem_map.1 hb
  obtain ⟨op, _, rfl⟩ := List.mem_map.1 htool
  exact hP _ name op

theorem of_find? (h : s.Binds P) (hv : (s.bindings env).find? name = some v) : P env name v := by
  unfold bindings at hv
  cases hs : s.scopes[env]? with
  | none => simp [hs, Bindings.find?] at hv
  | some x =>
    simp only [hs] at hv
    exact h env x name v hs hv

theorem get? (h : s.Binds P) (hv : s.get? env name = some v) : ∃ i, P i name v := by
  fun_induction Store.get? s env name with
  | case1 env w hw =>
    cases hv
    exact ⟨env, h.of_find? hw⟩
  | case2 => cases hv
  | case3 env _ p _ _ ih => exact ih hv

/-- **What a name resolves to is bound somewhere**, and it is no alias. -/
theorem resolve (h : s.Binds P) (hv : s.resolve env name = .ok v) : ∃ i n, P i n v ∧ v.alias? = none := by
  rcases s.resolve_cases env name with ⟨n, w, hget, hplain, hr⟩ | ⟨_, _, hr⟩ | ⟨_, hr⟩
  · cases hr.symm.trans hv
    obtain ⟨i, hi⟩ := h.get? hget
    exact ⟨i, n, hi, hplain⟩
  · cases hr.symm.trans hv
  · cases hr.symm.trans hv

end Binds
end Store

namespace Session

/-! ## Scopes -/

@[simp] theorem store_record (s : Session ε) (event : Event) : (s.record event).store = s.store := rfl

/-- **A frame is new**: the scopes before it stay as they are. -/
theorem getElem?_openFrame (s : Session ε) (c : Closure) (args : List (Value ε)) {i : ScopeId}
    (h : i < s.store.scopes.size) : (s.openFrame c args).2.store.scopes[i]? = s.store.scopes[i]? := by
  have hne : i ≠ s.store.scopes.size := Nat.ne_of_lt h
  show ((s.store.child c.env).2.defineAll s.store.scopes.size (c.params.zip args)).scopes[i]? = _
  rw [Store.getElem?_defineAll_of_ne hne, Store.getElem?_child, if_neg hne]

/-! ## Events -/

@[simp] theorem events_record (s : Session ε) (event : Event) : (s.record event).events = s.events ++ [event] := by
  rw [events, record, List.reverse_cons]
  rfl

theorem prefix_record (s : Session ε) (event : Event) : s.events <+: (s.record event).events := by
  rw [events_record]
  exact List.prefix_append _ _

/-! ## Calls -/

variable {s t : Session ε} {limit depth : Nat} {name : String} {c : Closure} {args : List (Value ε)}

theorem beginCall_of_length_ne (hp : c.params.length ≠ args.length) :
    s.beginCall limit depth name c args = .error (.arity name (.exactly c.params.length) args.length, s) := by
  rw [beginCall, if_pos hp]

theorem beginCall_of_le (hp : c.params.length = args.length) (hl : limit ≤ depth) :
    s.beginCall limit depth name c args = .error (.tooDeep limit, s.record (.tooDeep limit)) := by
  rw [beginCall, if_neg (not_not_intro hp), if_pos hl]

theorem beginCall_of_lt (hp : c.params.length = args.length) (hl : depth < limit) :
    s.beginCall limit depth name c args =
      .ok ((s.openFrame c args).1, (s.openFrame c args).2.record (.closure name c.params.length depth)) := by
  rw [beginCall, if_neg (not_not_intro hp), if_neg (Nat.not_le_of_lt hl)]

/-- **A call is refused** for the number of its operands, or else for the limit. -/
theorem beginCall_eq_error {cause : Error} (h : s.beginCall limit depth name c args = .error (cause, t)) :
    (c.params.length ≠ args.length ∧ cause = .arity name (.exactly c.params.length) args.length ∧ t = s) ∨
    (c.params.length = args.length ∧ limit ≤ depth ∧ cause = .tooDeep limit ∧ t = s.record (.tooDeep limit)) := by
  by_cases hp : c.params.length = args.length
  · by_cases hl : limit ≤ depth
    · rw [beginCall_of_le hp hl] at h
      cases h
      exact .inr ⟨hp, hl, rfl, rfl⟩
    · rw [beginCall_of_lt hp (Nat.lt_of_not_le hl)] at h
      cases h
  · rw [beginCall_of_length_ne hp] at h
    cases h
    exact .inl ⟨hp, rfl, rfl⟩

/-- **A call is let in** with as many operands as parameters and below the limit, in a new frame. -/
theorem beginCall_eq_ok {frame : ScopeId} (h : s.beginCall limit depth name c args = .ok (frame, t)) :
    c.params.length = args.length ∧ depth < limit ∧ frame = (s.openFrame c args).1 ∧
      t = (s.openFrame c args).2.record (.closure name c.params.length depth) := by
  have hl := depth_lt_of_beginCall h
  by_cases hp : c.params.length = args.length
  · rw [beginCall_of_lt hp hl] at h
    cases h
    exact ⟨hp, hl, rfl, rfl⟩
  · rw [beginCall_of_length_ne hp] at h
    cases h

theorem store_of_refused {cause : Error} (h : s.beginCall limit depth name c args = .error (cause, t)) :
    t.store = s.store := by
  rcases beginCall_eq_error h with ⟨_, _, rfl⟩ | ⟨_, _, _, rfl⟩ <;> rfl

theorem prefix_of_refused {cause : Error} (h : s.beginCall limit depth name c args = .error (cause, t)) :
    s.events <+: t.events := by
  rcases beginCall_eq_error h with ⟨_, _, rfl⟩ | ⟨_, _, _, rfl⟩
  · exact List.prefix_rfl
  · exact s.prefix_record _

theorem prefix_of_entered {frame : ScopeId} (h : s.beginCall limit depth name c args = .ok (frame, t)) :
    s.events <+: t.events := by
  obtain ⟨_, _, _, rfl⟩ := beginCall_eq_ok h
  exact (s.openFrame c args).2.prefix_record _

end Session
end Lisplet
