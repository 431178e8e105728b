import Lisplet.Proofs.Simulation
/-!
# Doing the same again

A call leaves frames and closures behind, and what it was asked to do it does again in the same way: nothing that it left
can be reached from what was there before.  The second run starts from a store that has grown and that agrees with the
old one on all old scopes, so it mirrors the first (`Store.Whole.mirrors`), and to an onlooker, who sees kinds and texts
and events, the two are the same.  Values are equal too, but for a NaN, which is not equal to itself, and for a closure
that the run has made.
-/
namespace Lisplet

variable {ε : Type}

/-! ## Where the runs begin -/

namespace Store

/-- The scopes that are `seen` lead to no others, by parents or by closures. -/
structure LeadsWithin (s : Store ε) (seen : ScopeId → Prop) : Prop where
  parent : ∀ (i : ScopeId) (x : Scope ε) (p : ScopeId), seen i → s.scopes[i]? = some x → x.parent = some p → seen p
  captured : ∀ (i : ScopeId) (x : Scope ε) (name : String) (c : Closure), seen i → s.scopes[i]? = some x →
    x.get? name = some (.closure c) → seen c.env

def AgreesOn (seen : ScopeId → Prop) (s t : Store ε) : Prop :=
  ∀ (i : ScopeId) (x : Scope ε), seen i → s.scopes[i]? = some x →
    ∃ y, t.scopes[i]? = some y ∧ y.parent = x.parent ∧ ∀ name, y.get? name = x.get? name

def relocation (s t : Store ε) (seen : ScopeId → Prop) : Relocation :=
  ⟨s.scopes.size, s.closures, t.scopes.size - s.scopes.size, t.closures - s.closures, seen⟩

variable {s t : Store ε} {seen : ScopeId → Prop}

theorem scope_relocation {i : ScopeId} (h : i < s.scopes.size) : (s.relocation t seen).scope i = i :=
  shifted_of_lt h

end Store

theorem Value.StandsIn.relocate_eq {s t : Store ε} {seen : ScopeId → Prop} {v : Value ε} (h : v.StandsIn s) :
    v.relocate (s.relocation t seen) = v := by
  cases v with
  | closure c =>
    have hscope : (s.relocation t seen).scope c.env = c.env := shifted_of_lt h.1
    have hclosure : (s.relocation t seen).closure c.id = c.id := shifted_of_lt h.2
    simp only [relocate, Closure.relocate, hscope, hclosure]
  | null | bool | num | symbol | builtin => rfl

theorem Value.map_relocate_eq {s t : Store ε} {seen : ScopeId → Prop} {vs : List (Value ε)}
    (h : ∀ v ∈ vs, v.StandsIn s) : vs.map (relocate (s.relocation t seen)) = vs := by
  have hid : vs.map (relocate (s.relocation t seen)) = vs.map id :=
    List.map_congr_left fun v hv => (h v hv).relocate_eq
  rw [hid, List.map_id]

theorem Value.StandsIn.within {s t : Store ε} {seen : ScopeId → Prop} {v : Value ε} (h : v.StandsIn s)
    (hseen : ∀ c, v = .closure c → seen c.env) : v.Within (s.relocation t seen) :=
  h.mono fun c hc _ => .inl (hseen c hc)

/-- **Where runs that do the same begin**: a store that has grown from a whole one, and agrees with it on scopes that
lead to no others, mirrors it. -/
theorem Store.Whole.mirrors {s t : Store ε} {seen : ScopeId → Prop} (hs : s.Whole) (hleads : s.LeadsWithin seen)
    (hagree : s.AgreesOn seen t) (hgrown : s.Grown t) : s.Mirrors (s.relocation t seen) t where
  scopes_le := Nat.le_refl _
  size_eq := by
    have := hgrown.scopes
    simp only [relocation]
    omega
  closures_le := Nat.le_refl _
  closures_eq := by
    have := hgrown.closures
    simp only [relocation]
    omega
  scope i x hi hx := by
    have hlt : i < s.scopes.size := (Array.getElem?_eq_some_iff.1 hx).1
    have hseen : seen i := hi.resolve_right (Nat.not_le_of_lt hlt)
    obtain ⟨y, hy, hparent, hget⟩ := hagree i x hseen hx
    refine ⟨y, by rw [scope_relocation hlt, hy], ?_, fun name => ?_, fun p hp => ?_, fun name v hv => ?_⟩
    · rw [hparent]
      cases hp : x.parent with
      | none => rfl
      | some p =>
        have hpi := hs.parent_lt i x p hx hp
        rw [Option.map_some, scope_relocation (Nat.lt_trans hpi hlt)]
    · rw [hget]
      cases hv : x.get? name with
      | none => rfl
      | some v => rw [Option.map_some, (hs.bound i x name v hx hv).relocate_eq]
    · exact .inl (hleads.parent i x p hseen hx hp)
    · exact (hs.bound i x name v hx hv).within fun c hc => hleads.captured i x name c hseen hx (hc ▸ hv)

/-! ## What an onlooker sees -/

def Value.Alike [Named ε] (v w : Value ε) : Prop :=
  v.kind = w.kind ∧ v.text = w.text

theorem Value.alike_relocate [Named ε] (r : Relocation) (v : Value ε) : v.Alike (v.relocate r) :=
  ⟨(v.kind_relocate r).symm, (v.text_relocate r).symm⟩

def SameResult [Named ε] : Except Error (Value ε) → Except Error (Value ε) → Prop
  | .ok v, .ok w => v.Alike w
  | .error e, .error e' => e = e'
  | _, _ => False

theorem sameResult_map_relocate [Named ε] (r : Relocation) (x : Except Error (Value ε)) :
    SameResult x (x.map (Value.relocate r)) := by
  cases x with
  | error e => rfl
  | ok v => exact v.alike_relocate r

/-- **The same to an onlooker**: the outcomes `o`, from the session `s`, and `o'`, from the session `t`, have the same
result, and the same events have been recorded on the way to them. -/
structure Outcome.SameFrom [Named ε] (s t : Session ε) (o o' : Outcome ε) : Prop where
  result : SameResult o.result o'.result
  log : ∃ log, o.session.events = s.events ++ log ∧ o'.session.events = t.events ++ log

theorem Semantics.Mirrored.sameFrom [Named ε] {r : Relocation} {s t : Session ε} {o o' : Outcome ε}
    (h : MirroredValue r s t o.answer o'.answer) : Outcome.SameFrom s t o o' := by
  obtain ⟨new, ho, ho'⟩ := h.recorded
  have hresult : o'.result = o.result.map (Value.relocate r) := h.result
  refine ⟨?_, new.reverse, ?_, ?_⟩
  · rw [hresult]
    exact sameResult_map_relocate r o.result
  · have hrec : o.session.recorded = new ++ s.recorded := ho
    rw [Session.events, hrec, List.reverse_append]
    rfl
  · have hrec : o'.session.recorded = new ++ t.recorded := ho'
    rw [Session.events, hrec, List.reverse_append]
    rfl

theorem Binary64.compare?_self {x : Binary64} (h : x ≠ .nan) : x.compare? x = some .eq := by
  cases x with
  | nan => exact absurd rfl h
  | infinity s => simp [compare?]
  | finite x => simp [compare?]

theorem Number.equal_self {n : Number} (h : n ≠ .float .nan) : n.equal n = true := by
  cases n with
  | int a => simp [equal]
  | float x =>
    have hx : x ≠ .nan := fun he => h (by rw [he])
    simp [equal, toBinary64, Binary64.equal, Binary64.compare?_self hx]

theorem Value.beq_relocate [Named ε] (r : Relocation) (v : Value ε) :
    (v == v.relocate r) = true ∨ v = .num (.float .nan) ∨ ∃ c, v = .closure c ∧ r.closures ≤ c.id := by
  cases v with
  | null => exact .inl rfl
  | bool b => exact .inl (beq_self_eq_true b)
  | num n =>
    by_cases hn : n = .float .nan
    · exact .inr (.inl (by rw [hn]))
    · exact .inl (Number.equal_self hn)
  | symbol name => exact .inl (beq_self_eq_true name)
  | builtin tool => exact .inl (beq_self_eq_true tool.name)
  | closure c =>
    by_cases hc : c.id < r.closures
    · refine .inl ?_
      show (c.id == r.closure c.id) = true
      rw [Relocation.closure, shifted_of_lt hc]
      exact beq_self_eq_true c.id
    · exact .inr (.inr ⟨c, rfl, Nat.le_of_not_lt hc⟩)

/-! ## Repetition -/

/-- **The second outcome repeats the first**, which was reached from the session `s`: it is the same to an onlooker, and
its value is equal to the first one's, unless that is a NaN or a closure made since. -/
structure Outcome.RepeatedBy [Named ε] (s : Session ε) (o o' : Outcome ε) : Prop where
  same : Outcome.SameFrom s o.session o o'
  equal : ∀ v w, o.result = .ok v → o'.result = .ok w →
    (v == w) = true ∨ v = .num (.float .nan) ∨ ∃ c, v = .closure c ∧ s.store.closures ≤ c.id

theorem Semantics.Mirrored.repeatedBy [Named ε] {seen : ScopeId → Prop} {s : Session ε} {o o' : Outcome ε}
    (h : MirroredValue (s.store.relocation o.session.store seen) s o.session o.answer o'.answer) :
    o.RepeatedBy s o' := by
  have hresult : o'.result = o.result.map (Value.relocate (s.store.relocation o.session.store seen)) := h.result
  refine ⟨h.sameFrom, fun v w hv hw => ?_⟩
  rw [hv, hw] at hresult
  cases hresult
  exact v.beq_relocate _

theorem Store.agreesOn_of_frame {s t : Store ε} {env : ScopeId} {writes : String → Prop} (seen : ScopeId → Prop)
    (h : s.Frame env writes t) (henv : seen env → ∀ name, ¬ writes name) : s.AgreesOn seen t := by
  intro i x hi hx
  by_cases he : i = env
  · subst he
    obtain ⟨y, hy, hup⟩ := h.own x hx
    refine ⟨y, hy, hup.parent, fun name => ?_⟩
    exact Classical.byContradiction fun hne => henv hi name (hup.changed name hne)
  · exact ⟨x, h.others i x he hx, rfl, fun _ => rfl⟩

theorem Store.leadsWithin_all (s : Store ε) : s.LeadsWithin fun _ => True :=
  ⟨fun _ _ _ _ _ _ => trivial, fun _ _ _ _ _ _ _ => trivial⟩

namespace Evaluator

variable [Host ε]

theorem unchanged_apply (ev : Evaluator) (name : String) (callee : Value ε) (args : List (Value ε))
    (session : Session ε) :
    session.store.Unchanged (ev.apply name callee args session).session.store ∧
      (ev.apply name callee args session).depth = ev.depth := by
  rw [apply_eq]
  cases callee.callable? with
  | none => exact ⟨.of_scopes_eq rfl, rfl⟩
  | some callable =>
    exact ⟨(Semantics.frame_closed ev.config.maxDepth).apply ev.depth name callable args session, rfl⟩

theorem frame_evaluate (ev : Evaluator) (e : Expr) (env : ScopeId) (session : Session ε) :
    session.store.Frame env e.Defines (ev.evaluate e env session).session.store ∧
      (ev.evaluate e env session).depth = ev.depth := by
  rw [evaluate_eq]
  exact ⟨(Semantics.frame_closed ev.config.maxDepth).eval ev.depth e env session, rfl⟩

/-- What the evaluator does in the session it does again in the session that this leaves, with the calls in progress that
this leaves. -/
def Repeats (ev : Evaluator) (run : Evaluator → Session ε → Outcome ε) (session : Session ε) : Prop :=
  (run ev session).RepeatedBy session
    (run { ev with depth := (run ev session).depth } (run ev session).session)

/-- **Calls and expressions that define nothing can be repeated.**  In a whole store, applying a value twice in a row
comes to the same both times, and so does evaluating an expression in which no definition stands outside the lists headed
by `lambda`, whatever the closures that are called define in their bodies. -/
theorem repeats_apply_evaluate (ev : Evaluator) {session : Session ε} (hs : session.store.Whole) :
    (∀ (name : String) (callee : Value ε) (args : List (Value ε)), callee.StandsIn session.store →
      (∀ a ∈ args, a.StandsIn session.store) → ev.Repeats (·.apply name callee args ·) session) ∧
    ∀ (e : Expr) (env : ScopeId), env < session.store.scopes.size → (∀ name, ¬ e.Defines name) →
      ev.Repeats (·.evaluate e env ·) session := by
  refine ⟨fun name callee args hcallee hargs => ?_, fun e env henv hdef => ?_⟩
  · obtain ⟨hunchanged, hdepth⟩ := ev.unchanged_apply name callee args session
    have hgrown := (ev.whole_apply name hs hcallee hargs).related
    have hagree := Store.agreesOn_of_frame (fun _ => True) (hunchanged.frame 0 fun _ => False) nofun
    have hmirrors := hs.mirrors session.store.leadsWithin_all hagree hgrown
    have hrun := ev.mirrored_apply name (hcallee.within fun _ _ => trivial)
      (fun a ha => (hargs a ha).within fun _ _ => trivial) hmirrors
    rw [hcallee.relocate_eq, Value.map_relocate_eq hargs] at hrun
    rw [Repeats, hdepth]
    exact hrun.repeatedBy
  · obtain ⟨hframe, hdepth⟩ := ev.frame_evaluate e env session
    have hgrown := (ev.whole_evaluate e hs henv).related
    have hagree := Store.agreesOn_of_frame (fun _ => True) hframe fun _ => hdef
    have hmirrors := hs.mirrors session.store.leadsWithin_all hagree hgrown
    have hrun := ev.mirrored_evaluate e env (.inl trivial) hmirrors
    rw [Store.scope_relocation henv] at hrun
    rw [Repeats, hdepth]
    exact hrun.repeatedBy

/-- A function that defines a name in its body and returns a new closure over it, applied twice, and an expression that
calls what it returns. -/
theorem repeats_maker :
    ∃ (w : World Empty) (make : Value Empty),
      make = .closure ⟨0, ["n"], .list [.keyword .branch, .list [.keyword .define, .symbol "k", .symbol "n"],
        .symbol "k", .list [.keyword .lambda, .list [], .symbol "k"]], 1⟩ ∧
      w.session.store.bindings 1 = [("make", make)] ∧
      (inScope 1).Repeats (·.apply "make" make [.num (.int 5)] ·) w.session ∧
      (inScope 1).Repeats (·.evaluate (.list [.list [.symbol "make", .num (.int 5)]]) 1 ·) w.session := by
  have hfresh : World.Reachable _ := .step .empty (.fresh (ε := Empty))
  obtain ⟨w, make, hreach, hmake, hbound, hvalue, hhandle⟩ : ∃ (w : World Empty) (make : Value Empty), w.Reachable ∧
      make = .closure ⟨0, ["n"], .list [.keyword .branch, .list [.keyword .define, .symbol "k", .symbol "n"],
        .symbol "k", .list [.keyword .lambda, .list [], .symbol "k"]], 1⟩ ∧
      w.session.store.bindings 1 = [("make", make)] ∧ make ∈ w.values ∧ 1 ∈ w.handles :=
    ⟨_, _, (hfresh.step (.closure _ _ List.mem_cons_self)).step
      (.define "make" List.mem_cons_self (.inl List.mem_cons_self)), rfl, rfl, List.mem_cons_self, List.mem_cons_self⟩
  have hwhole := World.whole_of_reachable hreach
  have hrepeats := (inScope 1).repeats_apply_evaluate hwhole.store
  refine ⟨w, make, hmake, hbound, hrepeats.1 "make" make _ (hwhole.values make hvalue) fun a ha => ?_, ?_⟩
  · rw [List.mem_singleton.1 ha]
    trivial
  · refine hrepeats.2 _ 1 (hwhole.handles 1 hhandle) fun name hdef => ?_
    -- the expression is a call of a call, and neither of the two lists is a definition
    cases hdef with
    | inside _ hm hd =>
      rw [List.mem_singleton.1 hm] at hd
      cases hd with
      | inside _ hm hd =>
        simp only [List.mem_cons, List.not_mem_nil, or_false] at hm
        rcases hm with rfl | rfl
        · cases hd
        · cases hd

end Evaluator
end Lisplet
