import Lisplet.Proofs.Repetition
/-!
# Work in scopes that cannot see each other

Evaluating a source in a scope reads what can be reached from there, by parents and by the closures that are bound on
the way, and of what was there before it writes in that scope only.  So where neither of two scopes can be reached from
the other, a run in the one finds all that it reads as it was, whether the run in the other came first or not, and the
order of the two does not matter.  They may have ancestors in common.

The scopes and closures that the runs make stand at other places when the order is turned round, and the relocation is
about the scopes that can be reached from where the run takes place.
-/
namespace Lisplet

variable {ε : Type}

/-! ## What can be reached -/

namespace Store

inductive Reach (s : Store ε) (env : ScopeId) : ScopeId → Prop where
  | refl : Reach s env env
  | parent {i p : ScopeId} {x : Scope ε} (hi : Reach s env i) (hx : s.scopes[i]? = some x) (hp : x.parent = some p) :
    Reach s env p
  | captured {i : ScopeId} {x : Scope ε} {name : String} {c : Closure} (hi : Reach s env i)
    (hx : s.scopes[i]? = some x) (hc : x.get? name = some (.closure c)) : Reach s env c.env

theorem leadsWithin_reach (s : Store ε) (env : ScopeId) : s.LeadsWithin (s.Reach env) :=
  ⟨fun _ _ _ hi hx hp => hi.parent hx hp, fun _ _ _ _ hi hx hc => hi.captured hx hc⟩

end Store

def Scope.links (x : Scope ε) : List ScopeId :=
  x.parent.toList ++ x.vars.filterMap fun b =>
    match b.2 with
    | .closure c => some c.env
    | _ => none

theorem Scope.mem_links_of_get? {x : Scope ε} {name : String} {c : Closure} (h : x.get? name = some (.closure c)) :
    c.env ∈ x.links := by
  obtain ⟨b, hb, he⟩ := Store.mem_of_find? h
  exact List.mem_append_right _ (List.mem_filterMap.2 ⟨b, hb, by rw [he]⟩)

/-- A scope to which no scope leads, such as one that has just been made, can be reached only from itself. -/
theorem Store.not_reach_of_links {s : Store ε} {env i : ScopeId} (h : ∀ x ∈ s.scopes.toList, i ∉ x.links)
    (hne : env ≠ i) : ¬ s.Reach env i := by
  intro hreach
  have hnone : ∀ (j : ScopeId) (x : Scope ε), s.scopes[j]? = some x → i ∉ x.links := fun j x hx =>
    h x (Array.mem_def.1 (Array.mem_of_getElem? hx))
  cases hreach with
  | refl => exact hne rfl
  | parent _ hx hp => exact hnone _ _ hx (List.mem_append_left _ (by simp [hp]))
  | captured _ hx hc => exact hnone _ _ hx (Scope.mem_links_of_get? hc)

/-! ## What is the same in two scopes -/

namespace Scope

variable [Named ε]

/-- The scopes bind the same names, to values of the same kind and text. -/
def Alike (x y : Scope ε) : Prop :=
  ∀ name, Option.Rel Value.Alike (x.get? name) (y.get? name)

theorem Alike.refl (x : Scope ε) : x.Alike x := by
  intro name
  cases x.get? name with
  | none => exact .none
  | some v => exact .some ⟨rfl, rfl⟩

theorem Alike.symm {x y : Scope ε} (h : x.Alike y) : y.Alike x := by
  intro name
  have hname := h name
  generalize x.get? name = v at hname ⊢
  generalize y.get? name = w at hname ⊢
  cases hname with
  | none => exact .none
  | some hv => exact .some ⟨hv.1.symm, hv.2.symm⟩

theorem Mirrors.alike {r : Relocation} {x y : Scope ε} (h : x.Mirrors r y) : x.Alike y := by
  intro name
  rw [h.get? name]
  cases x.get? name with
  | none => exact .none
  | some v => exact .some (v.alike_relocate r)

end Scope

def Store.AlikeUpTo [Named ε] (n : Nat) (s t : Store ε) : Prop :=
  ∀ i < n, ∃ x y, s.scopes[i]? = some x ∧ t.scopes[i]? = some y ∧ x.Alike y

/-! ## Two runs -/

namespace Evaluator

variable [Host ε]

theorem frame_executeFrom (ev : Evaluator) : ∀ (program : List Expr) (last : Value ε) (session : Session ε),
    session.store.Frame ev.env (fun _ => True) (ev.executeFrom last session program).answer.2.store
  | [], _, session => .refl session.store
  | form :: rest, last, session => by
    have hform := (Semantics.frame_closed ev.config.maxDepth).eval ev.depth form ev.env session
    rw [answer_executeFrom_cons]
    exact Semantics.frame_bind (hform.mono fun _ _ => trivial) fun v t => frame_executeFrom ev rest v t

/-- Of the scopes that were there before, a source changes none but the one in which it is evaluated. -/
theorem frame_evalSource (ev : Evaluator) (source : String) (session : Session ε) :
    session.store.Frame ev.env (fun _ => True) (ev.evalSource source session).session.store := by
  unfold evalSource
  cases parse source with
  | error e => exact .refl session.store
  | ok program => exact ev.frame_executeFrom program .null (session.record (.program program.length))

end Evaluator

section Commute

variable [Host ε] {session : Session ε} {a b : ScopeId}

/-- A source does behind another what it does without it, if the scope of the other cannot be reached from its own. -/
theorem mirrored_behind (hs : session.store.Whole) (ha : a < session.store.scopes.size)
    (hb : b < session.store.scopes.size) (hab : ¬ session.store.Reach a b) (source other : String) :
    Semantics.MirroredValue
      (session.store.relocation (evaluateIn other b session).session.store (session.store.Reach a))
      session (evaluateIn other b session).session
      (evaluateIn source a session).answer (evaluateIn source a (evaluateIn other b session).session).answer := by
  have hgrown := ((Evaluator.inScope b).whole_evalSource other hs hb).related
  have hframe := (Evaluator.inScope b).frame_evalSource other session
  have hagree := Store.agreesOn_of_frame (session.store.Reach a) hframe fun hreach => absurd hreach hab
  have hmirrors := hs.mirrors (session.store.leadsWithin_reach a) hagree hgrown
  have hrun := (Evaluator.inScope a).mirrored_evalSource (.inl Store.Reach.refl) source hmirrors
  have hplace : (session.store.relocation ((Evaluator.inScope b).evalSource other session).session.store
      (session.store.Reach a)).scope (Evaluator.inScope a).env = a := Store.scope_relocation ha
  rw [hplace] at hrun
  exact hrun

theorem own_alike (hs : session.store.Whole) (ha : a < session.store.scopes.size)
    (hb : b < session.store.scopes.size) (hab : ¬ session.store.Reach a b) (source other : String) :
    ∃ x y, (evaluateIn source a session).session.store.scopes[a]? = some x ∧
      (evaluateIn source a (evaluateIn other b session).session).session.store.scopes[a]? = some y ∧ x.Alike y := by
  have hrun := mirrored_behind hs ha hb hab source other
  obtain ⟨x, hx, _⟩ := ((Evaluator.inScope a).frame_evalSource source session).own _ (Array.getElem?_eq_getElem ha)
  obtain ⟨y, hy, hxy⟩ := hrun.store.scope a x (.inl .refl) hx
  rw [Store.scope_relocation ha] at hy
  exact ⟨x, y, hx, hy, hxy.alike⟩

theorem getElem?_evaluateIn_of_ne {i : ScopeId} {x : Scope ε} (source : String) (hi : i ≠ a)
    (hx : session.store.scopes[i]? = some x) : (evaluateIn source a session).session.store.scopes[i]? = some x :=
  ((Evaluator.inScope a).frame_evalSource source session).others i x hi hx

/-- **The order does not matter**: each of the sources comes to the same whether it is evaluated first or behind the
other, and the scopes that were there before are alike in the end. -/
structure Commute (session : Session ε) (source : String) (a : ScopeId) (other : String) (b : ScopeId) : Prop where
  first : Outcome.SameFrom session (evaluateIn other b session).session
    (evaluateIn source a session) (evaluateIn source a (evaluateIn other b session).session)
  second : Outcome.SameFrom session (evaluateIn source a session).session
    (evaluateIn other b session) (evaluateIn other b (evaluateIn source a session).session)
  scopes : Store.AlikeUpTo session.store.scopes.size
    (evaluateIn other b (evaluateIn source a session).session).session.store
    (evaluateIn source a (evaluateIn other b session).session).session.store

/-- **Independent evaluations commute**: in a whole store, two sources are evaluated to the same end in either order, if
neither of the scopes in which they are evaluated can be reached from the other. -/
theorem commute_of_not_reach (hs : session.store.Whole) (ha : a < session.store.scopes.size)
    (hb : b < session.store.scopes.size) (hab : ¬ session.store.Reach a b) (hba : ¬ session.store.Reach b a)
    (source other : String) : Commute session source a other b := by
  have hne : a ≠ b := fun he => hab (he ▸ .refl)
  have hfirst := mirrored_behind hs ha hb hab source other
  have hsecond := mirrored_behind hs hb ha hba other source
  refine ⟨hfirst.sameFrom, hsecond.sameFrom, fun i hi => ?_⟩
  by_cases hia : i = a
  · subst hia
    obtain ⟨x, y, hx, hy, hxy⟩ := own_alike hs ha hb hab source other
    exact ⟨x, y, getElem?_evaluateIn_of_ne other hne hx, hy, hxy⟩
  · by_cases hib : i = b
    · subst hib
      obtain ⟨x, y, hx, hy, hxy⟩ := own_alike hs hb ha hba other source
      exact ⟨y, x, hy, getElem?_evaluateIn_of_ne source hne.symm hx, hxy.symm⟩
    · -- none of the four runs writes here
      have hold : session.store.scopes[i]? = some session.store.scopes[i] := Array.getElem?_eq_getElem hi
      exact ⟨_, _, getElem?_evaluateIn_of_ne other hib (getElem?_evaluateIn_of_ne source hia hold),
        getElem?_evaluateIn_of_ne source hia (getElem?_evaluateIn_of_ne other hib hold), .refl _⟩

/-- Two scopes inside one, in which a closure is bound that both of them call. -/
theorem commute_siblings :
    ∃ w : World Empty,
      w.session.store.bindings 1 = [("same", .closure ⟨0, ["n"], .symbol "n", 1⟩)] ∧
      w.session.store.scopes.toList.map Scope.parent = [none, some 0, some 1, some 1] ∧
      Commute w.session "(define f (lambda (n) (same n))) (f 1)" 2 "(define f (same 5)) (f 1)" 3 := by
  have hfresh : World.Reachable _ := .step .empty (.fresh (ε := Empty))
  have hshared := (hfresh.step (.closure ["n"] (.symbol "n") List.mem_cons_self)).step
    (.define "same" List.mem_cons_self (.inl List.mem_cons_self))
  have hreach := (hshared.step (.child List.mem_cons_self)).step (.child (List.mem_cons_of_mem _ List.mem_cons_self))
  have hwhole := World.whole_of_reachable hreach
  refine ⟨_, rfl, rfl, commute_of_not_reach hwhole.store (hwhole.handles 2 ?_) (hwhole.handles 3 ?_) ?_ ?_ _ _⟩
  · exact List.mem_cons_of_mem _ List.mem_cons_self
  · exact List.mem_cons_self
  · exact Store.not_reach_of_links (by decide) (by decide)
  · exact Store.not_reach_of_links (by decide) (by decide)

end Commute
end Lisplet
