import Lisplet.Evaluator.Lemmas
import Lisplet.Proofs.Lineage
import Mathlib.Data.List.Induction
/-!
# Hosts and their scopes

A host makes scopes and closures, binds names, and has sources, expressions and values evaluated, in any order, with what
it was given before: `World.Step` lists what it can do, and a `World` is what it has come to hold, beside the session.
The world also keeps, for every root, the tools that were registered in the registry from which the root was made.

However it goes about it, it never gets hold of a root, and so it can shadow the tools there and not replace them.  A
registry has no order: a root may be made from any arrangement of its tools.
-/
namespace Lisplet

variable {ε : Type}

/-! ## Registries -/

namespace Registry

variable [Named ε]

def ofTools (registered : List (Tool ε)) : Registry ε :=
  registered.foldl (fun r tool => r.register tool) .empty

def lastNamed (registered : List (Tool ε)) (name : String) : Option (Tool ε) :=
  registered.reverse.find? (·.name = name)

def operators : List (Tool ε) :=
  Operator.all.map .operator

theorem ofTools_operators : ofTools (ε := ε) operators = .standard := by
  simp [ofTools, operators, standard, empty, register, Operator.all, Tool.name, Operator.spelling]

theorem ofTools_concat (registered : List (Tool ε)) (tool : Tool ε) :
    ofTools (registered ++ [tool]) = (ofTools registered).register tool := by
  rw [ofTools, List.foldl_append]
  rfl

theorem lastNamed_concat (registered : List (Tool ε)) (tool : Tool ε) (name : String) :
    lastNamed (registered ++ [tool]) name = if tool.name = name then some tool else lastNamed registered name := by
  rw [lastNamed, List.reverse_append, List.reverse_singleton, List.singleton_append, List.find?_cons]
  by_cases h : tool.name = name
  · simp [h]
  · simp [h, lastNamed]

/-- **A registry has the tool last registered under each name**, and no other. -/
theorem mem_ofTools {tool : Tool ε} (registered : List (Tool ε)) :
    tool ∈ (ofTools registered).tools ↔ lastNamed registered tool.name = some tool := by
  induction registered using List.reverseRecOn with
  | nil => simp [ofTools, empty, lastNamed]
  | append_singleton registered last ih =>
    rw [ofTools_concat, lastNamed_concat, register, List.mem_append, List.mem_filter, ih, List.mem_singleton]
    by_cases h : last.name = tool.name
    · simp [h, eq_comm]
    · have hne : tool ≠ last := fun he => h (by rw [he])
      simp [h, hne, Ne.symm h]

theorem nodup_names_ofTools (registered : List (Tool ε)) : ((ofTools registered).tools.map Tool.name).Nodup := by
  induction registered using List.reverseRecOn with
  | nil => exact .nil
  | append_singleton registered last ih =>
    rw [ofTools_concat, register, List.map_append, List.map_singleton]
    refine List.nodup_append.2 ⟨?_, List.pairwise_singleton _ _, ?_⟩
    · exact ih.sublist (List.filter_sublist.map _)
    · intro name hname other hother
      obtain ⟨t, ht, rfl⟩ := List.mem_map.1 hname
      rw [List.mem_singleton.1 hother]
      simpa using (List.mem_filter.1 ht).2

end Registry

theorem Bindings.find?_eq_some_iff {name : String} {v : Value ε} :
    ∀ {bs : Bindings ε}, (bs.map Prod.fst).Nodup → (bs.find? name = some v ↔ (name, v) ∈ bs)
  | [], _ => by simp [find?]
  | b :: rest, h => by
    rw [List.map_cons, List.nodup_cons] at h
    rw [find?, List.mem_cons]
    by_cases hb : b.1 = name
    · have hrest : (name, v) ∉ rest := fun hm => h.1 (List.mem_map.2 ⟨_, hm, hb.symm⟩)
      rw [if_pos hb, or_iff_left hrest, Option.some_inj]
      exact ⟨fun hv => by rw [← hb, ← hv], fun he => by rw [← he]⟩
    · have hne : (name, v) ≠ b := fun he => hb (by rw [← he])
      rw [if_neg hb, find?_eq_some_iff h.2, or_iff_right hne]

/-- **The scope binds just the names of the registered tools**, each once and to the tool last registered under it. -/
structure Scope.BindsTools [Named ε] (scope : Scope ε) (registered : List (Tool ε)) : Prop where
  get? : ∀ name, scope.get? name = (Registry.lastNamed registered name).map .builtin
  nodup : (scope.vars.map Prod.fst).Nodup

theorem Scope.bindsTools_of_perm [Named ε] {registered : List (Tool ε)} {tools : List (Tool ε)}
    (h : tools.Perm (Registry.ofTools registered).tools) (parent : Option ScopeId) :
    Scope.BindsTools ⟨tools.map fun t => (t.name, .builtin t), parent⟩ registered := by
  have hnodup : ((tools.map fun t => (t.name, Value.builtin t)).map Prod.fst).Nodup := by
    rw [List.map_map]
    exact (h.map Tool.name).nodup_iff.2 (Registry.nodup_names_ofTools registered)
  refine ⟨fun name => Option.ext fun v => ?_, hnodup⟩
  rw [Scope.get?, Bindings.find?_eq_some_iff hnodup, List.mem_map, Option.map_eq_some_iff]
  constructor
  · rintro ⟨t, ht, he⟩
    cases he
    exact ⟨t, (Registry.mem_ofTools registered).1 (h.mem_iff.1 ht), rfl⟩
  · rintro ⟨t, ht, rfl⟩
    have hname : t.name = name := by simpa using List.find?_some ht
    refine ⟨t, h.mem_iff.2 ((Registry.mem_ofTools registered).2 ?_), by rw [hname]⟩
    rwa [hname]

/-! ## What a host can do -/

/-- **A host and its session**: the scopes and the values that it has been given, and for each root the tools registered
in what it was made from. -/
structure World (ε : Type) where
  session : Session ε
  handles : List ScopeId
  values : List (Value ε)
  roots : List (ScopeId × List (Tool ε))

namespace World

def empty : World ε := ⟨.empty, [], [], []⟩

def withStore (w : World ε) (store : Store ε) : World ε :=
  { w with session := { w.session with store } }

def holding (w : World ε) (env : ScopeId) : World ε :=
  { w with handles := env :: w.handles }

def given (w : World ε) (v : Value ε) : World ε :=
  { w with values := v :: w.values }

/-- A scope has been made inside a new root, the first scope behind all others. -/
def rooted (w : World ε) (registered : List (Tool ε)) (made : ScopeId × Store ε) : World ε :=
  { (w.withStore made.2).holding made.1 with roots := (w.session.store.scopes.size, registered) :: w.roots }

def after (w : World ε) (o : Outcome ε) : World ε :=
  match o.result with
  | .ok v => { w with session := o.session, values := v :: w.values }
  | .error _ => { w with session := o.session }

/-- The host can come by the value: it was given it, or it is no closure. -/
def Has (w : World ε) (v : Value ε) : Prop :=
  v ∈ w.values ∨ ∀ c, v ≠ .closure c

variable [Host ε]

/-- **What a host can do** with the scopes and the values that it holds. -/
inductive Step : World ε → World ε → Prop where
  | ofRegistry {w : World ε} (registered : List (Tool ε)) (r : Registry ε)
    (hr : r.tools.Perm (Registry.ofTools registered).tools) :
    Step w (w.rooted registered (w.session.store.ofRegistry r))
  | fresh {w : World ε} : Step w (w.rooted Registry.operators w.session.store.fresh)
  | ofBindings {w : World ε} (bs : List (String × Value ε)) (hbs : ∀ b ∈ bs, w.Has b.2) :
    Step w (w.rooted Registry.operators (w.session.store.ofBindings bs))
  | child {w : World ε} {env : ScopeId} (henv : env ∈ w.handles) :
    Step w ((w.withStore (w.session.store.child env).2).holding (w.session.store.child env).1)
  | clone {w : World ε} {env : ScopeId} (henv : env ∈ w.handles) : Step w (w.holding env)
  | capture {w : World ε} {c : Closure} (hc : .closure c ∈ w.values) : Step w (w.holding c.env)
  | get {w : World ε} {env : ScopeId} {name : String} {v : Value ε} (henv : env ∈ w.handles)
    (hv : w.session.store.get? env name = some v) : Step w (w.given v)
  | define {w : World ε} {env : ScopeId} {v : Value ε} (name : String) (henv : env ∈ w.handles) (hv : w.Has v) :
    Step w (w.withStore (w.session.store.define env name v))
  | closure {w : World ε} {env : ScopeId} (params : List String) (body : Expr) (henv : env ∈ w.handles) :
    Step w ((w.withStore (w.session.store.newClosure params body env).2).given
      (.closure (w.session.store.newClosure params body env).1))
  | evalSource {w : World ε} (ev : Evaluator) (source : String) (henv : ev.env ∈ w.handles) :
    Step w (w.after (ev.evalSource source w.session))
  | evaluateIn {w : World ε} {env : ScopeId} (source : String) (henv : env ∈ w.handles) :
    Step w (w.after (Lisplet.evaluateIn source env w.session))
  | evaluate {w : World ε} {env : ScopeId} (ev : Evaluator) (e : Expr) (henv : env ∈ w.handles) :
    Step w (w.after (ev.evaluate e env w.session))
  | execute {w : World ε} (ev : Evaluator) (program : List Expr) (henv : ev.env ∈ w.handles) :
    Step w (w.after (ev.execute program w.session))
  | apply {w : World ε} (ev : Evaluator) (name : String) {callee : Value ε} {args : List (Value ε)}
    (hcallee : w.Has callee) (hargs : ∀ a ∈ args, w.Has a) : Step w (w.after (ev.apply name callee args w.session))

inductive Reachable : World ε → Prop where
  | empty : Reachable .empty
  | step {w w' : World ε} (h : Reachable w) (hs : Step w w') : Reachable w'

/-! ## What every step keeps -/

structure Sound (w : World ε) : Prop where
  store : w.session.store.Sound
  handles : ∀ env ∈ w.handles, w.session.store.Inner env
  values : ∀ v ∈ w.values, v.ScopedIn w.session.store
  built : ∀ x ∈ w.roots, ∃ scope, w.session.store.scopes[x.1]? = some scope ∧ scope.parent = none ∧ scope.BindsTools x.2
  rooted : ∀ i, w.session.store.IsRoot i → ∃ registered, (i, registered) ∈ w.roots

variable {w : World ε}

theorem Sound.empty : (World.empty : World ε).Sound where
  store := ⟨fun i scope p hs => by simp [World.empty, Session.empty, Store.empty] at hs,
    fun i scope b hs => by simp [World.empty, Session.empty, Store.empty] at hs⟩
  handles env henv := by cases henv
  values v hv := by cases hv
  built x hx := by cases hx
  rooted i hi := by
    obtain ⟨scope, hs, _⟩ := hi
    simp [World.empty, Session.empty, Store.empty] at hs

theorem Sound.has (h : w.Sound) {v : Value ε} (hv : w.Has v) : v.ScopedIn w.session.store := by
  rcases hv with hv | hv
  · exact h.values v hv
  · exact fun c hc => absurd hc (hv c)

theorem Sound.grow (h : w.Sound) {session : Session ε} (hs : session.store.Sound)
    (hg : w.session.store.Grows session.store) : Sound { w with session } where
  store := hs
  handles env henv := (h.handles env henv).grow hg
  values v hv := (h.values v hv).grow hg
  built x hx := by
    obtain ⟨scope, hscope, hroot, hbinds⟩ := h.built x hx
    obtain ⟨scope', hscope', _, heq⟩ := hg.kept x.1 scope hscope
    rw [heq hroot] at hscope'
    exact ⟨scope, hscope', hroot, hbinds⟩
  rooted i hi := by
    obtain ⟨scope, hscope, hroot⟩ := hi
    exact h.rooted i ⟨scope, hg.roots i scope hscope hroot, hroot⟩

theorem Sound.withStore (h : w.Sound) {store : Store ε} (hs : store.Sound) (hg : w.session.store.Grows store) :
    (w.withStore store).Sound :=
  h.grow hs hg

theorem Sound.holding (h : w.Sound) {env : ScopeId} (henv : w.session.store.Inner env) : (w.holding env).Sound where
  store := h.store
  handles other hother := by
    rcases List.mem_cons.1 hother with rfl | hother
    · exact henv
    · exact h.handles other hother
  values := h.values
  built := h.built
  rooted := h.rooted

theorem Sound.given (h : w.Sound) {v : Value ε} (hv : v.ScopedIn w.session.store) : (w.given v).Sound where
  store := h.store
  handles := h.handles
  values other hother := by
    rcases List.mem_cons.1 hother with rfl | hother
    · exact hv
    · exact h.values other hother
  built := h.built
  rooted := h.rooted

theorem Sound.after (h : w.Sound) {o : Outcome ε} (ho : Semantics.KeptSound Value.ScopedIn w.session o.answer) :
    (w.after o).Sound := by
  have hgrown := h.grow ho.invariant ho.related
  unfold World.after
  split
  · next v hv => exact hgrown.given (ho.value v hv)
  · exact hgrown

end World

/-! ## New roots -/

namespace Store

variable {s : Store ε} {scope : Scope ε}

theorem Inner.alloc {i : ScopeId} (h : s.Inner i) : (s.alloc scope).2.Inner i := by
  obtain ⟨old, p, hold, hp⟩ := h
  exact ⟨old, p, getElem?_alloc_of_some hold, hp⟩

theorem Sound.allocRoot (h : s.Sound) (hroot : scope.parent = none) (hvars : ∀ b ∈ scope.vars, ∀ c, b.2 ≠ .closure c) :
    (s.alloc scope).2.Sound where
  parent_lt i other p hi hp := by
    rw [getElem?_alloc] at hi
    split at hi
    · cases hi
      cases hroot.symm.trans hp
    · exact h.parent_lt i other p hi hp
  captured i other b hi hb := by
    rw [getElem?_alloc] at hi
    split at hi
    · cases hi
      exact fun c hc => absurd hc (hvars b hb c)
    · exact fun c hc => (h.captured i other b hi hb c hc).alloc

end Store

/-! ## Evaluators -/

namespace Evaluator

open Semantics (KeptSound)

variable [Host ε] {session : Session ε}

theorem sound_evaluate (hosts : Host.KeepsScopes ε) (ev : Evaluator) (e : Expr) {env : ScopeId}
    (hs : session.store.Sound) (henv : session.store.Inner env) :
    KeptSound Value.ScopedIn session (ev.evaluate e env session).answer := by
  rw [answer_evaluate]
  exact (Semantics.sound_closed hosts ev.config.maxDepth).eval ev.depth e env session hs henv

theorem sound_executeFrom (hosts : Host.KeepsScopes ε) (ev : Evaluator) (program : List Expr) {last : Value ε}
    (hs : session.store.Sound) (henv : session.store.Inner ev.env) (hlast : last.ScopedIn session.store) :
    KeptSound Value.ScopedIn session (ev.executeFrom last session program).answer := by
  induction program generalizing last session with
  | nil => exact .ok hs (.refl _) hlast
  | cons form rest ih =>
    rw [answer_executeFrom_cons]
    refine ((Semantics.sound_closed hosts ev.config.maxDepth).eval ev.depth form ev.env session hs henv).bind .trans ?_
    exact fun v t ht hg hv => ih ht (henv.grow hg) hv

theorem sound_execute (hosts : Host.KeepsScopes ε) (ev : Evaluator) (program : List Expr)
    (hs : session.store.Sound) (henv : session.store.Inner ev.env) :
    KeptSound Value.ScopedIn session (ev.execute program session).answer := by
  have hrun : KeptSound Value.ScopedIn (session.record (.program program.length)) (ev.execute program session).answer :=
    ev.sound_executeFrom hosts program hs henv fun c hc => by cases hc
  exact ⟨hrun.invariant, hrun.related, hrun.value, hrun.cause⟩

theorem sound_evalSource (hosts : Host.KeepsScopes ε) (ev : Evaluator) (source : String)
    (hs : session.store.Sound) (henv : session.store.Inner ev.env) :
    KeptSound Value.ScopedIn session (ev.evalSource source session).answer := by
  unfold evalSource
  cases parse source with
  | error e => exact .error hs (.refl _) trivial
  | ok program => exact ev.sound_execute hosts program hs henv

theorem sound_apply (hosts : Host.KeepsScopes ε) (ev : Evaluator) (name : String) {callee : Value ε}
    {args : List (Value ε)} (hs : session.store.Sound) (hcallee : callee.ScopedIn session.store)
    (hargs : ∀ a ∈ args, a.ScopedIn session.store) :
    KeptSound Value.ScopedIn session (ev.apply name callee args session).answer := by
  rw [apply_eq]
  cases hc : callee.callable? with
  | none => exact .error hs (.refl _) trivial
  | some callable =>
    exact (Semantics.sound_closed hosts ev.config.maxDepth).apply ev.depth name callable args session hs
      (Value.scopedIn_of_callable? hcallee hc) hargs

end Evaluator

namespace World

variable [Host ε] {w w' : World ε}

theorem Sound.allocRoot (h : w.Sound) {root : Scope ε} {registered : List (Tool ε)} (hroot : root.parent = none)
    (hbinds : root.BindsTools registered) (hvars : ∀ b ∈ root.vars, ∀ c, b.2 ≠ .closure c) :
    Sound { w.withStore (w.session.store.alloc root).2 with
      roots := (w.session.store.scopes.size, registered) :: w.roots } where
  store := h.store.allocRoot hroot hvars
  handles env henv := (h.handles env henv).alloc
  values v hv c hc := (h.values v hv c hc).alloc
  built x hx := by
    rcases List.mem_cons.1 hx with rfl | hx
    · exact ⟨root, (Store.getElem?_alloc ..).trans (if_pos rfl), hroot, hbinds⟩
    · obtain ⟨scope, hscope, hparent, hb⟩ := h.built x hx
      exact ⟨scope, Store.getElem?_alloc_of_some hscope, hparent, hb⟩
  rooted i hi := by
    obtain ⟨scope, hscope, hparent⟩ := hi
    have hi : (w.session.store.alloc root).2.scopes[i]? = some scope := hscope
    rw [Store.getElem?_alloc] at hi
    split at hi
    · next he => exact ⟨registered, by rw [he]; exact List.mem_cons_self⟩
    · obtain ⟨other, hmem⟩ := h.rooted i ⟨scope, hi, hparent⟩
      exact ⟨other, List.mem_cons_of_mem _ hmem⟩

theorem Sound.ofRegistry (h : w.Sound) {registered : List (Tool ε)} {r : Registry ε}
    (hr : r.tools.Perm (Registry.ofTools registered).tools) :
    (w.rooted registered (w.session.store.ofRegistry r)).Sound := by
  have hbinds := Scope.bindsTools_of_perm hr none
  have hplanted := h.allocRoot rfl hbinds fun b hb c hc => by
    obtain ⟨t, _, rfl⟩ := List.mem_map.1 hb
    cases hc
  -- the scope that the host is given lies inside the new root
  have hlt := w.session.store.lt_size_alloc ⟨r.tools.map fun t => (t.name, .builtin t), none⟩
  have hgrown := hplanted.withStore (Store.sound_child hplanted.store hlt) (Store.grows_child _ _)
  exact hgrown.holding (Store.inner_child _ _)

theorem Sound.fresh (h : w.Sound) : (w.rooted Registry.operators w.session.store.fresh).Sound := by
  refine h.ofRegistry ?_
  rw [Registry.ofTools_operators]

theorem Sound.ofBindings (h : w.Sound) {bs : List (String × Value ε)} (hbs : ∀ b ∈ bs, w.Has b.2) :
    (w.rooted Registry.operators (w.session.store.ofBindings bs)).Sound := by
  have hfresh := h.fresh
  obtain ⟨hsound, hgrows⟩ := Store.defineAll_sound bs w.session.store.fresh.2 hfresh.store
    (hfresh.handles _ List.mem_cons_self) fun b hb => hfresh.has (hbs b hb)
  exact hfresh.withStore hsound hgrows

/-- **Every step keeps the world sound.** -/
theorem Sound.step (hosts : Host.KeepsScopes ε) (h : w.Sound) (hs : Step w w') : w'.Sound := by
  cases hs with
  | ofRegistry registered r hr => exact h.ofRegistry hr
  | fresh => exact h.fresh
  | ofBindings bs hbs => exact h.ofBindings hbs
  | @child env henv =>
    have hlt := (h.handles env henv).lt_size
    exact (h.withStore (Store.sound_child h.store hlt) (Store.grows_child _ _)).holding (Store.inner_child _ _)
  | clone henv => exact h.holding (h.handles _ henv)
  | capture hc => exact h.holding (h.values _ hc _ rfl)
  | get henv hv => exact h.given (h.store.scopedIn_get? hv)
  | define name henv hv =>
    have hinner := h.handles _ henv
    exact h.withStore (Store.sound_define h.store hinner (h.has hv)) (Store.grows_define hinner)
  | @closure env params body henv =>
    have hgrown : (w.withStore (w.session.store.newClosure params body env).2).Sound :=
      h.withStore (h.store.of_scopes_eq rfl) (.of_scopes_eq rfl)
    exact hgrown.given fun c hc => by cases hc; exact hgrown.handles env henv
  | evalSource ev source henv => exact h.after (ev.sound_evalSource hosts source h.store (h.handles _ henv))
  | @evaluateIn env source henv =>
    exact h.after ((Evaluator.inScope env).sound_evalSource hosts source h.store (h.handles _ henv))
  | evaluate ev e henv => exact h.after (ev.sound_evaluate hosts e h.store (h.handles _ henv))
  | execute ev program henv => exact h.after (ev.sound_execute hosts program h.store (h.handles _ henv))
  | apply ev name hcallee hargs =>
    exact h.after (ev.sound_apply hosts name h.store (h.has hcallee) fun a ha => h.has (hargs a ha))

theorem sound_of_reachable (hosts : Host.KeepsScopes ε) (h : Reachable w) : w.Sound := by
  induction h with
  | empty => exact .empty
  | step _ hs ih => exact ih.step hosts hs

/-! ## Every world -/

structure WellFormed (w : World ε) : Prop where
  -- every parent is older than its children
  older : ∀ (i : ScopeId) (scope : Scope ε) (p : ScopeId), w.session.store.scopes[i]? = some scope →
    scope.parent = some p → p < i
  -- every scope has a lineage, which ends in its only root, and that is what is searched and counted
  lineage : ∀ i, i < w.session.store.scopes.size → ∃ path root, w.session.store.Lineage i path ∧
    path.getLast? = some root ∧ w.session.store.IsRoot root ∧ (∀ j ∈ path, w.session.store.IsRoot j → j = root) ∧
    w.session.store.depth i = path.length ∧
    ∀ name, w.session.store.get? i name = path.findSome? fun j => (w.session.store.bindings j).find? name
  -- the scopes that the host holds are inner ones
  handles : ∀ env ∈ w.handles, w.session.store.Inner env ∧ 2 ≤ w.session.store.depth env
  -- and so are those under the closures that are bound anywhere
  stored : ∀ (i : ScopeId) (scope : Scope ε) (name : String) (c : Closure), w.session.store.scopes[i]? = some scope →
    (name, .closure c) ∈ scope.vars → w.session.store.Inner c.env ∧ 2 ≤ w.session.store.depth c.env
  -- and those under the closures that the host was given
  returned : ∀ c, .closure c ∈ w.values → w.session.store.Inner c.env ∧ 2 ≤ w.session.store.depth c.env
  -- every root was made from a registry and still binds just its tools
  roots : ∀ i, w.session.store.IsRoot i → ∃ registered, (i, registered) ∈ w.roots
  built : ∀ x ∈ w.roots, ∃ scope, w.session.store.scopes[x.1]? = some scope ∧ scope.parent = none ∧ scope.BindsTools x.2

/-- **Whatever a host does, its world stays well-formed.** -/
theorem wellFormed_of_reachable (hosts : Host.KeepsScopes ε) (h : Reachable w) : w.WellFormed := by
  have hw := sound_of_reachable hosts h
  refine ⟨hw.store.parent_lt, fun i hi => ?_, fun env henv => ?_, fun i scope name c hs hb => ?_, fun c hc => ?_,
    hw.rooted, hw.built⟩
  · have hl := hw.store.lineage_chain i hi
    obtain ⟨root, hlast, hroot, honly⟩ := hl.exists_root
    exact ⟨_, root, hl, hlast, hroot, honly, rfl, fun name => Store.get?_eq_findSome? _ i name⟩
  · have hinner := hw.handles env henv
    exact ⟨hinner, hw.store.two_le_depth hinner⟩
  · have hinner := hw.store.captured i scope _ hs hb c rfl
    exact ⟨hinner, hw.store.two_le_depth hinner⟩
  · have hinner := hw.values _ hc c rfl
    exact ⟨hinner, hw.store.two_le_depth hinner⟩

/-- A closure bound in the scope that it is over, a probe in the place of addition that hands it back, and a call of it
that fails. -/
theorem wellFormed_selfReference :
    ∃ w : World Probe, w.session.store.bindings 1 = [("f", .closure ⟨0, ["x"], .symbol "f", 1⟩)] ∧
      w.roots = [(0, Registry.operators ++ [.host ⟨"+", "first"⟩])] ∧
      (w.after ((Evaluator.inScope 1).evalSource "(+ f 1)(f)" w.session)).WellFormed := by
  have hmade : Reachable _ :=
    .step .empty (.ofRegistry (Registry.operators ++ [.host (⟨"+", "first"⟩ : Probe)]) (.ofTools _) (.refl _))
  have hclosed := hmade.step (.closure ["x"] (.symbol "f") List.mem_cons_self)
  have hdefined := hclosed.step (.define "f" List.mem_cons_self (.inl List.mem_cons_self))
  exact ⟨_, rfl, rfl, wellFormed_of_reachable Probe.keepsScopes
    (hdefined.step (.evalSource (.inScope 1) "(+ f 1)(f)" List.mem_cons_self))⟩

end World
end Lisplet
