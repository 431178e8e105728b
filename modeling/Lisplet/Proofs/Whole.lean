import Lisplet.Proofs.Frame
import Lisplet.Proofs.World
/-!
# Whole stores

A store is whole if nothing in it points out of it: parents are older than their children, closures are over scopes that
are there, and the numbers that tell closures apart have been given out.  Its tools are the operators.

Evaluation keeps a store whole and only adds to it (`whole_closed`), and so does a host without tools of its own, whatever
it does (`World.whole_of_reachable`).
-/
namespace Lisplet

variable {ε : Type}

/-! ## Values without tools of the host -/

/-- The value is no tool of the host, and if it is a closure, it is as `ok` says. -/
def Value.Standard (ok : Closure → Prop) : Value ε → Prop
  | .closure c => ok c
  | .builtin (.host _) => False
  | _ => True

def Callable.Standard (ok : Closure → Prop) : Callable ε → Prop
  | .closure c => ok c
  | .builtin (.host _) => False
  | .builtin (.operator _) => True

theorem Value.Standard.mono {ok ok' : Closure → Prop} {v : Value ε} (h : v.Standard ok)
    (hok : ∀ c, v = .closure c → ok c → ok' c) : v.Standard ok' := by
  cases v with
  | closure c => exact hok c rfl h
  | builtin tool =>
    cases tool with
    | operator op => trivial
    | host tool => exact h
  | null | bool | num | symbol => trivial

theorem Callable.Standard.mono {ok ok' : Closure → Prop} {callee : Callable ε} (h : callee.Standard ok)
    (hok : ∀ c, ok c → ok' c) : callee.Standard ok' := by
  cases callee with
  | closure c => exact hok c h
  | builtin tool =>
    cases tool with
    | operator op => trivial
    | host tool => exact h

theorem Value.Standard.callable? {ok : Closure → Prop} {v : Value ε} {callee : Callable ε} (h : v.Standard ok)
    (hc : v.callable? = some callee) : callee.Standard ok := by
  cases v with
  | closure c => cases hc; exact h
  | builtin tool =>
    cases hc
    cases tool with
    | operator op => trivial
    | host tool => exact h
  | null | bool | num | symbol => cases hc

theorem Operator.standard_run [Named ε] {ok : Closure → Prop} {op : Operator} {args : List (Value ε)} {v : Value ε}
    (h : op.run args = .ok v) : v.Standard ok := by
  rcases run_eq_ok h with ⟨n, rfl⟩ | ⟨b, rfl⟩
  · trivial
  · trivial

/-! ## Stores -/

def Closure.StandsIn (s : Store ε) (c : Closure) : Prop :=
  c.env < s.scopes.size ∧ c.id < s.closures

def Value.StandsIn (s : Store ε) (v : Value ε) : Prop :=
  v.Standard (Closure.StandsIn s)

namespace Store

/-- **Nothing points out of the store**, and its tools are the operators. -/
structure Whole (s : Store ε) : Prop where
  parent_lt : ∀ (i : ScopeId) (x : Scope ε) (p : ScopeId), s.scopes[i]? = some x → x.parent = some p → p < i
  bound : s.Binds fun _ _ v => v.StandsIn s

structure Grown (s t : Store ε) : Prop where
  scopes : s.scopes.size ≤ t.scopes.size
  closures : s.closures ≤ t.closures

variable {s t u : Store ε}

theorem Grown.refl (s : Store ε) : s.Grown s :=
  ⟨Nat.le_refl _, Nat.le_refl _⟩

theorem Grown.trans (h : s.Grown t) (h' : t.Grown u) : s.Grown u :=
  ⟨Nat.le_trans h.scopes h'.scopes, Nat.le_trans h.closures h'.closures⟩

theorem grown_define (s : Store ε) (env : ScopeId) (name : String) (v : Value ε) : s.Grown (s.define env name v) :=
  ⟨by simp [define], Nat.le_refl _⟩

theorem grown_alloc (s : Store ε) (x : Scope ε) : s.Grown (s.alloc x).2 :=
  ⟨by simp [alloc], Nat.le_refl _⟩

theorem grown_newClosure (s : Store ε) (params : List String) (body : Expr) (env : ScopeId) :
    s.Grown (s.newClosure params body env).2 :=
  ⟨Nat.le_refl _, Nat.le_succ _⟩

end Store

theorem Closure.StandsIn.grow {s t : Store ε} {c : Closure} (h : c.StandsIn s) (hg : s.Grown t) : c.StandsIn t :=
  ⟨Nat.lt_of_lt_of_le h.1 hg.scopes, Nat.lt_of_lt_of_le h.2 hg.closures⟩

theorem Value.StandsIn.grow {s t : Store ε} {v : Value ε} (h : v.StandsIn s) (hg : s.Grown t) : v.StandsIn t :=
  h.mono fun _ _ hc => hc.grow hg

/-! ## What is done to a store -/

namespace Store.Whole

variable {s : Store ε}

theorem empty : (Store.empty : Store ε).Whole :=
  ⟨fun i x p hx => by simp [Store.empty] at hx, .empty⟩

theorem bound_grow {t : Store ε} (h : s.Whole) (hg : s.Grown t) : s.Binds fun _ _ v => v.StandsIn t :=
  h.bound.mono fun _ _ _ hv => hv.grow hg

theorem define (h : s.Whole) (env : ScopeId) (name : String) {v : Value ε} (hv : v.StandsIn s) :
    (s.define env name v).Whole := by
  have hg := s.grown_define env name v
  refine ⟨fun i x p hx hp => ?_, (h.bound_grow hg).define (hv.grow hg)⟩
  rw [getElem?_define] at hx
  split at hx
  · obtain ⟨old, hold, rfl⟩ := Option.map_eq_some_iff.1 hx
    exact h.parent_lt i old p hold hp
  · exact h.parent_lt i x p hx hp

theorem alloc (h : s.Whole) {x : Scope ε} (hp : ∀ p, x.parent = some p → p < s.scopes.size)
    (hv : ∀ name v, x.get? name = some v → v.StandsIn s) : (s.alloc x).2.Whole := by
  have hg := s.grown_alloc x
  refine ⟨fun i y p hy hpar => ?_, (h.bound_grow hg).alloc fun name v hget => (hv name v hget).grow hg⟩
  rw [getElem?_alloc] at hy
  split at hy
  · next he =>
    cases hy
    rw [he]
    exact hp p hpar
  · exact h.parent_lt i y p hy hpar

theorem child (h : s.Whole) {env : ScopeId} (henv : env < s.scopes.size) : (s.child env).2.Whole := by
  refine h.alloc (fun p hp => ?_) fun name v hv => ?_
  · cases hp
    exact henv
  · cases hv

theorem newClosure (h : s.Whole) (params : List String) (body : Expr) (env : ScopeId) :
    (s.newClosure params body env).2.Whole :=
  ⟨h.parent_lt, h.bound_grow (s.grown_newClosure params body env)⟩

theorem defineAll (env : ScopeId) : ∀ (bs : List (String × Value ε)) {s : Store ε}, s.Whole →
    (∀ b ∈ bs, b.2.StandsIn s) → (s.defineAll env bs).Whole ∧ s.Grown (s.defineAll env bs)
  | [], s, h, _ => ⟨h, .refl s⟩
  | b :: bs, s, h, hbs => by
    have hg := s.grown_define env b.1 b.2
    obtain ⟨hwhole, hgrown⟩ := defineAll env bs (h.define env b.1 (hbs b List.mem_cons_self))
      fun b' hb' => (hbs b' (List.mem_cons_of_mem _ hb')).grow hg
    exact ⟨hwhole, hg.trans hgrown⟩

theorem standsIn_get? (h : s.Whole) {env : ScopeId} {name : String} {v : Value ε} (hv : s.get? env name = some v) :
    v.StandsIn s := by
  obtain ⟨_, hstands⟩ := h.bound.get? hv
  exact hstands

theorem standsIn_resolve (h : s.Whole) {env : ScopeId} {name : String} {v : Value ε}
    (hv : s.resolve env name = .ok v) : v.StandsIn s := by
  obtain ⟨_, _, hstands, _⟩ := h.bound.resolve hv
  exact hstands

end Store.Whole

theorem Session.whole_openFrame {s : Session ε} {c : Closure} {args : List (Value ε)} (h : s.store.Whole)
    (hc : c.env < s.store.scopes.size) (hargs : ∀ a ∈ args, a.StandsIn s.store) :
    (s.openFrame c args).2.store.Whole ∧ s.store.Grown (s.openFrame c args).2.store ∧
      (s.openFrame c args).1 < (s.openFrame c args).2.store.scopes.size := by
  have hg := s.store.grown_alloc ⟨[], some c.env⟩
  obtain ⟨hwhole, hgrown⟩ := Store.Whole.defineAll s.store.scopes.size (c.params.zip args) (h.child hc)
    fun b hb => (hargs b.2 (List.of_mem_zip hb).2).grow hg
  refine ⟨hwhole, hg.trans hgrown, Nat.lt_of_lt_of_le ?_ hgrown.scopes⟩
  exact s.store.lt_size_alloc ⟨[], some c.env⟩

/-! ## Evaluations -/

namespace Semantics

abbrev KeptWhole (s : Session ε) : Answer ε (Value ε) → Prop :=
  Kept Store.Whole Store.Grown Value.StandsIn (fun _ => True) s

def AllStandIn (s : Store ε) (vs : List (Value ε)) : Prop :=
  ∀ v ∈ vs, v.StandsIn s

variable [Host ε]

/-- **Every rule of evaluation keeps a store whole** and adds to it. -/
theorem whole_closed (limit : Nat) :
    Closed limit
      (fun _ _ env (s : Session ε) a => s.store.Whole → env < s.store.scopes.size → KeptWhole s a)
      (fun _ _ env s a => s.store.Whole → env < s.store.scopes.size →
        Kept Store.Whole Store.Grown AllStandIn (fun _ => True) s a)
      (fun _ _ callee args s a => s.store.Whole → callee.Standard (Closure.StandsIn s.store) →
        AllStandIn s.store args →
        KeptWhole s a) where
  malformed _ hs _ := .error hs (.refl _) trivial
  constant _ hs _ := .ok hs (.refl _) trivial
  reference _ hs _ := ⟨hs, .refl _, fun v hv => hs.standsIn_resolve hv, fun _ _ => trivial⟩
  define {depth e env s name value a} _ hv hs henv := by
    refine (hv hs henv).bind .trans fun v t ht _ hstands => ?_
    exact .ok (ht.define env name hstands) (t.store.grown_define env name v) trivial
  branch {depth e env s c x y a A B} _ hc hx hy hs henv := by
    refine (hc hs henv).bind .trans fun v t ht hg _ => ?_
    have henv' := Nat.lt_of_lt_of_le henv hg.scopes
    cases v.isTruthy with
    | true => exact hx t ht henv'
    | false => exact hy t ht henv'
  lambda {depth e env s params body} _ hs henv :=
    .ok (hs.newClosure params body env) (s.store.grown_newClosure params body env) ⟨henv, Nat.lt_succ_self _⟩
  call {depth e env s head operands a A B} _ hh ho hc hs henv := by
    refine (hh hs henv).bind .trans fun v t ht hg hstands => ?_
    unfold callWith
    cases hcallee : v.callable? with
    | none => exact .error ht (.refl _) trivial
    | some callee =>
      refine (ho t ht (Nat.lt_of_lt_of_le henv hg.scopes)).bind .trans fun args u hu hg' hargs => ?_
      exact hc callee args u hu ((hstands.callable? hcallee).mono fun _ hin => hin.grow hg') hargs
  nil hs _ := .ok hs (.refl _) fun v hv => by cases hv
  cons {depth e rest env s a A} he hr hs henv := by
    refine (he hs henv).bind .trans fun v t ht hg hstands => ?_
    refine (hr t ht (Nat.lt_of_lt_of_le henv hg.scopes)).bind .trans fun vs u hu hg' hall => ?_
    refine .ok hu (.refl _) fun w hw => ?_
    rcases List.mem_cons.1 hw with rfl | hw
    · exact hstands.grow hg'
    · exact hall w hw
  builtin {depth name tool args s} hs htool _ := by
    cases tool with
    | host tool => exact absurd htool id
    | operator op =>
      exact ⟨hs, .refl _, fun v hv => Operator.standard_run hv, fun _ _ => trivial⟩
  refused hb hs _ _ := by
    have hstore := Session.store_of_refused hb
    exact .error (hstore ▸ hs) (hstore ▸ .refl _) trivial
  entered {depth name c args s frame t a} hb ha hs hc hargs := by
    obtain ⟨_, _, rfl, rfl⟩ := Session.beginCall_eq_ok hb
    obtain ⟨hwhole, hgrown, hframe⟩ := Session.whole_openFrame hs hc.1 hargs
    have hbody := ha hwhole hframe
    exact ⟨hbody.invariant, hgrown.trans hbody.related, hbody.value, hbody.cause⟩

end Semantics

namespace Evaluator

open Semantics (KeptWhole)

variable [Host ε] {session : Session ε}

theorem whole_evaluate (ev : Evaluator) (e : Expr) {env : ScopeId} (hs : session.store.Whole)
    (henv : env < session.store.scopes.size) : KeptWhole session (ev.evaluate e env session).answer := by
  rw [answer_evaluate]
  exact (Semantics.whole_closed ev.config.maxDepth).eval ev.depth e env session hs henv

theorem whole_apply (ev : Evaluator) (name : String) {callee : Value ε} {args : List (Value ε)}
    (hs : session.store.Whole) (hcallee : callee.StandsIn session.store)
    (hargs : ∀ a ∈ args, a.StandsIn session.store) : KeptWhole session (ev.apply name callee args session).answer := by
  rw [apply_eq]
  cases hc : callee.callable? with
  | none => exact .error hs (.refl _) trivial
  | some callable =>
    exact (Semantics.whole_closed ev.config.maxDepth).apply ev.depth name callable args session hs
      (hcallee.callable? hc) hargs

theorem whole_executeFrom (ev : Evaluator) : ∀ (program : List Expr) {last : Value ε} {session : Session ε},
    session.store.Whole → ev.env < session.store.scopes.size → last.StandsIn session.store →
    KeptWhole session (ev.executeFrom last session program).answer
  | [], _, _, hs, _, hlast => .ok hs (.refl _) hlast
  | form :: rest, _, session, hs, henv, _ => by
    have hform := (Semantics.whole_closed ev.config.maxDepth).eval ev.depth form ev.env session hs henv
    rw [answer_executeFrom_cons]
    refine hform.bind .trans fun v t ht hg hv => ?_
    exact whole_executeFrom ev rest ht (Nat.lt_of_lt_of_le henv hg.scopes) hv

theorem whole_execute (ev : Evaluator) (program : List Expr) (hs : session.store.Whole)
    (henv : ev.env < session.store.scopes.size) : KeptWhole session (ev.execute program session).answer := by
  have hrun : KeptWhole (session.record (.program program.length)) (ev.execute program session).answer :=
    ev.whole_executeFrom program hs henv trivial
  exact ⟨hrun.invariant, hrun.related, hrun.value, hrun.cause⟩

theorem whole_evalSource (ev : Evaluator) (source : String) (hs : session.store.Whole)
    (henv : ev.env < session.store.scopes.size) : KeptWhole session (ev.evalSource source session).answer := by
  unfold evalSource
  cases parse source with
  | error e => exact .error hs (.refl _) trivial
  | ok program => exact ev.whole_execute program hs henv

end Evaluator

/-! ## Hosts without tools -/

namespace World

structure Whole (w : World ε) : Prop where
  store : w.session.store.Whole
  handles : ∀ env ∈ w.handles, env < w.session.store.scopes.size
  values : ∀ v ∈ w.values, v.StandsIn w.session.store

variable {w : World ε}

theorem Whole.grow (h : w.Whole) {session : Session ε} (hs : session.store.Whole)
    (hg : w.session.store.Grown session.store) : Whole { w with session } :=
  ⟨hs, fun env henv => Nat.lt_of_lt_of_le (h.handles env henv) hg.scopes, fun v hv => (h.values v hv).grow hg⟩

theorem Whole.withStore (h : w.Whole) {store : Store ε} (hs : store.Whole) (hg : w.session.store.Grown store) :
    (w.withStore store).Whole :=
  h.grow hs hg

theorem Whole.holding (h : w.Whole) {env : ScopeId} (henv : env < w.session.store.scopes.size) :
    (w.holding env).Whole :=
  ⟨h.store, List.forall_mem_cons.2 ⟨henv, h.handles⟩, h.values⟩

theorem Whole.given (h : w.Whole) {v : Value ε} (hv : v.StandsIn w.session.store) : (w.given v).Whole :=
  ⟨h.store, h.handles, List.forall_mem_cons.2 ⟨hv, h.values⟩⟩

theorem Whole.after (h : w.Whole) {o : Outcome ε} (ho : Semantics.KeptWhole w.session o.answer) :
    (w.after o).Whole := by
  have hgrown := h.grow ho.invariant ho.related
  unfold World.after
  split
  · next v hv => exact hgrown.given (ho.value v hv)
  · exact hgrown

theorem Whole.has {w : World Empty} (h : w.Whole) {v : Value Empty} (hv : w.Has v) : v.StandsIn w.session.store := by
  rcases hv with hv | hv
  · exact h.values v hv
  · cases v with
    | closure c => exact absurd rfl (hv c)
    | builtin tool =>
      cases tool with
      | operator op => trivial
      | host tool => exact nomatch tool
    | null | bool | num | symbol => trivial

theorem Whole.ofRegistry {w : World Empty} (h : w.Whole) (registered : List (Tool Empty)) (r : Registry Empty) :
    (w.rooted registered (w.session.store.ofRegistry r)).Whole := by
  let root : Scope Empty := ⟨r.tools.map fun t => (t.name, .builtin t), none⟩
  have hlt := w.session.store.lt_size_alloc root
  have hroot : (w.session.store.alloc root).2.Whole := by
    refine h.store.alloc nofun fun name v hv => ?_
    obtain ⟨b, hb, rfl⟩ := Store.mem_of_find? hv
    obtain ⟨tool, _, rfl⟩ := List.mem_map.1 hb
    cases tool with
    | operator op => trivial
    | host tool => exact nomatch tool
  have hgrown := (w.session.store.grown_alloc root).trans
    ((w.session.store.alloc root).2.grown_alloc ⟨[], some w.session.store.scopes.size⟩)
  have hmade := h.withStore (hroot.child hlt) hgrown
  have hheld := hmade.holding (Store.lt_size_alloc _ _)
  exact ⟨hheld.store, hheld.handles, hheld.values⟩

theorem Whole.ofBindings {w : World Empty} (h : w.Whole) {bs : List (String × Value Empty)}
    (hbs : ∀ b ∈ bs, w.Has b.2) :
    (w.rooted Registry.operators (w.session.store.ofBindings bs)).Whole := by
  have hfresh := h.ofRegistry Registry.operators .standard
  obtain ⟨hwhole, hgrown⟩ := Store.Whole.defineAll w.session.store.fresh.1 bs hfresh.store
    fun b hb => hfresh.has (hbs b hb)
  have hmade := hfresh.withStore hwhole hgrown
  exact ⟨hmade.store, hmade.handles, hmade.values⟩

theorem Whole.step {w w' : World Empty} (h : w.Whole) (hs : Step w w') : w'.Whole := by
  cases hs with
  | ofRegistry registered r hr => exact h.ofRegistry registered r
  | fresh => exact h.ofRegistry _ .standard
  | ofBindings bs hbs => exact h.ofBindings hbs
  | @child env henv =>
    have hmade := h.withStore (h.store.child (h.handles env henv)) (w.session.store.grown_alloc _)
    exact hmade.holding (Store.lt_size_alloc _ _)
  | clone henv => exact h.holding (h.handles _ henv)
  | capture hc => exact h.holding (h.values _ hc).1
  | get henv hv => exact h.given (h.store.standsIn_get? hv)
  | define name henv hv =>
    exact h.withStore (h.store.define _ name (h.has hv)) (w.session.store.grown_define _ name _)
  | @closure env params body henv =>
    have hgrown := w.session.store.grown_newClosure params body env
    have hmade := h.withStore (h.store.newClosure params body env) hgrown
    exact hmade.given ⟨hmade.handles env henv, Nat.lt_succ_self _⟩
  | evalSource ev source henv => exact h.after (ev.whole_evalSource source h.store (h.handles _ henv))
  | @evaluateIn env source henv =>
    exact h.after ((Evaluator.inScope env).whole_evalSource source h.store (h.handles _ henv))
  | evaluate ev e henv => exact h.after (ev.whole_evaluate e h.store (h.handles _ henv))
  | execute ev program henv => exact h.after (ev.whole_execute program h.store (h.handles _ henv))
  | apply ev name hcallee hargs =>
    exact h.after (ev.whole_apply name h.store (h.has hcallee) fun a ha => h.has (hargs a ha))

/-- **The store of a host without tools is whole at all times.** -/
theorem whole_of_reachable {w : World Empty} (h : Reachable w) : w.Whole := by
  induction h with
  | empty => exact ⟨.empty, fun env henv => (by cases henv), fun v hv => by cases hv⟩
  | step _ hs ih => exact ih.step hs

end World
end Lisplet
