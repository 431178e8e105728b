import Lisplet.Probe
import Lisplet.Proofs.Evaluation
import Lisplet.Proofs.Operators
import Lisplet.Proofs.Session
/-!
# Sound stores

A store is `Sound` if every parent is older than its children and every closure bound anywhere is over an inner scope, one
that has a parent.  Closures may well be bound in the scopes that they are over: nothing is asked of the way back.

Evaluation in an inner scope of a sound store makes a sound store, leaves every root as it is, adds none, and gives out
closures over inner scopes only, whether it succeeds or fails half-way (`sound_closed`).
-/
namespace Lisplet

variable {ε α : Type}

/-! ## Stores -/

namespace Store

def Inner (s : Store ε) (i : ScopeId) : Prop :=
  ∃ scope p, s.scopes[i]? = some scope ∧ scope.parent = some p

end Store

def Value.ScopedIn (s : Store ε) (v : Value ε) : Prop :=
  ∀ c, v = .closure c → s.Inner c.env

def Callable.ScopedIn (s : Store ε) (callee : Callable ε) : Prop :=
  ∀ c, callee = .closure c → s.Inner c.env

namespace Store

structure Sound (s : Store ε) : Prop where
  parent_lt : ∀ (i : ScopeId) (scope : Scope ε) (p : ScopeId), s.scopes[i]? = some scope → scope.parent = some p → p < i
  captured : ∀ (i : ScopeId) (scope : Scope ε) (b : String × Value ε), s.scopes[i]? = some scope → b ∈ scope.vars →
    b.2.ScopedIn s

/-- **What evaluation may do to a store**: scopes keep their parents, and the roots are the same as before. -/
structure Grows (s t : Store ε) : Prop where
  kept : ∀ (i : ScopeId) (scope : Scope ε), s.scopes[i]? = some scope →
    ∃ scope', t.scopes[i]? = some scope' ∧ scope'.parent = scope.parent ∧ (scope.parent = none → scope' = scope)
  roots : ∀ (i : ScopeId) (scope : Scope ε), t.scopes[i]? = some scope → scope.parent = none →
    s.scopes[i]? = some scope

variable {s t u : Store ε} {env : ScopeId} {name : String} {v : Value ε}

theorem Grows.of_scopes_eq (h : t.scopes = s.scopes) : s.Grows t where
  kept i scope hs := ⟨scope, by rw [h, hs], rfl, fun _ => rfl⟩
  roots i scope hs _ := by rwa [h] at hs

theorem Grows.refl (s : Store ε) : s.Grows s :=
  .of_scopes_eq rfl

theorem Grows.trans (h : s.Grows t) (h' : t.Grows u) : s.Grows u where
  kept i scope hs := by
    obtain ⟨scope', ht, hp, he⟩ := h.kept i scope hs
    obtain ⟨scope'', hu, hp', he'⟩ := h'.kept i scope' ht
    refine ⟨scope'', hu, hp'.trans hp, fun hroot => ?_⟩
    rw [he' (hp.trans hroot), he hroot]
  roots i scope hu hroot := h.roots i scope (h'.roots i scope hu hroot) hroot

theorem Inner.grow {i : ScopeId} (h : s.Inner i) (hg : s.Grows t) : t.Inner i := by
  obtain ⟨scope, p, hs, hp⟩ := h
  obtain ⟨scope', ht, hp', _⟩ := hg.kept i scope hs
  exact ⟨scope', p, ht, hp'.trans hp⟩

theorem Inner.lt_size {i : ScopeId} (h : s.Inner i) : i < s.scopes.size := by
  obtain ⟨scope, _, hs, _⟩ := h
  exact (Array.getElem?_eq_some_iff.1 hs).1

end Store

theorem Value.ScopedIn.grow {s t : Store ε} {v : Value ε} (h : v.ScopedIn s) (hg : s.Grows t) : v.ScopedIn t :=
  fun c hc => (h c hc).grow hg

theorem Value.scopedIn_of_callable? {s : Store ε} {v : Value ε} {callee : Callable ε} (h : v.ScopedIn s)
    (hc : v.callable? = some callee) : callee.ScopedIn s := by
  rintro c rfl
  unfold callable? at hc
  split at hc
  · cases hc
  · cases hc
    exact h c rfl
  · cases hc

theorem Bindings.mem_insert {name : String} {v : Value ε} {b : String × Value ε} :
    ∀ {bs : Bindings ε}, b ∈ insert name v bs → b = (name, v) ∨ b ∈ bs
  | [], h => .inl (List.mem_singleton.1 h)
  | b' :: rest, h => by
    unfold insert at h
    split at h
    · rcases List.mem_cons.1 h with rfl | h
      · exact .inl rfl
      · exact .inr (List.mem_cons_of_mem _ h)
    · rcases List.mem_cons.1 h with rfl | h
      · exact .inr List.mem_cons_self
      · exact (mem_insert h).imp_right (List.mem_cons_of_mem _)

namespace Store

variable {s t : Store ε} {env : ScopeId} {name : String} {v : Value ε}

theorem Sound.of_scopes_eq (h : s.Sound) (he : t.scopes = s.scopes) : t.Sound where
  parent_lt i scope p ht := h.parent_lt i scope p (by rwa [he] at ht)
  captured i scope b ht hb := (h.captured i scope b (by rwa [he] at ht) hb).grow (.of_scopes_eq he)

/-! ## Definitions -/

theorem grows_define (henv : s.Inner env) : s.Grows (s.define env name v) where
  kept i scope hs := by
    rw [getElem?_define]
    split
    · next he =>
      subst he
      obtain ⟨scope', p, hs', hp⟩ := henv
      cases hs.symm.trans hs'
      exact ⟨scope.define name v, by rw [hs]; rfl, rfl, fun hroot => by cases hroot.symm.trans hp⟩
    · exact ⟨scope, hs, rfl, fun _ => rfl⟩
  roots i scope ht hroot := by
    rw [getElem?_define] at ht
    split at ht
    · next he =>
      subst he
      obtain ⟨scope', p, hs', hp⟩ := henv
      rw [hs'] at ht
      cases ht
      cases hroot.symm.trans hp
    · exact ht

theorem exists_of_getElem?_define {i : ScopeId} {scope : Scope ε}
    (h : (s.define env name v).scopes[i]? = some scope) :
    ∃ old, s.scopes[i]? = some old ∧ scope.parent = old.parent ∧ ∀ b ∈ scope.vars, b = (name, v) ∨ b ∈ old.vars := by
  rw [getElem?_define] at h
  split at h
  · obtain ⟨old, ho, rfl⟩ := Option.map_eq_some_iff.1 h
    exact ⟨old, ho, rfl, fun b hb => Bindings.mem_insert hb⟩
  · exact ⟨scope, h, rfl, fun b hb => .inr hb⟩

theorem sound_define (h : s.Sound) (henv : s.Inner env) (hv : v.ScopedIn s) : (s.define env name v).Sound := by
  have hg : s.Grows (s.define env name v) := grows_define henv
  refine ⟨fun i scope p hi hp => ?_, fun i scope b hi hb => ?_⟩
  · obtain ⟨old, ho, hpar, _⟩ := exists_of_getElem?_define hi
    exact h.parent_lt i old p ho (hpar.symm.trans hp)
  · obtain ⟨old, ho, _, hvars⟩ := exists_of_getElem?_define hi
    rcases hvars b hb with rfl | hb
    · exact hv.grow hg
    · exact (h.captured i old b ho hb).grow hg

theorem defineAll_sound : ∀ (bs : List (String × Value ε)) (s : Store ε), s.Sound → s.Inner env →
    (∀ b ∈ bs, b.2.ScopedIn s) → (s.defineAll env bs).Sound ∧ s.Grows (s.defineAll env bs)
  | [], s, h, _, _ => ⟨h, .refl s⟩
  | b :: bs, s, h, henv, hbs => by
    have hg : s.Grows (s.define env b.1 b.2) := grows_define henv
    have hb : (s.define env b.1 b.2).Sound := sound_define h henv (hbs b List.mem_cons_self)
    obtain ⟨hsound, hgrows⟩ := defineAll_sound bs (s.define env b.1 b.2) hb (henv.grow hg)
      fun b' hb' => (hbs b' (List.mem_cons_of_mem _ hb')).grow hg
    exact ⟨hsound, hg.trans hgrows⟩

/-! ## New scopes -/

theorem inner_child (s : Store ε) (env : ScopeId) : (s.child env).2.Inner (s.child env).1 :=
  ⟨⟨[], some env⟩, env, (getElem?_child s env _).trans (if_pos rfl), rfl⟩

theorem grows_child (s : Store ε) (env : ScopeId) : s.Grows (s.child env).2 where
  kept i scope hs := by
    have hne : i ≠ s.scopes.size := Nat.ne_of_lt (Array.getElem?_eq_some_iff.1 hs).1
    exact ⟨scope, by rw [getElem?_child, if_neg hne, hs], rfl, fun _ => rfl⟩
  roots i scope ht hroot := by
    rw [getElem?_child] at ht
    split at ht
    · cases ht
      cases hroot
    · exact ht

theorem sound_child (h : s.Sound) (henv : env < s.scopes.size) : (s.child env).2.Sound where
  parent_lt i scope p hi hp := by
    rw [getElem?_child] at hi
    split at hi
    · next he =>
      cases hi
      cases hp
      rwa [he]
    · exact h.parent_lt i scope p hi hp
  captured i scope b hi hb := by
    rw [getElem?_child] at hi
    split at hi
    · cases hi
      cases hb
    · exact (h.captured i scope b hi hb).grow (grows_child s env)

theorem Sound.scopedIn_get? (h : s.Sound) (hv : s.get? env name = some v) : v.ScopedIn s := by
  fun_induction Store.get? s env name with
  | case1 env v' hfound =>
    cases hv
    obtain ⟨b, hb, rfl⟩ := mem_of_find? hfound
    unfold bindings at hb
    split at hb
    · cases hb
    · next scope hs => exact h.captured env scope b hs hb
  | case2 => cases hv
  | case3 env _ p hp hpar ih => exact ih hv

theorem Sound.scopedIn_resolve (h : s.Sound) (hv : s.resolve env name = .ok v) : v.ScopedIn s := by
  rcases s.resolve_cases env name with ⟨n, v', hget, _, hr⟩ | ⟨_, _, hr⟩ | ⟨_, hr⟩
  · cases hr.symm.trans hv
    exact h.scopedIn_get? hget
  · cases hr.symm.trans hv
  · cases hr.symm.trans hv

end Store

/-! ## Calls -/

namespace Session

theorem sound_openFrame {s : Session ε} {c : Closure} {args : List (Value ε)} (h : s.store.Sound)
    (hc : s.store.Inner c.env) (ha : ∀ a ∈ args, a.ScopedIn s.store) :
    (s.openFrame c args).2.store.Sound ∧ s.store.Grows (s.openFrame c args).2.store ∧
      (s.openFrame c args).2.store.Inner (s.openFrame c args).1 := by
  have hg := s.store.grows_child c.env
  have hi := s.store.inner_child c.env
  obtain ⟨hsound, hgrows⟩ := Store.defineAll_sound (c.params.zip args) (s.store.child c.env).2
    (Store.sound_child h hc.lt_size) hi fun b hb => (ha b.2 (List.of_mem_zip hb).2).grow hg
  exact ⟨hsound, hg.trans hgrows, hi.grow hgrows⟩

end Session

/-! ## Evaluations -/

/-- **The tools of the host have no scopes of their own**: a closure that one of them returns is over the scope of a
closure among its operands.  Tools go from thread to thread and scopes do not, so that no tool can keep one. -/
def Host.KeepsScopes (ε : Type) [Host ε] : Prop :=
  ∀ (tool : ε) (args : List (Value ε)) (c : Closure), Host.run tool args = .ok (.closure c) →
    ∃ c', .closure c' ∈ args ∧ c'.env = c.env

theorem Tool.scopedIn_run [Host ε] (hosts : Host.KeepsScopes ε) {tool : Tool ε} {args : List (Value ε)} {v : Value ε}
    {s : Store ε} (ha : ∀ a ∈ args, a.ScopedIn s) (h : tool.run args = .ok v) : v.ScopedIn s := by
  rintro c rfl
  cases tool with
  | operator op =>
    rcases Operator.run_eq_ok h with ⟨n, hn⟩ | ⟨b, hb⟩
    · cases hn
    · cases hb
  | host tool =>
    obtain ⟨c', hmem, henv⟩ := hosts tool args c h
    rw [← henv]
    exact ha _ hmem c' rfl

theorem Probe.keepsScopes : Host.KeepsScopes Probe := by
  intro probe args c h
  change probe.run args = .ok (.closure c) at h
  rcases probe.run_cases args with ⟨_, hr⟩ | hr | ⟨_, hr⟩ | ⟨_, hr⟩ | hr
  · cases hr.symm.trans h
  · have hfirst : first args = .closure c := Except.ok.inj (hr.symm.trans h)
    rcases first_eq_or_mem args with hnull | hmem
    · cases hnull.symm.trans hfirst
    · exact ⟨c, hfirst ▸ hmem, rfl⟩
  · cases hr.symm.trans h
  · cases hr.symm.trans h
  · cases hr.symm.trans h

namespace Semantics

abbrev KeptSound (P : Store ε → α → Prop) (s : Session ε) : Answer ε α → Prop :=
  Kept Store.Sound Store.Grows P (fun _ => True) s

def AllScopedIn (s : Store ε) (vs : List (Value ε)) : Prop :=
  ∀ v ∈ vs, v.ScopedIn s

variable [Host ε]

/-- **Every rule of evaluation keeps a store sound**, in an inner scope. -/
theorem sound_closed (hosts : Host.KeepsScopes ε) (limit : Nat) :
    Closed limit
      (fun _ _ env (s : Session ε) a => s.store.Sound → s.store.Inner env → KeptSound Value.ScopedIn s a)
      (fun _ _ env s a => s.store.Sound → s.store.Inner env → KeptSound AllScopedIn s a)
      (fun _ _ callee args s a => s.store.Sound → callee.ScopedIn s.store → AllScopedIn s.store args →
        KeptSound Value.ScopedIn s a) where
  malformed _ hs _ := .error hs (.refl _) trivial
  constant _ hs _ := .ok hs (.refl _) fun c hc => by cases hc
  reference _ hs _ := ⟨hs, .refl _, fun v hv => hs.scopedIn_resolve hv, fun _ _ => trivial⟩
  define {depth e env s name value a} _ hv hs henv := by
    refine (hv hs henv).bind .trans fun v t ht hg hsc => ?_
    have hd := henv.grow hg
    exact .ok (Store.sound_define ht hd hsc) (Store.grows_define hd) fun c hc => by cases hc
  branch _ hc hx hy hs henv := by
    refine (hc hs henv).bind .trans fun v t ht hg _ => ?_
    cases v.isTruthy with
    | true => exact hx t ht (henv.grow hg)
    | false => exact hy t ht (henv.grow hg)
  lambda {depth e env s params body} _ hs henv := by
    have hg : s.store.Grows (s.newClosure params body env).2.store := .of_scopes_eq rfl
    have hclosure : (s.newClosure params body env).1.ScopedIn (s.newClosure params body env).2.store := by
      intro c hc
      cases hc
      exact henv.grow hg
    have hsound : (s.newClosure params body env).2.store.Sound := hs.of_scopes_eq rfl
    exact .ok hsound hg hclosure
  call {depth e env s head operands a A B} _ hh ho hc hs henv := by
    refine (hh hs henv).bind .trans fun v t ht hg hsc => ?_
    unfold callWith
    split
    · exact .error ht (.refl _) trivial
    · next callee hcallee =>
      have hcallable := Value.scopedIn_of_callable? hsc hcallee
      refine (ho t ht (henv.grow hg)).bind .trans fun args u hu hg' hargs => ?_
      exact hc callee args u hu (fun c he => (hcallable c he).grow hg') hargs
  nil hs _ := .ok hs (.refl _) fun v hv => by cases hv
  cons {depth e rest env s a A} he hr hs henv := by
    refine (he hs henv).bind .trans fun v t ht hg hsc => ?_
    refine (hr t ht (henv.grow hg)).bind .trans fun vs u hu hg' hargs => .ok hu (.refl _) fun w hw => ?_
    rcases List.mem_cons.1 hw with rfl | hw
    · exact hsc.grow hg'
    · exact hargs w hw
  builtin {depth name tool args s} hs _ hargs :=
    ⟨hs, .of_scopes_eq rfl, fun v hv => Tool.scopedIn_run hosts hargs hv, fun _ _ => trivial⟩
  refused {depth name c args s cause t} hb hs _ _ := by
    have hstore := Session.store_of_refused hb
    exact .error (hstore ▸ hs) (hstore ▸ .refl _) trivial
  entered {depth name c args s frame t a} hb ha hs hc hargs := by
    obtain ⟨_, _, rfl, rfl⟩ := Session.beginCall_eq_ok hb
    obtain ⟨hsound, hgrows, hinner⟩ := Session.sound_openFrame hs (hc c rfl) hargs
    have hbody := ha hsound hinner
    exact ⟨hbody.invariant, hgrows.trans hbody.related, hbody.value, hbody.cause⟩

end Semantics
end Lisplet
