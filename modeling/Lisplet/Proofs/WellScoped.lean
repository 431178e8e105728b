import Lisplet.Proofs.FreeNames
import Lisplet.Proofs.Whole
/-!
# Names that are always bound

A store is well scoped if nothing in it is an alias or a tool of the host and if the body of every closure mentions only
parameters and names that are visible where the closure was made.  A program whose forms mention only names that are
visible by the time they are evaluated never meets a name that is not bound, and leaves the store well scoped.

Names become visible and stay so (`Widens.visible`), and what was well scoped stays well scoped.  The one thing that has
to become so is a function that calls itself: its closure is made first, and the name that its body mentions is bound
afterwards, so it is well scoped in the store in which it is bound and not before (`WellScoped.define`).
-/
namespace Lisplet

variable {ε : Type}

/-! ## Names that are visible -/

namespace Store

def Visible (s : Store ε) (env : ScopeId) (name : String) : Prop :=
  s.contains env name = true

/-- Scopes keep their parents and lose no names. -/
def Widens (s t : Store ε) : Prop :=
  ∀ (i : ScopeId) (x : Scope ε), s.scopes[i]? = some x → ∃ y, t.scopes[i]? = some y ∧ x.Updated (fun _ => True) y

variable {s t u : Store ε} {env : ScopeId} {name : String}

theorem Widens.refl (s : Store ε) : s.Widens s :=
  fun _ x hx => ⟨x, hx, .refl x⟩

theorem Widens.trans (h : s.Widens t) (h' : t.Widens u) : s.Widens u := by
  intro i x hx
  obtain ⟨y, hy, hxy⟩ := h i x hx
  obtain ⟨z, hz, hyz⟩ := h' i y hy
  exact ⟨z, hz, hxy.trans hyz⟩

theorem Frame.widens {writes : String → Prop} (h : s.Frame env writes t) : s.Widens t := by
  intro i x hx
  by_cases he : i = env
  · subst he
    obtain ⟨y, hy, hxy⟩ := h.own x hx
    exact ⟨y, hy, hxy.mono fun _ _ => trivial⟩
  · exact ⟨x, h.others i x he hx, .refl x⟩

theorem Unchanged.widens (h : s.Unchanged t) : s.Widens t :=
  (h.frame 0 fun _ => True).widens

theorem widens_define (s : Store ε) (env : ScopeId) (name : String) (v : Value ε) : s.Widens (s.define env name v) :=
  (Frame.define s v trivial : s.Frame env (fun _ => True) _).widens

theorem widens_alloc (s : Store ε) (x : Scope ε) : s.Widens (s.alloc x).2 :=
  Unchanged.widens fun _ _ hold => getElem?_alloc_of_some hold

theorem Widens.lt_size (h : s.Widens t) (henv : env < s.scopes.size) : env < t.scopes.size := by
  obtain ⟨y, hy, _⟩ := h env _ (Array.getElem?_eq_getElem henv)
  exact (Array.getElem?_eq_some_iff.1 hy).1

theorem visible_of_find? {v : Value ε} (h : (s.bindings env).find? name = some v) : s.Visible env name := by
  rw [Visible, contains, get?, h]
  rfl

theorem visible_of_parent? {p : ScopeId} {hp : p < env} (hpar : s.parent? env = some ⟨p, hp⟩)
    (h : s.Visible p name) : s.Visible env name := by
  rw [Visible, contains, get?]
  cases hfind : (s.bindings env).find? name with
  | some v => rfl
  | none =>
    rw [hpar]
    exact h

theorem Visible.lt_size (h : s.Visible env name) : env < s.scopes.size := by
  refine Nat.lt_of_not_le fun hle => ?_
  have hnone : s.scopes[env]? = none := Array.getElem?_eq_none_iff.2 hle
  have hget : s.get? env name = none := by
    rw [get?, bindings, parent?]
    simp only [hnone, Bindings.find?]
  rw [Visible, contains, hget] at h
  cases h

theorem Widens.exists_find? (h : s.Widens t) {v : Value ε} (hv : (s.bindings env).find? name = some v) :
    ∃ w, (t.bindings env).find? name = some w := by
  unfold bindings at hv ⊢
  cases hs : s.scopes[env]? with
  | none => simp [hs, Bindings.find?] at hv
  | some x =>
    obtain ⟨y, hy, hxy⟩ := h env x hs
    simp only [hs] at hv
    simp only [hy]
    exact Option.isSome_iff_exists.1 (hxy.kept name (Option.isSome_iff_exists.2 ⟨v, hv⟩))

theorem Widens.parent? (h : s.Widens t) {p : { p : ScopeId // p < env }} (hp : s.parent? env = some p) :
    t.parent? env = some p := by
  unfold Store.parent? at hp ⊢
  cases hs : s.scopes[env]? with
  | none => simp [hs] at hp
  | some x =>
    obtain ⟨y, hy, hxy⟩ := h env x hs
    simp only [hs] at hp
    simp only [hy, hxy.parent]
    exact hp

theorem Widens.visible (h : s.Widens t) (hs : s.Visible env name) : t.Visible env name := by
  unfold Visible contains at hs
  fun_induction Store.get? s env name with
  | case1 env v hv =>
    obtain ⟨w, hw⟩ := h.exists_find? hv
    exact visible_of_find? hw
  | case2 => cases hs
  | case3 env _ p hlt hp ih => exact visible_of_parent? (h.parent? hp) (ih hs)

theorem visible_define (v : Value ε) (henv : env < s.scopes.size) : (s.define env name v).Visible env name := by
  refine visible_of_find? (v := v) ?_
  rw [bindings, getElem?_define, if_pos rfl, Array.getElem?_eq_getElem henv]
  exact (Scope.get?_define _ name v name).trans (if_pos rfl)

theorem widens_defineAll (env : ScopeId) : ∀ (bs : List (String × Value ε)) (s : Store ε), s.Widens (s.defineAll env bs)
  | [], s => .refl s
  | b :: bs, s => (s.widens_define env b.1 b.2).trans (widens_defineAll env bs _)

theorem visible_defineAll : ∀ (names : List String) (vs : List (Value ε)) {s : Store ε}, names.length = vs.length →
    env < s.scopes.size → name ∈ names → (s.defineAll env (names.zip vs)).Visible env name
  | first :: names, v :: vs, s, hlen, henv, hname => by
    have hwidens := s.widens_define env first v
    rcases List.mem_cons.1 hname with rfl | hname
    · have hfirst : (s.define env name v).Visible env name := visible_define v henv
      exact (widens_defineAll env (names.zip vs) _).visible hfirst
    · exact visible_defineAll names vs (Nat.succ.inj hlen) (hwidens.lt_size henv) hname

end Store

/-! ## Well-scoped stores -/

/-- The body mentions only parameters and names that are visible where the closure was made. -/
def Closure.WellScopedIn (s : Store ε) (c : Closure) : Prop :=
  c.body.ClosedOver fun name => s.Visible c.env name ∨ name ∈ c.params

structure Value.WellScopedIn (s : Store ε) (v : Value ε) : Prop where
  plain : v.alias? = none
  standard : v.Standard (Closure.WellScopedIn s)

theorem Closure.WellScopedIn.widen {s t : Store ε} {c : Closure} (h : c.WellScopedIn s) (hw : s.Widens t) :
    c.WellScopedIn t :=
  h.mono fun _ hname => hname.imp_left hw.visible

theorem Value.WellScopedIn.widen {s t : Store ε} {v : Value ε} (h : v.WellScopedIn s) (hw : s.Widens t) :
    v.WellScopedIn t :=
  ⟨h.plain, h.standard.mono fun _ _ hc => hc.widen hw⟩

theorem Operator.wellScopedIn_run [Named ε] {s : Store ε} {op : Operator} {args : List (Value ε)} {v : Value ε}
    (h : op.run args = .ok v) : v.WellScopedIn s := by
  rcases run_eq_ok h with ⟨n, rfl⟩ | ⟨b, rfl⟩
  · exact ⟨rfl, trivial⟩
  · exact ⟨rfl, trivial⟩

namespace Store

def WellScoped (s : Store ε) : Prop :=
  s.Binds fun _ _ v => v.WellScopedIn s

variable {s : Store ε} {env : ScopeId} {name : String}

theorem WellScoped.widen {t : Store ε} (h : s.WellScoped) (hw : s.Widens t) :
    s.Binds fun _ _ v => v.WellScopedIn t :=
  h.mono fun _ _ _ hv => hv.widen hw

/-- The value has to be well scoped once it is bound. -/
theorem WellScoped.define {v : Value ε} (h : s.WellScoped) (hv : v.WellScopedIn (s.define env name v)) :
    (s.define env name v).WellScoped :=
  (h.widen (s.widens_define env name v)).define hv

theorem WellScoped.fresh [Named ε] (h : s.WellScoped) : s.fresh.2.WellScoped := by
  have hw : s.Widens s.fresh.2 := (s.widens_alloc _).trans (widens_alloc _ _)
  exact (h.widen hw).fresh fun _ _ _ => ⟨rfl, trivial⟩

theorem visible_fresh [Named ε] (s : Store ε) (op : Operator) : s.fresh.2.Visible s.fresh.1 op.spelling := by
  rw [Visible, contains, get?_fresh]
  rfl

/-- **A visible name resolves**: there are no aliases that could lead elsewhere. -/
theorem WellScoped.resolve (h : s.WellScoped) (hv : s.Visible env name) :
    ∃ v, s.resolve env name = .ok v ∧ v.WellScopedIn s := by
  obtain ⟨v, hget⟩ := Option.isSome_iff_exists.1 hv
  obtain ⟨_, hscoped⟩ := h.get? hget
  exact ⟨v, resolveFrom_of_value hget hscoped.plain _, hscoped⟩

end Store

namespace Session

variable {s : Session ε} {c : Closure} {args : List (Value ε)}

theorem widens_openFrame (s : Session ε) (c : Closure) (args : List (Value ε)) :
    s.store.Widens (s.openFrame c args).2.store := by
  refine Store.Unchanged.widens fun i x hx => ?_
  rw [s.getElem?_openFrame c args (Array.getElem?_eq_some_iff.1 hx).1, hx]

theorem wellScoped_openFrame (h : s.store.WellScoped) (hargs : ∀ v ∈ args, v.WellScopedIn s.store) :
    (s.openFrame c args).2.store.WellScoped := by
  have hw := s.widens_openFrame c args
  exact ((h.widen hw).child c.env).defineAll (c.params.zip args) fun b hb => (hargs b.2 (List.of_mem_zip hb).2).widen hw

/-- **In the frame of a call all is visible that the body mentions.** -/
theorem visible_openFrame {name : String} (hlen : c.params.length = args.length)
    (h : s.store.Visible c.env name ∨ name ∈ c.params) :
    (s.openFrame c args).2.store.Visible (s.openFrame c args).1 name := by
  have hframe : s.store.scopes.size < (s.store.child c.env).2.scopes.size := s.store.lt_size_alloc _
  rcases h with h | h
  · have hpar := s.store.parent?_child h.lt_size
    have hchild : (s.store.child c.env).2.Visible c.env name := (s.store.widens_alloc _).visible h
    exact (Store.widens_defineAll _ _ _).visible (Store.visible_of_parent? hpar hchild)
  · exact Store.visible_defineAll c.params args hlen hframe h

end Session

/-! ## Evaluations -/

def Error.OfBound : Error → Prop
  | .unbound _ => False
  | _ => True

theorem Operator.Fault.ofBound {e : Error} (h : Fault e) : e.OfBound := by
  cases h <;> trivial

namespace Semantics

abbrev KeptScoped (s : Session ε) : Answer ε (Value ε) → Prop :=
  Kept Store.WellScoped Store.Widens Value.WellScopedIn Error.OfBound s

def AllWellScoped (s : Store ε) (vs : List (Value ε)) : Prop :=
  ∀ v ∈ vs, v.WellScopedIn s

variable [Host ε]

/-- **Every rule of evaluation keeps a store well scoped**, and with names that are visible it gives no error about a
name without a value. -/
theorem scoped_closed (limit : Nat) :
    Closed limit
      (fun _ e env (s : Session ε) a => s.store.WellScoped → e.ClosedOver (s.store.Visible env) → KeptScoped s a)
      (fun _ es env s a => s.store.WellScoped → (∀ e ∈ es, e.ClosedOver (s.store.Visible env)) →
        Kept Store.WellScoped Store.Widens AllWellScoped Error.OfBound s a)
      (fun _ _ callee args s a => s.store.WellScoped → callee.Standard (Closure.WellScopedIn s.store) →
        AllWellScoped s.store args → KeptScoped s a) where
  malformed _ hs _ := .error hs (.refl _) trivial
  constant _ hs _ := .ok hs (.refl _) ⟨rfl, trivial⟩
  reference {depth e env s name} hf hs he := by
    rw [Expr.eq_of_form_reference hf] at he
    have hvisible : s.store.Visible env name := he name List.mem_cons_self
    obtain ⟨v, hr, hv⟩ := hs.resolve hvisible
    rw [hr]
    exact .ok hs (.refl _) hv
  define {depth e env s name value a} hf hv hs he := by
    refine (hv hs (he.of_define hf)).bind .trans fun v t ht _ hscoped => ?_
    have hw := t.store.widens_define env name v
    exact .ok (ht.define (hscoped.widen hw)) hw ⟨rfl, trivial⟩
  branch {depth e env s c x y a A B} hf hc hx hy hs he := by
    refine (hc hs (he.of_branch hf (by simp))).bind .trans fun v t ht hw _ => ?_
    have he' : ∀ part ∈ [c, x, y], part.ClosedOver (t.store.Visible env) := fun part hm =>
      (he.of_branch hf hm).mono fun _ hname => hw.visible hname
    cases v.isTruthy with
    | true => exact hx t ht (he' x (by simp))
    | false => exact hy t ht (he' y (by simp))
  lambda {depth e env s params body} hf hs he := by
    have hw : s.store.Widens (s.newClosure params body env).2.store := .refl s.store
    have hstore : (s.newClosure params body env).2.store.WellScoped := hs.widen hw
    exact .ok hstore hw ⟨rfl, (he.of_lambda hf).mono fun _ hname => hname.imp_left hw.visible⟩
  call {depth e env s head operands a A B} hf hh ho hc hs he := by
    refine (hh hs (he.of_call hf List.mem_cons_self)).bind .trans fun v t ht hw hscoped => ?_
    unfold callWith
    cases hcallee : v.callable? with
    | none => exact .error ht (.refl _) trivial
    | some callee =>
      have hoperands : ∀ part ∈ operands, part.ClosedOver (t.store.Visible env) := fun part hm =>
        (he.of_call hf (List.mem_cons_of_mem _ hm)).mono fun _ hname => hw.visible hname
      refine (ho t ht hoperands).bind .trans fun args u hu hw' hargs => ?_
      exact hc callee args u hu ((hscoped.standard.callable? hcallee).mono fun _ hclosure => hclosure.widen hw') hargs
  nil hs _ := .ok hs (.refl _) fun v hv => by cases hv
  cons {depth e rest env s a A} he hr hs hes := by
    refine (he hs (hes e List.mem_cons_self)).bind .trans fun v t ht hw hscoped => ?_
    have hrest : ∀ part ∈ rest, part.ClosedOver (t.store.Visible env) := fun part hm =>
      (hes part (List.mem_cons_of_mem _ hm)).mono fun _ hname => hw.visible hname
    refine (hr t ht hrest).bind .trans fun vs u hu hw' hall => ?_
    refine .ok hu (.refl _) fun w hmem => ?_
    rcases List.mem_cons.1 hmem with rfl | hmem
    · exact hscoped.widen hw'
    · exact hall w hmem
  builtin {depth name tool args s} hs htool _ := by
    cases tool with
    | host tool => exact absurd htool id
    | operator op =>
      exact ⟨hs, .refl _, fun v hv => Operator.wellScopedIn_run hv, fun e he => (op.faults_run args e he).ofBound⟩
  refused {depth name c args s cause t} hb hs _ _ := by
    have hstore := Session.store_of_refused hb
    have hcause : cause.OfBound := by
      rcases Session.beginCall_eq_error hb with ⟨_, rfl, _⟩ | ⟨_, _, rfl, _⟩ <;> trivial
    exact .error (hstore ▸ hs) (hstore ▸ .refl _) hcause
  entered {depth name c args s frame t a} hb ha hs hc hargs := by
    obtain ⟨hlen, _, rfl, rfl⟩ := Session.beginCall_eq_ok hb
    have hw := s.widens_openFrame c args
    have hclosure : c.WellScopedIn s.store := hc
    have hbody := ha (Session.wellScoped_openFrame hs hargs)
      (hclosure.mono fun _ hname => Session.visible_openFrame hlen hname)
    exact ⟨hbody.invariant, hw.trans hbody.related, hbody.value, hbody.cause⟩

theorem scoped_function {limit depth : Nat} {form : Expr} {env : ScopeId} {s : Session ε} {name : String}
    (hname : form.functionName? = some name) (hs : s.store.WellScoped) (henv : env < s.store.scopes.size)
    (hform : form.ClosedOver fun other => s.store.Visible env other ∨ form.functionName? = some other) :
    KeptScoped s (eval limit depth form env s) := by
  unfold Expr.functionName? at hname
  split at hname
  · next f operands =>
    cases hname
    have hdefine : (Expr.list [.keyword .define, .symbol name, .list (.keyword .lambda :: operands)]).form =
      .ok (.define name (.list (.keyword .lambda :: operands))) := rfl
    rw [eval_define hdefine]
    cases hvalue : (Expr.list (.keyword .lambda :: operands)).form with
    | error cause =>
      rw [eval_malformed hvalue]
      exact .error hs (.refl _) trivial
    | ok value =>
      obtain ⟨params, body, rfl⟩ := Form.ofLambda_ok hvalue
      rw [eval_lambda hvalue, Answer.bind_ok]
      let v : Value ε := (s.newClosure params body env).1
      let t : Store ε := (s.newClosure params body env).2.store
      have hw : s.store.Widens t := .refl s.store
      have hstore : t.WellScoped := hs.widen hw
      have hbound := t.widens_define env name v
      have hvisible : ∀ other, s.store.Visible env other ∨ some name = some other →
          (t.define env name v).Visible env other := by
        rintro other (hother | hother)
        · exact hbound.visible (hw.visible hother)
        · cases hother
          exact Store.visible_define v henv
      -- the body was closed over one name more than was visible when the closure was made
      have hbody := (hform.of_define hdefine).of_lambda hvalue
      have hv : v.WellScopedIn (t.define env name v) :=
        ⟨rfl, hbody.mono fun other hother => hother.imp_left (hvisible other)⟩
      exact .ok (hstore.define hv) (hw.trans hbound) ⟨rfl, trivial⟩
  · cases hname

theorem scoped_form {limit depth : Nat} {form : Expr} {env : ScopeId} {s : Session ε} (hs : s.store.WellScoped)
    (henv : env < s.store.scopes.size)
    (hform : form.ClosedOver fun name => s.store.Visible env name ∨ form.functionName? = some name) :
    KeptScoped s (eval limit depth form env s) := by
  cases hname : form.functionName? with
  | some name => exact scoped_function hname hs henv hform
  | none =>
    refine (scoped_closed limit).eval depth form env s hs (hform.mono fun name hvisible => ?_)
    simpa [hname] using hvisible

theorem visible_target {limit depth : Nat} {form : Expr} {env : ScopeId} {s : Session ε} {name : String} {v : Value ε}
    (htarget : form.target? = some name) (hv : (eval limit depth form env s).1 = .ok v)
    (henv : env < (eval limit depth form env s).2.store.scopes.size) :
    (eval limit depth form env s).2.store.Visible env name := by
  unfold Expr.target? at htarget
  split at htarget
  · next target operands =>
    cases htarget
    cases hform : (Expr.list (.keyword .define :: .symbol name :: operands)).form with
    | error cause =>
      rw [eval_malformed hform] at hv
      cases hv
    | ok f =>
      obtain ⟨target, value, rfl⟩ := Form.ofDefine_ok hform
      cases Form.ofDefine_eq hform
      rw [eval_define hform] at hv henv ⊢
      cases hvalue : eval limit depth value env s with
      | mk result t =>
        rw [hvalue] at hv henv
        cases result with
        | error e => cases hv
        | ok w =>
          have henv' : env < t.store.scopes.size := by
            simpa [Session.define, Store.define, Session.record] using henv
          exact Store.visible_define w henv'
  · cases htarget

end Semantics

namespace Evaluator

open Semantics (KeptScoped Kept)

variable [Host ε]

theorem scoped_executeFrom (ev : Evaluator) : ∀ (program : List Expr) {last : Value ε} {session : Session ε},
    session.store.WellScoped → ev.env < session.store.scopes.size → last.WellScopedIn session.store →
    ClosedProgram (session.store.Visible ev.env) program →
    KeptScoped session (ev.executeFrom last session program).answer
  | [], _, _, hs, _, hlast, _ => .ok hs (.refl _) hlast
  | form :: rest, _, session, hs, henv, _, hprogram => by
    obtain ⟨hform, hrest⟩ := closedProgram_cons.1 hprogram
    have hkept : KeptScoped session (Semantics.eval ev.config.maxDepth ev.depth form ev.env session) :=
      Semantics.scoped_form hs henv hform
    have hdefined : Kept Store.WellScoped Store.Widens
        (fun t v => v.WellScopedIn t ∧ ∀ name, form.target? = some name → t.Visible ev.env name) Error.OfBound
        session (Semantics.eval ev.config.maxDepth ev.depth form ev.env session) :=
      ⟨hkept.invariant, hkept.related, fun v hv => ⟨hkept.value v hv, fun name htarget =>
        Semantics.visible_target htarget hv (hkept.related.lt_size henv)⟩, hkept.cause⟩
    rw [answer_executeFrom_cons]
    refine hdefined.bind .trans fun v t ht hw hv => ?_
    refine scoped_executeFrom ev rest ht (hw.lt_size henv) hv.1 (hrest.mono fun name hname => ?_)
    rcases hname with hname | hname
    · exact hw.visible hname
    · exact hv.2 name hname

/-- **Well-scoped programs never meet a name that is not bound.**  In a well-scoped store, a program that is closed over
the names visible from the evaluator's scope gives no such error, under any limit, and leaves the store well scoped
whether it succeeds or fails. -/
theorem execute_ne_unbound (ev : Evaluator) {program : List Expr} {session : Session ε}
    (hs : session.store.WellScoped) (henv : ev.env < session.store.scopes.size)
    (hprogram : ClosedProgram (session.store.Visible ev.env) program) :
    (∀ name, (ev.execute program session).result ≠ .error (.unbound name)) ∧
      (ev.execute program session).session.store.WellScoped := by
  have hnull : (Value.null : Value ε).WellScopedIn session.store := ⟨rfl, trivial⟩
  have hkept : KeptScoped (session.record (.program program.length)) (ev.execute program session).answer :=
    ev.scoped_executeFrom program hs henv hnull hprogram
  exact ⟨fun name hname => hkept.cause _ hname, hkept.invariant⟩

/-- A function that calls itself, and a name defined with its help. -/
theorem execute_ne_unbound_factorial :
    let program : List Expr :=
      [.list [.keyword .define, .symbol "product", .list [.keyword .lambda, .list [.symbol "n"],
        .list [.keyword .branch, .list [.symbol "=", .symbol "n", .num (.int 0)], .num (.int 1),
          .list [.symbol "*", .symbol "n", .list [.symbol "product", .list [.symbol "-", .symbol "n", .num (.int 1)]]]]]],
        .list [.keyword .define, .symbol "k", .list [.symbol "product", .num (.int 5)]],
        .list [.symbol "product", .symbol "k"]]
    let outcome := (inScope 1).execute program (.ofStore (Store.empty : Store Empty).fresh.2)
    (∀ name, outcome.result ≠ .error (.unbound name)) ∧ outcome.session.store.WellScoped := by
  intro program outcome
  have hstart : (Store.empty : Store Empty).WellScoped := .empty
  have hvisible := (Store.empty : Store Empty).visible_fresh
  refine (inScope 1).execute_ne_unbound hstart.fresh (by decide) ?_
  simp only [program, closedProgram_cons]
  refine ⟨?_, ?_, ?_, closedProgram_nil⟩
  · intro name hname
    have hcases : name = "=" ∨ name = "*" ∨ name = "product" ∨ name = "-" := by
      simpa [Expr.free, Expr.freeItems, and_or_left] using hname
    rcases hcases with rfl | rfl | rfl | rfl
    · exact .inl (hvisible .equal)
    · exact .inl (hvisible .multiply)
    · exact .inr rfl
    · exact .inl (hvisible .subtract)
  · intro name hname
    have hname : name = "product" := by simpa [Expr.free, Expr.freeItems] using hname
    exact .inl (.inr (hname ▸ rfl))
  · intro name hname
    have hcases : name = "product" ∨ name = "k" := by simpa [Expr.free, Expr.freeItems] using hname
    rcases hcases with rfl | rfl
    · exact .inl (.inl (.inr rfl))
    · exact .inl (.inr rfl)

end Evaluator
end Lisplet
