import Lisplet.Proofs.Frame
import Lisplet.Proofs.Relocation
/-!
# Two runs of the same work

From stores of which one mirrors the other, the same work comes to the same end: the same error, or the same value up to
where it stands, the same events, and again stores that mirror each other (`Mirrored`).  The relocation is chosen at the
start and serves for the whole of the run, since both runs make their scopes and closures in step (`mirrored_closed`).
-/
namespace Lisplet

variable {ε α β : Type}

/-! ## Frames of calls -/

theorem Session.mirrors_openFrame {r : Relocation} {s t : Session ε} {c : Closure} {args : List (Value ε)}
    (h : s.store.Mirrors r t.store) (hc : r.Covers c.env) (hargs : ∀ v ∈ args, v.Within r) :
    (s.openFrame c args).2.store.Mirrors r (t.openFrame (c.relocate r) (args.map (Value.relocate r))).2.store ∧
      (t.openFrame (c.relocate r) (args.map (Value.relocate r))).1 = r.scope (s.openFrame c args).1 ∧
      r.Covers (s.openFrame c args).1 := by
  have hframe : r.scope s.store.scopes.size = t.store.scopes.size := h.scope_size
  have hbound := Store.Mirrors.defineAll s.store.scopes.size c.params args (h.child hc) hargs
  rw [hframe] at hbound
  exact ⟨hbound, hframe.symm, .inr h.scopes_le⟩

/-! ## Answers -/

namespace Semantics

/-- **The answer `b`, given from the session `t`, is the answer `a`, given from the session `s`, at its new place**:
`move` takes the value of the one to the value of the other. -/
structure Mirrored (r : Relocation) (move : α → α) (fits : α → Prop) (s t : Session ε) (a b : Answer ε α) : Prop where
  result : b.1 = a.1.map move
  fits : ∀ v, a.1 = .ok v → fits v
  store : a.2.store.Mirrors r b.2.store
  recorded : ∃ new, a.2.recorded = new ++ s.recorded ∧ b.2.recorded = new ++ t.recorded

abbrev MirroredValue (r : Relocation) : Session ε → Session ε → Answer ε (Value ε) → Answer ε (Value ε) → Prop :=
  Mirrored r (Value.relocate r) (Value.Within r)

abbrev MirroredValues (r : Relocation) :
    Session ε → Session ε → Answer ε (List (Value ε)) → Answer ε (List (Value ε)) → Prop :=
  Mirrored r (List.map (Value.relocate r)) fun vs => ∀ v ∈ vs, v.Within r

namespace Mirrored

variable {r : Relocation} {move : α → α} {fits : α → Prop} {move' : β → β} {fits' : β → Prop} {s t : Session ε}

theorem error (h : s.store.Mirrors r t.store) (e : Error) : Mirrored r move fits s t (.error e, s) (.error e, t) :=
  ⟨rfl, nofun, h, [], rfl, rfl⟩

theorem ok (h : s.store.Mirrors r t.store) {v : α} (hv : fits v) :
    Mirrored r move fits s t (.ok v, s) (.ok (move v), t) := by
  refine ⟨rfl, fun w hw => ?_, h, [], rfl, rfl⟩
  cases hw
  exact hv

theorem bind {a b : Answer ε α} {f g : α → Session ε → Answer ε β} (h : Mirrored r move fits s t a b)
    (hf : ∀ v (u w : Session ε), fits v → u.store.Mirrors r w.store →
      Mirrored r move' fits' u w (f v u) (g (move v) w)) :
    Mirrored r move' fits' s t (a.bind f) (b.bind g) := by
  obtain ⟨x, u⟩ := a
  obtain ⟨y, w⟩ := b
  have hxy : y = x.map move := h.result
  subst hxy
  cases x with
  | error e => exact ⟨rfl, nofun, h.store, h.recorded⟩
  | ok v =>
    have hnext := hf v u w (h.fits v rfl) h.store
    obtain ⟨new, hu, hw⟩ := h.recorded
    obtain ⟨more, hmore, hmore'⟩ := hnext.recorded
    have hu' : u.recorded = new ++ s.recorded := hu
    have hw' : w.recorded = new ++ t.recorded := hw
    refine ⟨hnext.result, hnext.fits, hnext.store, more ++ new, ?_, ?_⟩
    · rw [List.append_assoc, ← hu']
      exact hmore
    · rw [List.append_assoc, ← hw']
      exact hmore'

end Mirrored

variable {r : Relocation}

theorem mirrored_callWith {head : Expr} {operands operands' : Session ε → Answer ε (List (Value ε))}
    {enter enter' : Callable ε → List (Value ε) → Session ε → Answer ε (Value ε)}
    (ho : ∀ s t : Session ε, s.store.Mirrors r t.store → MirroredValues r s t (operands s) (operands' t))
    (hc : ∀ (callee : Callable ε) (args : List (Value ε)) (s t : Session ε), callee.Standard (fun c => r.Covers c.env) →
      (∀ v ∈ args, v.Within r) → s.store.Mirrors r t.store →
      MirroredValue r s t (enter callee args s) (enter' (callee.relocate r) (args.map (Value.relocate r)) t))
    {v : Value ε} {s t : Session ε} (hv : v.Within r) (h : s.store.Mirrors r t.store) :
    MirroredValue r s t (callWith head operands enter v s) (callWith head operands' enter' (v.relocate r) t) := by
  unfold callWith
  rw [Value.callable?_relocate, Value.kind_relocate]
  cases hcallee : v.callable? with
  | none => exact .error h _
  | some callee =>
    refine (ho s t h).bind fun args u w hargs huw => ?_
    exact hc callee args u w (hv.callable? hcallee) hargs huw

variable [Host ε]

theorem mirrored_refused {limit depth : Nat} {name : String} {c : Closure} {args : List (Value ε)} {s s' t : Session ε}
    {cause : Error} (hb : s.beginCall limit depth name c args = .error (cause, s')) (h : s.store.Mirrors r t.store) :
    MirroredValue r s t (.error cause, s')
      (call limit depth name (.closure (c.relocate r)) (args.map (Value.relocate r)) t) := by
  have hlen : (args.map (Value.relocate r)).length = args.length := List.length_map ..
  rcases Session.beginCall_eq_error hb with ⟨hp, rfl, rfl⟩ | ⟨hp, hl, rfl, rfl⟩
  · have hp' : (c.relocate r).params.length ≠ (args.map (Value.relocate r)).length := by rwa [hlen]
    rw [call_refused (Session.beginCall_of_length_ne hp'), hlen]
    exact .error h _
  · have hp' : (c.relocate r).params.length = (args.map (Value.relocate r)).length := by rwa [hlen]
    rw [call_refused (Session.beginCall_of_le hp' hl)]
    refine ⟨rfl, fun v hv => ?_, h, [.tooDeep limit], rfl, rfl⟩
    cases hv

theorem mirrored_entered {limit depth : Nat} {name : String} {c : Closure} {args : List (Value ε)} {s s' t : Session ε}
    {frame : ScopeId} {a : Answer ε (Value ε)} (hb : s.beginCall limit depth name c args = .ok (frame, s'))
    (ha : ∀ t', r.Covers frame → s'.store.Mirrors r t'.store →
      MirroredValue r s' t' a (eval limit (depth + 1) c.body (r.scope frame) t'))
    (hc : r.Covers c.env) (hargs : ∀ v ∈ args, v.Within r) (h : s.store.Mirrors r t.store) :
    MirroredValue r s t a (call limit depth name (.closure (c.relocate r)) (args.map (Value.relocate r)) t) := by
  obtain ⟨hp, hl, rfl, rfl⟩ := Session.beginCall_eq_ok hb
  obtain ⟨hstore, hframe, hcov⟩ := Session.mirrors_openFrame h hc hargs
  have hp' : (c.relocate r).params.length = (args.map (Value.relocate r)).length := by
    rw [List.length_map]
    exact hp
  rw [call_entered (Session.beginCall_of_lt hp' hl), hframe, Closure.body_relocate]
  -- the body is the same, and the frame stands at the place that belongs to it
  have hbody := ha ((t.openFrame (c.relocate r) (args.map (Value.relocate r))).2.record
    (.closure name (c.relocate r).params.length depth)) hcov hstore
  obtain ⟨new, hnew, hnew'⟩ := hbody.recorded
  refine ⟨hbody.result, hbody.fits, hbody.store, new ++ [.closure name c.params.length depth], ?_, ?_⟩
  · rw [hnew, List.append_assoc]
    rfl
  · rw [hnew', List.append_assoc]
    rfl

/-- **Every rule of evaluation does the same in both runs.** -/
theorem mirrored_closed (r : Relocation) (limit : Nat) :
    Closed limit
      (fun depth e env (s : Session ε) a => ∀ t, r.Covers env → s.store.Mirrors r t.store →
        MirroredValue r s t a (eval limit depth e (r.scope env) t))
      (fun depth es env s a => ∀ t, r.Covers env → s.store.Mirrors r t.store →
        MirroredValues r s t a (evalOperands limit depth es (r.scope env) t))
      (fun depth name callee args s a => ∀ t, callee.Standard (fun c => r.Covers c.env) → (∀ v ∈ args, v.Within r) →
        s.store.Mirrors r t.store →
        MirroredValue r s t a (call limit depth name (callee.relocate r) (args.map (Value.relocate r)) t)) where
  malformed hf t henv h := by
    rw [eval_malformed hf]
    exact .error h _
  constant hf t henv h := by
    rw [eval_constant hf]
    exact .ok h trivial
  reference hf t henv h := by
    rw [eval_reference hf]
    exact ⟨h.resolve henv _, fun v hv => h.within_resolve henv hv, h, [], rfl, rfl⟩
  define {depth e env s name value a} hf hv t henv h := by
    rw [eval_define hf]
    refine (hv t henv h).bind fun v u w hfits huw => ?_
    refine ⟨rfl, fun _ hnull => ?_, huw.define env name hfits, [.define name v.text], rfl, ?_⟩
    · cases hnull
      trivial
    · simp only [Session.define, Session.record, Value.text_relocate]
      rfl
  branch {depth e env s c x y a A B} hf hc hx hy t henv h := by
    rw [eval_branch hf]
    refine (hc t henv h).bind fun v u w _ huw => ?_
    rw [Value.isTruthy_relocate]
    cases v.isTruthy with
    | true => exact hx u w henv huw
    | false => exact hy u w henv huw
  lambda {depth e env s params body} hf t henv h := by
    rw [eval_lambda hf]
    have hmove := h.relocate_newClosure params body env
    refine ⟨?_, fun v hv => ?_, h.newClosure params body env, [], rfl, rfl⟩
    · simp only [Session.newClosure, Except.map, Value.relocate, hmove]
    · cases hv
      exact henv
  call {depth e env s head operands a A B} hf hh ho hc t henv h := by
    rw [eval_call hf]
    refine (hh t henv h).bind fun v u w hfits huw => ?_
    exact mirrored_callWith (fun s t hst => ho s t henv hst)
      (fun callee args s t hcallee hargs hst => hc callee args s t hcallee hargs hst) hfits huw
  nil {depth env s} t henv h := by
    rw [evalOperands_nil]
    exact .ok h fun v hv => by cases hv
  cons {depth e rest env s a A} he hr t henv h := by
    rw [evalOperands_cons_bind]
    refine (he t henv h).bind fun v u w hfits huw => ?_
    refine (hr u w henv huw).bind fun vs u w hall huw => ?_
    exact .ok huw fun x hx => by
      rcases List.mem_cons.1 hx with rfl | hx
      · exact hfits
      · exact hall x hx
  builtin {depth name tool args s} t htool hargs h := by
    cases tool with
    | host tool => exact absurd htool id
    | operator op =>
      rw [Callable.relocate, call_builtin]
      have hrun := op.run_relocate r args
      refine ⟨hrun, fun v hv => Operator.standard_run hv, h, [.builtin op.spelling args.length], rfl, ?_⟩
      rw [List.length_map]
      rfl
  refused hb t _ _ h := mirrored_refused hb h
  entered hb ha t hc hargs h := mirrored_entered hb ha hc hargs h

end Semantics

/-! ## Evaluators -/

namespace Evaluator

open Semantics (MirroredValue)

variable [Host ε] {r : Relocation} {s t : Session ε}

theorem mirrored_evaluate (ev : Evaluator) (e : Expr) (env : ScopeId) (henv : r.Covers env)
    (h : s.store.Mirrors r t.store) :
    MirroredValue r s t (ev.evaluate e env s).answer (ev.evaluate e (r.scope env) t).answer := by
  rw [answer_evaluate, answer_evaluate]
  exact (Semantics.mirrored_closed r ev.config.maxDepth).eval ev.depth e env s t henv h

theorem mirrored_apply (ev : Evaluator) (name : String) {callee : Value ε} {args : List (Value ε)}
    (hcallee : callee.Within r) (hargs : ∀ v ∈ args, v.Within r) (h : s.store.Mirrors r t.store) :
    MirroredValue r s t (ev.apply name callee args s).answer
      (ev.apply name (callee.relocate r) (args.map (Value.relocate r)) t).answer := by
  rw [apply_eq, apply_eq, Value.callable?_relocate, Value.kind_relocate]
  cases hc : callee.callable? with
  | none => exact .error h _
  | some callable =>
    exact (Semantics.mirrored_closed r ev.config.maxDepth).apply ev.depth name callable args s t
      (hcallee.callable? hc) hargs h

theorem mirrored_executeFrom (ev : Evaluator) (henv : r.Covers ev.env) :
    ∀ (program : List Expr) {last : Value ε} {s t : Session ε}, last.Within r → s.store.Mirrors r t.store →
      MirroredValue r s t (ev.executeFrom last s program).answer
        ({ ev with env := r.scope ev.env }.executeFrom (last.relocate r) t program).answer
  | [], _, _, _, hlast, h => .ok h hlast
  | form :: rest, _, s, t, _, h => by
    have hform := (Semantics.mirrored_closed r ev.config.maxDepth).eval ev.depth form ev.env s t henv h
    rw [answer_executeFrom_cons, answer_executeFrom_cons]
    exact hform.bind fun v u w hv huw => mirrored_executeFrom ev henv rest hv huw

theorem mirrored_evalSource (ev : Evaluator) (henv : r.Covers ev.env) (source : String)
    (h : s.store.Mirrors r t.store) :
    MirroredValue r s t (ev.evalSource source s).answer
      ({ ev with env := r.scope ev.env }.evalSource source t).answer := by
  unfold evalSource
  cases parse source with
  | error e => exact .error h e
  | ok program =>
    have hnull : (Value.null : Value ε).Within r := trivial
    have hrun : MirroredValue r (s.record (.program program.length)) (t.record (.program program.length)) _ _ :=
      ev.mirrored_executeFrom henv program hnull h
    obtain ⟨new, hs, ht⟩ := hrun.recorded
    refine ⟨hrun.result, hrun.fits, hrun.store, new ++ [.program program.length], ?_, ?_⟩
    · rw [List.append_assoc]
      exact hs
    · rw [List.append_assoc]
      exact ht

end Evaluator
end Lisplet
