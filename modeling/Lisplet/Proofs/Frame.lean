import Lisplet.Proofs.Evaluation
import Lisplet.Proofs.Session
/-!
# What an evaluation leaves alone

Evaluating an expression writes in one of the scopes that were there before, the scope in which it is evaluated, and
there it binds only names that the expression itself defines (`Expr.Defines`).  A definition under a `lambda` does not
count: it is carried out, if at all, by a call, and a call writes only in scopes that are made for it.

`Store.Frame` says this of two stores, and `frame_closed` that every rule of evaluation keeps it.
-/
namespace Lisplet

variable {ε : Type}

/-! ## The names that an expression defines -/

namespace Expr

/-- The name is the target of a definition that stands in the expression, outside every list headed by `lambda`. -/
inductive Defines (name : String) : Expr → Prop where
  | here (value : Expr) : Defines name (.list [.keyword .define, .symbol name, value])
  | inside {items : List Expr} {item : Expr} (hl : items.head? ≠ some (.keyword .lambda)) (hm : item ∈ items)
    (hd : Defines name item) : Defines name (.list items)

theorem Defines.of_define {e value : Expr} {name target : String} (hf : e.form = .ok (.define target value))
    (h : value.Defines name) : e.Defines name := by
  rw [eq_of_form_define hf]
  exact .inside (by simp) (by simp) h

theorem defines_of_form {e value : Expr} {name : String} (hf : e.form = .ok (.define name value)) :
    e.Defines name := by
  rw [eq_of_form_define hf]
  exact .here value

theorem Defines.of_branch {e c a b part : Expr} {name : String} (hf : e.form = .ok (.branch c a b))
    (hm : part ∈ [c, a, b]) (h : part.Defines name) : e.Defines name := by
  rw [eq_of_form_branch hf]
  exact .inside (by simp) (List.mem_cons_of_mem _ hm) h

theorem head_ne_keyword_of_form {e head : Expr} {operands : List Expr} (hf : e.form = .ok (.call head operands))
    (k : Keyword) : head ≠ .keyword k := by
  rintro rfl
  rw [eq_of_form_call hf] at hf
  cases k with
  | define => obtain ⟨_, _, hd⟩ := Form.ofDefine_ok hf; cases hd
  | branch => obtain ⟨_, _, _, hb⟩ := Form.ofBranch_ok hf; cases hb
  | lambda => obtain ⟨_, _, hl⟩ := Form.ofLambda_ok hf; cases hl

theorem Defines.of_call {e head part : Expr} {operands : List Expr} {name : String}
    (hf : e.form = .ok (.call head operands)) (hm : part ∈ head :: operands) (h : part.Defines name) :
    e.Defines name := by
  have hh := head_ne_keyword_of_form hf .lambda
  rw [eq_of_form_call hf]
  exact .inside (by simpa using hh) hm h

end Expr

/-! ## Frames -/

/-- The scope keeps its parent, loses no name, and differs at most in the bindings of the names in `writes`. -/
structure Scope.Updated (writes : String → Prop) (before after : Scope ε) : Prop where
  parent : after.parent = before.parent
  kept : ∀ name, (before.get? name).isSome → (after.get? name).isSome
  changed : ∀ name, after.get? name ≠ before.get? name → writes name

namespace Scope.Updated

variable {writes : String → Prop}

theorem refl (s : Scope ε) : s.Updated writes s :=
  ⟨rfl, fun _ h => h, fun _ h => absurd rfl h⟩

theorem trans {s t u : Scope ε} (h : s.Updated writes t) (h' : t.Updated writes u) : s.Updated writes u where
  parent := h'.parent.trans h.parent
  kept name hn := h'.kept name (h.kept name hn)
  changed name hn := by
    by_cases hc : t.get? name = s.get? name
    · exact h'.changed name (hc ▸ hn)
    · exact h.changed name hc

theorem mono {writes' : String → Prop} {s t : Scope ε} (hw : ∀ name, writes name → writes' name)
    (h : s.Updated writes t) : s.Updated writes' t :=
  ⟨h.parent, h.kept, fun name hn => hw name (h.changed name hn)⟩

theorem define (s : Scope ε) {name : String} (v : Value ε) (hw : writes name) :
    s.Updated writes (s.define name v) where
  parent := rfl
  kept other ho := by
    rw [get?_define]
    split
    · rfl
    · exact ho
  changed other ho := by
    rw [get?_define] at ho
    split at ho
    · next he => exact he ▸ hw
    · exact absurd rfl ho

end Scope.Updated

namespace Store

def Unchanged (before after : Store ε) : Prop :=
  ∀ (i : ScopeId) (scope : Scope ε), before.scopes[i]? = some scope → after.scopes[i]? = some scope

/-- **The frame of a computation in the scope `env`**: of the scopes that were there before, no other changes, and in
`env` itself only the names in `writes` are bound. -/
structure Frame (env : ScopeId) (writes : String → Prop) (before after : Store ε) : Prop where
  others : ∀ (i : ScopeId) (scope : Scope ε), i ≠ env → before.scopes[i]? = some scope → after.scopes[i]? = some scope
  own : ∀ scope, before.scopes[env]? = some scope →
    ∃ scope', after.scopes[env]? = some scope' ∧ scope.Updated writes scope'

theorem Unchanged.of_scopes_eq {s t : Store ε} (h : t.scopes = s.scopes) : s.Unchanged t := by
  intro i scope hs
  rw [h, hs]

theorem Unchanged.frame {s t : Store ε} (h : s.Unchanged t) (env : ScopeId) (writes : String → Prop) :
    s.Frame env writes t :=
  ⟨fun i scope _ hs => h i scope hs, fun scope hs => ⟨scope, h env scope hs, .refl scope⟩⟩

namespace Frame

variable {env : ScopeId} {writes : String → Prop}

theorem refl (s : Store ε) : s.Frame env writes s :=
  Unchanged.frame (.of_scopes_eq rfl) env writes

theorem trans {s t u : Store ε} (h : s.Frame env writes t) (h' : t.Frame env writes u) : s.Frame env writes u where
  others i scope hi hs := h'.others i scope hi (h.others i scope hi hs)
  own scope hs := by
    obtain ⟨scope', ht, hu⟩ := h.own scope hs
    obtain ⟨scope'', hu', hu''⟩ := h'.own scope' ht
    exact ⟨scope'', hu', hu.trans hu''⟩

theorem mono {writes' : String → Prop} {s t : Store ε} (hw : ∀ name, writes name → writes' name)
    (h : s.Frame env writes t) : s.Frame env writes' t where
  others := h.others
  own scope hs := by
    obtain ⟨scope', ht, hu⟩ := h.own scope hs
    exact ⟨scope', ht, hu.mono hw⟩

theorem define (s : Store ε) {name : String} (v : Value ε) (hw : writes name) :
    s.Frame env writes (s.define env name v) where
  others i scope hi hs := by rw [getElem?_define_of_ne s name v hi, hs]
  own scope hs := ⟨scope.define name v, by rw [getElem?_define, if_pos rfl, hs]; rfl, .define scope v hw⟩

end Frame
end Store

/-! ## Calls -/

namespace Session

theorem unchanged_newClosure (s : Session ε) (params : List String) (body : Expr) (env : ScopeId) :
    s.store.Unchanged (s.newClosure params body env).2.store :=
  .of_scopes_eq rfl

theorem unchanged_of_entered {s t u : Session ε} {limit depth : Nat} {name : String} {c : Closure}
    {args : List (Value ε)} {frame : ScopeId} {writes : String → Prop}
    (h : s.beginCall limit depth name c args = .ok (frame, t)) (hf : t.store.Frame frame writes u.store) :
    s.store.Unchanged u.store := by
  obtain ⟨_, _, rfl, rfl⟩ := beginCall_eq_ok h
  intro i scope hs
  have hi : i < s.store.scopes.size := (Array.getElem?_eq_some_iff.1 hs).1
  have hne : i ≠ (s.openFrame c args).1 := Nat.ne_of_lt hi
  exact hf.others i scope hne (by rw [store_record, getElem?_openFrame s c args hi, hs])

end Session

/-! ## Evaluations -/

namespace Semantics

theorem frame_bind {α β : Type} {env : ScopeId} {writes : String → Prop} {s : Session ε} {a : Answer ε α}
    {f : α → Session ε → Answer ε β} (ha : s.store.Frame env writes a.2.store)
    (hf : ∀ v (t : Session ε), t.store.Frame env writes (f v t).2.store) : s.store.Frame env writes (a.bind f).2.store :=
  Answer.session_bind (R := fun s t => s.store.Frame env writes t.store) (fun h h' => h.trans h') ha hf

theorem frame_callWith {env : ScopeId} {writes : String → Prop} {head : Expr}
    {operands : Session ε → Answer ε (List (Value ε))}
    {call : Callable ε → List (Value ε) → Session ε → Answer ε (Value ε)}
    (ho : ∀ t : Session ε, t.store.Frame env writes (operands t).2.store)
    (hc : ∀ callee args (t : Session ε), t.store.Unchanged (call callee args t).2.store) (v : Value ε) (t : Session ε) :
    t.store.Frame env writes (callWith head operands call v t).2.store := by
  unfold callWith
  split
  · exact .refl _
  · next callee _ => exact frame_bind (ho t) fun args u => (hc callee args u).frame env writes

variable [Host ε]

/-- **Every rule of evaluation keeps the frame.** -/
theorem frame_closed (limit : Nat) :
    Closed limit
      (fun _ e env (s : Session ε) a => s.store.Frame env e.Defines a.2.store)
      (fun _ es env s a => s.store.Frame env (fun name => ∃ e ∈ es, e.Defines name) a.2.store)
      (fun _ _ _ _ s a => s.store.Unchanged a.2.store) where
  malformed _ := .refl _
  constant _ := .refl _
  reference _ := .refl _
  define hf hv := frame_bind (hv.mono fun _ hd => hd.of_define hf) fun v t =>
    .define t.store v (Expr.defines_of_form hf)
  branch hf hc hx hy := frame_bind (hc.mono fun _ hd => hd.of_branch hf (by simp)) fun v t => by
    split
    · exact (hx t).mono fun _ hd => hd.of_branch hf (by simp)
    · exact (hy t).mono fun _ hd => hd.of_branch hf (by simp)
  lambda {_ e env s params body} _ := (s.unchanged_newClosure params body env).frame env e.Defines
  call hf hh ho hc := frame_bind (hh.mono fun _ hd => hd.of_call hf List.mem_cons_self) <|
    frame_callWith (fun t => (ho t).mono fun _ ⟨_, hm, hd⟩ => hd.of_call hf (List.mem_cons_of_mem _ hm)) hc
  nil := .refl _
  cons he hr := frame_bind (he.mono fun _ hd => ⟨_, List.mem_cons_self, hd⟩) fun v t =>
    frame_bind ((hr t).mono fun _ ⟨e, hm, hd⟩ => ⟨e, List.mem_cons_of_mem _ hm, hd⟩) fun _ _ => .refl _
  builtin := .of_scopes_eq rfl
  refused hb := .of_scopes_eq (by rw [Session.store_of_refused hb])
  entered hb hf := Session.unchanged_of_entered hb hf

end Semantics

namespace Evaluator

variable [Host ε]

/-- **The frame law.**  Whether it ends in a value or in an error, evaluating an expression changes no scope that was
there before but the one in which it is evaluated, and there at most the bindings of the names that the expression
defines; applying a value changes none. -/
theorem evaluate_frame (ev : Evaluator) (e : Expr) (env : ScopeId) (session : Session ε) :
    session.store.Frame env e.Defines (ev.evaluate e env session).session.store ∧
    ∀ (name : String) (callee : Value ε) (args : List (Value ε)),
      session.store.Unchanged (ev.apply name callee args session).session.store := by
  refine ⟨?_, fun name callee args => ?_⟩
  · rw [evaluate_eq]
    exact (Semantics.frame_closed ev.config.maxDepth).eval ev.depth e env session
  · rw [apply_eq]
    cases callee.callable? with
    | none => exact .of_scopes_eq rfl
    | some callee => exact (Semantics.frame_closed ev.config.maxDepth).apply ev.depth name callee args session

end Evaluator
end Lisplet
