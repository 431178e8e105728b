import Lisplet.Probe
import Lisplet.Proofs.Frame
import Lisplet.Proofs.Operators
/-!
# Where aliases come from

A variable that is an alias is followed to its end whenever it is evaluated, so an evaluation never has an alias in its
hands: not as its value, not as an operand, and not as what a definition binds.  Only a host can bind a name to an
alias, and an alias that is bound after an evaluation was bound there before it.

In every state that the machine passes through, the value in focus and the values that frames have gathered are plain,
and so is what the store binds, the aliases from the start apart (`Plain.step`).  Tools are taken as a family, each of
which returns plain values for plain values: a tool may return another tool, which then has to be of the family too.  It
is not enough that the tools that are bound return no alias, since a tool that one of them returns may (`Relay`).
-/
namespace Lisplet

variable {ε : Type}

/-! ## Plain values -/

/-- The value is no alias, and if it is a tool, it is one of the family `T`. -/
def Value.Plain (T : Tool ε → Prop) : Value ε → Prop
  | .symbol _ => False
  | .builtin tool => T tool
  | _ => True

def Callable.Plain (T : Tool ε → Prop) : Callable ε → Prop
  | .builtin tool => T tool
  | .closure _ => True

theorem Value.Plain.alias? {T : Tool ε → Prop} {v : Value ε} (h : v.Plain T) : v.alias? = none := by
  cases v with
  | symbol name => exact absurd h id
  | null | bool | num | closure | builtin => rfl

theorem Value.Plain.callable? {T : Tool ε → Prop} {v : Value ε} {callee : Callable ε} (h : v.Plain T)
    (hc : v.callable? = some callee) : callee.Plain T := by
  cases v with
  | builtin tool => cases hc; exact h
  | closure c => cases hc; trivial
  | null | bool | num | symbol => cases hc

/-- **The tools of the family return plain values for plain values.**  For the family of all tools this says that a tool
returns an alias only if it was handed one. -/
def Tool.KeepsPlain [Host ε] (T : Tool ε → Prop) : Prop :=
  ∀ (tool : Tool ε) (args : List (Value ε)) (v : Value ε), T tool → (∀ a ∈ args, a.Plain T) → tool.run args = .ok v →
    v.Plain T

def Tool.IsOperator (tool : Tool ε) : Prop :=
  ∃ op, tool = .operator op

theorem Tool.keepsPlain_operators [Host ε] : KeepsPlain (ε := ε) IsOperator := by
  rintro _ args v ⟨op, rfl⟩ _ hrun
  rcases Operator.run_eq_ok hrun with ⟨n, rfl⟩ | ⟨b, rfl⟩
  · trivial
  · trivial

/-! ## Stores -/

namespace Store

/-- What is bound is plain, or it is an alias that was bound under the name in that scope at the start. -/
def PlainSince (T : Tool ε → Prop) (s start : Store ε) : Prop :=
  s.Binds fun i name v => v.Plain T ∨ v.alias?.isSome ∧ (start.bindings i).find? name = some v

def HasTools (T : Tool ε → Prop) (s : Store ε) : Prop :=
  s.Binds fun _ _ v => ∀ tool, v = .builtin tool → T tool

/-- The tools that are bound in the store return no alias for operands none of which is one.  Nothing is said of tools
that they return. -/
def BoundToolsKeepPlain [Host ε] (s : Store ε) : Prop :=
  s.Binds fun _ _ v => ∀ (tool : Tool ε) (args : List (Value ε)) (w : Value ε), v = .builtin tool →
    (∀ a ∈ args, a.alias? = none) → tool.run args = .ok w → w.alias? = none

/-- **An alias that is bound in `t` was bound in `s`**, under the same name in the same scope. -/
def AliasesFrom (s t : Store ε) : Prop :=
  t.Binds fun i name v => v.alias?.isSome → (s.bindings i).find? name = some v

variable {T : Tool ε → Prop} {start s : Store ε}

theorem HasTools.plainSince (h : s.HasTools T) : s.PlainSince T s := by
  intro i x name v hx hv
  have htools := h i x name v hx hv
  cases v with
  | symbol target => exact .inr ⟨rfl, by rw [bindings, hx]; exact hv⟩
  | builtin tool => exact .inl (htools tool rfl)
  | null | bool | num | closure => exact .inl trivial

theorem PlainSince.aliasesFrom (h : s.PlainSince T start) : start.AliasesFrom s := by
  intro i x name v hx hv halias
  rcases h i x name v hx hv with hplain | ⟨_, hstart⟩
  · rw [hplain.alias?] at halias
    cases halias
  · exact hstart

theorem PlainSince.plain_resolve (h : s.PlainSince T start) {env : ScopeId} {name : String} {v : Value ε}
    (hv : s.resolve env name = .ok v) : v.Plain T := by
  obtain ⟨_, _, hplain | ⟨halias, _⟩, hnone⟩ := h.resolve hv
  · exact hplain
  · rw [hnone] at halias
    cases halias

end Store

/-! ## The closure calls of a run -/

namespace Machine

def State.closureCall? : State ε → Option (Closure × List (Value ε))
  | ⟨.answer (.ok (.closure c)), .head _ [] _ :: _, _, _⟩ => some (c, [])
  | ⟨.answer (.ok v), .operand _ (.closure c) done [] _ :: _, _, _⟩ => some (c, (v :: done).reverse)
  | _ => none

section Foretold

variable [Host ε]

theorem step_of_closureCall? {st : State ε} {c : Closure} {args : List (Value ε)}
    (hc : st.closureCall? = some (c, args)) (limit : Nat) :
    ∃ name, step limit st = .inl (call limit name (.closure c) args st.stack.tail st.depth st.session) := by
  unfold State.closureCall? at hc
  split at hc
  · cases hc
    exact ⟨_, rfl⟩
  · cases hc
    exact ⟨_, rfl⟩
  · cases hc

theorem size_operands {limit depth : Nat} {name : String} {callee : Callable ε} {done : List (Value ε)}
    {rest : List Expr} {env : ScopeId} {stack : List (Frame ε)} {session : Session ε}
    (h : ∀ c, callee = .closure c → rest ≠ []) :
    (operands limit name callee done rest env stack depth session).session.store.scopes.size =
      session.store.scopes.size := by
  cases rest with
  | cons e rest => rfl
  | nil =>
    cases callee with
    | builtin tool => rfl
    | closure c => exact absurd rfl (h c rfl)

theorem size_of_step {limit : Nat} {st t : State ε} (hc : st.closureCall? = none) (hs : step limit st = .inl t) :
    t.session.store.scopes.size = st.session.store.scopes.size := by
  obtain ⟨focus, stack, depth, session⟩ := st
  cases focus with
  | eval e env =>
    cases hs
    unfold enter
    split <;> rfl
  | answer result =>
    cases stack with
    | nil => cases hs
    | cons frame stack =>
      cases result with
      | error e =>
        cases hs
        cases frame <;> rfl
      | ok v =>
        cases hs
        cases frame with
        | define name env => simp [resume, State.answer, Session.define, Session.record, Store.define]
        | branch consequent alternative env => rfl
        | head head rest env =>
          unfold resume
          cases hv : v.callable? with
          | none => rfl
          | some callee =>
            refine size_operands fun c he hrest => ?_
            subst he hrest
            -- only a closure is called as one, and this state would foretell the call
            cases v with
            | closure d => cases hc
            | null | bool | num | symbol | builtin => cases hv
        | operand name callee done rest env =>
          refine size_operands fun c he hrest => ?_
          subst he hrest
          cases v <;> cases hc
        | leave => rfl

/-- **A step that lets in no alias**: it calls no closure and adds no scope, or it calls one on operands none of which is
an alias. -/
def CallsPlainly (limit : Nat) (st t : State ε) : Prop :=
  (st.closureCall? = none ∧ t.session.store.scopes.size = st.session.store.scopes.size) ∨
  ∃ name c args, st.closureCall? = some (c, args) ∧
    t = call limit name (.closure c) args st.stack.tail st.depth st.session ∧ ∀ v ∈ args, v.alias? = none

theorem callsPlainly_of_step {limit : Nat} {st t : State ε} (hs : step limit st = .inl t)
    (h : ∀ c args, st.closureCall? = some (c, args) → ∀ v ∈ args, v.alias? = none) : CallsPlainly limit st t := by
  cases hc : st.closureCall? with
  | none => exact .inl ⟨hc, size_of_step hc hs⟩
  | some made =>
    obtain ⟨c, args⟩ := made
    obtain ⟨name, hcall⟩ := step_of_closureCall? hc limit
    exact .inr ⟨name, c, args, hc, Sum.inl.inj (hs.symm.trans hcall), h c args hc⟩

end Foretold
end Machine

/-! ## States of the machine -/

def Frame.Plain (T : Tool ε → Prop) : Frame ε → Prop
  | .operand _ callee done _ _ => callee.Plain T ∧ ∀ v ∈ done, v.Plain T
  | _ => True

namespace Machine

/-- **What a state has in its hands is plain**, and so is what its store binds, the aliases of `start` apart. -/
structure State.Plain (T : Tool ε → Prop) (start : Store ε) (st : State ε) : Prop where
  focus : ∀ v, st.focus = .answer (.ok v) → v.Plain T
  stack : ∀ frame ∈ st.stack, frame.Plain T
  store : st.session.store.PlainSince T start

variable {T : Tool ε → Prop} {start : Store ε} {stack : List (Frame ε)} {depth : Nat} {session : Session ε}

theorem plain_eval (hstack : ∀ frame ∈ stack, frame.Plain T) (hstore : session.store.PlainSince T start) (e : Expr)
    (env : ScopeId) : (State.eval e env stack depth session).Plain T start :=
  ⟨fun v hv => (by cases hv), hstack, hstore⟩

theorem plain_answer (hstack : ∀ frame ∈ stack, frame.Plain T) (hstore : session.store.PlainSince T start) {v : Value ε}
    (hv : v.Plain T) : (State.answer (.ok v) stack depth session).Plain T start := by
  refine ⟨fun w hw => ?_, hstack, hstore⟩
  cases hw
  exact hv

theorem plain_error (hstack : ∀ frame ∈ stack, frame.Plain T) (hstore : session.store.PlainSince T start) (e : Error) :
    (State.answer (.error e) stack depth session).Plain T start :=
  ⟨fun v hv => (by cases hv), hstack, hstore⟩

theorem State.Plain.closureCall? {st : State ε} (h : st.Plain T start) {c : Closure} {args : List (Value ε)}
    (hc : st.closureCall? = some (c, args)) : ∀ v ∈ args, v.Plain T := by
  unfold State.closureCall? at hc
  split at hc
  · cases hc
    exact fun v hv => by cases hv
  · next v _ _ done _ _ _ _ _ =>
    cases hc
    intro w hw
    rcases List.mem_cons.1 (List.mem_reverse.1 hw) with rfl | hw
    · exact h.focus w rfl
    · exact (h.stack _ List.mem_cons_self).2 w hw
  · cases hc

theorem plain_enter (hstack : ∀ frame ∈ stack, frame.Plain T) (hstore : session.store.PlainSince T start) (e : Expr)
    (env : ScopeId) : (enter e env stack depth session).Plain T start := by
  unfold enter
  split
  · exact plain_error hstack hstore _
  · refine plain_answer hstack hstore ?_
    trivial
  · exact ⟨fun v hv => hstore.plain_resolve (Focus.answer.inj hv), hstack, hstore⟩
  · refine plain_eval ?_ hstore _ _
    exact List.forall_mem_cons.2 ⟨trivial, hstack⟩
  · refine plain_eval ?_ hstore _ _
    exact List.forall_mem_cons.2 ⟨trivial, hstack⟩
  · next params body _ =>
    have hmade : (session.newClosure params body env).2.store.PlainSince T start := hstore
    have hclosure : (session.newClosure params body env).1.Plain T := trivial
    exact plain_answer hstack hmade hclosure
  · refine plain_eval ?_ hstore _ _
    exact List.forall_mem_cons.2 ⟨trivial, hstack⟩

variable [Host ε]

theorem plain_call (hT : Tool.KeepsPlain T) (limit : Nat) (name : String) {callee : Callable ε} {args : List (Value ε)}
    (hcallee : callee.Plain T) (hargs : ∀ v ∈ args, v.Plain T) (hstack : ∀ frame ∈ stack, frame.Plain T)
    (hstore : session.store.PlainSince T start) :
    (call limit name callee args stack depth session).Plain T start := by
  cases callee with
  | builtin tool => exact ⟨fun v hv => hT tool args v hcallee hargs (Focus.answer.inj hv), hstack, hstore⟩
  | closure c =>
    cases hb : session.beginCall limit depth name c args with
    | error refused =>
      obtain ⟨cause, t⟩ := refused
      have hsame : t.store = session.store := Session.store_of_refused hb
      simp only [call, hb]
      refine plain_error hstack ?_ cause
      rw [hsame]
      exact hstore
    | ok opened =>
      obtain ⟨frame, t⟩ := opened
      simp only [call, hb]
      obtain ⟨_, _, rfl, rfl⟩ := Session.beginCall_eq_ok hb
      have hframe : (session.openFrame c args).2.store.PlainSince T start :=
        (hstore.child c.env).defineAll (c.params.zip args) fun b hb => .inl (hargs b.2 (List.of_mem_zip hb).2)
      refine plain_eval ?_ ?_ c.body _
      · exact List.forall_mem_cons.2 ⟨trivial, hstack⟩
      · exact hframe

theorem plain_operands (hT : Tool.KeepsPlain T) (limit : Nat) (name : String) {callee : Callable ε}
    {done : List (Value ε)} (hcallee : callee.Plain T) (hdone : ∀ v ∈ done, v.Plain T) (rest : List Expr)
    (env : ScopeId) (hstack : ∀ frame ∈ stack, frame.Plain T) (hstore : session.store.PlainSince T start) :
    (operands limit name callee done rest env stack depth session).Plain T start := by
  cases rest with
  | nil => exact plain_call hT limit name hcallee (fun v hv => hdone v (List.mem_reverse.1 hv)) hstack hstore
  | cons e rest =>
    refine plain_eval ?_ hstore e env
    exact List.forall_mem_cons.2 ⟨⟨hcallee, hdone⟩, hstack⟩

theorem plain_resume (hT : Tool.KeepsPlain T) (limit : Nat) {v : Value ε} (hv : v.Plain T) {frame : Frame ε}
    (hframe : frame.Plain T) (hstack : ∀ frame ∈ stack, frame.Plain T) (hstore : session.store.PlainSince T start) :
    (resume limit v frame stack depth session).Plain T start := by
  cases frame with
  | define name env =>
    have hbound : (session.define env name v).store.PlainSince T start := hstore.define (.inl hv)
    refine plain_answer hstack hbound ?_
    trivial
  | branch consequent alternative env => exact plain_eval hstack hstore _ env
  | head head rest env =>
    unfold resume
    cases hc : v.callable? with
    | none => exact plain_error hstack hstore _
    | some callee =>
      exact plain_operands hT limit _ (hv.callable? hc) (fun w hw => by cases hw) rest env hstack hstore
  | operand name callee done rest env =>
    exact plain_operands hT limit name hframe.1 (List.forall_mem_cons.2 ⟨hv, hframe.2⟩) rest env hstack hstore
  | leave => exact plain_answer hstack hstore hv

theorem State.Plain.step (hT : Tool.KeepsPlain T) {limit : Nat} {s t : State ε} (h : s.Plain T start)
    (hs : step limit s = .inl t) : t.Plain T start := by
  obtain ⟨focus, stack, depth, session⟩ := s
  cases focus with
  | eval e env =>
    cases hs
    exact plain_enter h.stack h.store e env
  | answer result =>
    cases stack with
    | nil => cases hs
    | cons frame stack =>
      obtain ⟨hframe, hstack⟩ := List.forall_mem_cons.1 h.stack
      cases result with
      | error e =>
        cases hs
        cases frame <;> exact plain_error hstack h.store e
      | ok v =>
        cases hs
        exact plain_resume hT limit (h.focus v rfl) hframe hstack h.store

end Machine

namespace Evaluator

variable [Host ε]

/-- **Aliases come from the host only.**  The operators return plain values for plain values.  Where all tools in the
store are of a family that does, evaluating an expression in any scope, whatever aliases are bound there, never comes to
an alias, hands none to a closure on the way, and leaves none bound that was not bound before, under the same name in
the same scope. -/
theorem aliases_of_evaluate (ev : Evaluator) {T : Tool ε → Prop} (hT : Tool.KeepsPlain T) {session : Session ε}
    (hs : session.store.HasTools T) (e : Expr) (env : ScopeId) :
    Tool.KeepsPlain (ε := ε) Tool.IsOperator ∧
    (∀ name, (ev.evaluate e env session).result ≠ .ok (.symbol name)) ∧
    (∀ st t, Machine.Passes ev.config.maxDepth (.eval e env [] ev.depth session) st →
      Machine.step ev.config.maxDepth st = .inl t → Machine.CallsPlainly ev.config.maxDepth st t) ∧
    session.store.AliasesFrom (ev.evaluate e env session).session.store := by
  have hstart : (Machine.State.eval e env [] ev.depth session).Plain T session.store :=
    Machine.plain_eval (fun frame hframe => by cases hframe) hs.plainSince e env
  have hpasses : ∀ st, Machine.Passes ev.config.maxDepth (.eval e env [] ev.depth session) st →
      st.Plain T session.store := fun st hst => hst.invariant (fun _ _ h hnext => h.step hT hnext) hstart
  have hlast := hpasses _ (Machine.passes_outcome ev.config.maxDepth (.eval e env [] ev.depth session))
  refine ⟨Tool.keepsPlain_operators, fun name hname => ?_, fun st t hst hnext => ?_, hlast.store.aliasesFrom⟩
  · have hfocus : Focus.answer (ev.evaluate e env session).result = .answer (.ok (.symbol name)) := by rw [hname]
    exact hlast.focus _ hfocus
  · refine Machine.callsPlainly_of_step hnext fun c args hcall v hv => ?_
    exact ((hpasses st hst).closureCall? hcall v hv).alias?

end Evaluator

/-! ## Probes -/

namespace Probe

def NoAlias : Tool Probe → Prop
  | .operator _ => True
  | .host p => p.kind ≠ "alias"

theorem keepsPlain_noAlias : Tool.KeepsPlain NoAlias := by
  intro tool args v htool hargs hrun
  cases tool with
  | operator op =>
    rcases Operator.run_eq_ok hrun with ⟨n, rfl⟩ | ⟨b, rfl⟩
    · trivial
    · trivial
  | host p =>
    change p.run args = .ok v at hrun
    rcases p.run_cases args with ⟨_, hr⟩ | hr | ⟨hkind, _⟩ | ⟨_, hr⟩ | hr
    · cases hr.symm.trans hrun
      trivial
    · cases hr.symm.trans hrun
      rcases first_eq_or_mem args with hnull | hmem
      · rw [hnull]
        trivial
      · exact hargs _ hmem
    · exact absurd hkind htool
    · cases hr.symm.trans hrun
    · cases hr.symm.trans hrun

end Probe

namespace Evaluator

/-- An alias is handed to a function that hands it to a probe, and the result is bound. -/
theorem aliases_of_seeded :
    let session : Session Probe := .ofStore ((Store.empty : Store Probe).ofBindings [("a", .num (.int 3)),
      ("b", .symbol "a"), ("first", .builtin (.host ⟨"first", "first"⟩))]).2
    let e : Expr := .list [.keyword .define, .symbol "c", .list [.list [.keyword .lambda, .list [.symbol "x"],
      .list [.symbol "first", .symbol "x"]], .symbol "b"]]
    session.store.HasTools Probe.NoAlias ∧ (session.store.bindings 1).find? "b" = some (.symbol "a") ∧
      (∀ name, ((inScope 1).evaluate e 1 session).result ≠ .ok (.symbol name)) ∧
      (∀ st t, Machine.Passes Config.standard.maxDepth (.eval e 1 [] 0 session) st →
        Machine.step Config.standard.maxDepth st = .inl t → Machine.CallsPlainly Config.standard.maxDepth st t) ∧
      session.store.AliasesFrom ((inScope 1).evaluate e 1 session).session.store := by
  intro session e
  have hfresh : (Store.empty : Store Probe).fresh.2.HasTools Probe.NoAlias :=
    Store.Binds.fresh .empty fun i name op tool htool => by cases htool; trivial
  have htools : session.store.HasTools Probe.NoAlias := by
    refine Store.Binds.defineAll _ hfresh fun b hb tool htool => ?_
    simp only [List.mem_cons, List.not_mem_nil, or_false] at hb
    rcases hb with rfl | rfl | rfl
    · cases htool
    · cases htool
    · cases htool
      exact (by decide : "first" ≠ "alias")
  obtain ⟨_, hresult, hcalls, hstore⟩ := aliases_of_evaluate (inScope 1) Probe.keepsPlain_noAlias htools e 1
  exact ⟨htools, rfl, hresult, hcalls, hstore⟩

end Evaluator

/-! ## Relays -/

/-- The tools of a host, of which one returns the other, and that returns an alias. -/
inductive Relay where
  | maker
  | made

instance : Host Relay where
  name
    | .maker => "maker"
    | .made => "made"
  description _ := "relay"
  run
    | .maker, _ => .ok (.builtin (.host .made))
    | .made, _ => .ok (.symbol "a")

namespace Evaluator

/-- **What the bound tools return does not settle it**: only the maker is bound, and it returns a tool, but what that tool
returns is the value of an expression, and is bound by a definition. -/
theorem aliases_of_returned :
    let session : Session Relay := .ofStore ((Store.empty : Store Relay).ofBindings
      [("maker", .builtin (.host .maker))]).2
    let e : Expr := .list [.list [.symbol "maker"]]
    session.store.BoundToolsKeepPlain ∧ ((inScope 1).evaluate e 1 session).result = .ok (.symbol "a") ∧
      ¬ session.store.AliasesFrom
        ((inScope 1).evaluate (.list [.keyword .define, .symbol "b", e]) 1 session).session.store := by
  intro session e
  have hfresh : (Store.empty : Store Relay).fresh.2.BoundToolsKeepPlain := by
    refine Store.Binds.fresh .empty fun i name op tool args w htool _ hrun => ?_
    cases htool
    rcases Operator.run_eq_ok hrun with ⟨n, rfl⟩ | ⟨b, rfl⟩ <;> rfl
  have htools : session.store.BoundToolsKeepPlain := by
    refine Store.Binds.defineAll _ hfresh fun b hb tool args w htool _ hrun => ?_
    cases List.mem_singleton.1 hb
    cases htool
    cases hrun
    rfl
  have hget : session.store.get? 1 "maker" = some (.builtin (.host .maker)) := by
    rw [Store.get?]
    rfl
  have hhead : Semantics.eval 10000 0 (.symbol "maker") 1 session = (.ok (.builtin (.host .maker)), session) := by
    rw [Semantics.eval_reference rfl]
    exact congrArg (·, session) (Store.resolveFrom_of_value hget rfl _)
  have hmade := Semantics.eval_call_builtin rfl hhead
  have hvalue : Semantics.eval 10000 0 e 1 session = _ := Semantics.eval_call_builtin rfl hmade
  have hbound : ((inScope 1).evaluate (.list [.keyword .define, .symbol "b", e]) 1 session).session.store =
      session.store.define 1 "b" (.symbol "a") := by
    have hdefine := answer_evaluate (inScope 1) (.list [.keyword .define, .symbol "b", e]) 1 session
    rw [Semantics.eval_define rfl] at hdefine
    exact congrArg (·.2.store) (hdefine.trans (congrArg (Semantics.Answer.bind · _) hvalue))
  refine ⟨htools, ?_, fun haliases => ?_⟩
  · exact congrArg Prod.fst ((answer_evaluate (inScope 1) e 1 session).trans hvalue)
  · rw [hbound] at haliases
    have hbefore := haliases 1 ⟨[("maker", .builtin (.host .maker)), ("b", .symbol "a")], some 0⟩ "b" (.symbol "a") rfl
      rfl rfl
    cases hbefore

end Evaluator
end Lisplet
