import Lisplet.Proofs.Frame
import Lisplet.Proofs.Layout
import Lisplet.Proofs.Locality
import Lisplet.Proofs.Record
/-!
# Sources joined by a line feed

Two sources with a line feed between them are read as the forms of the one followed by the forms of the other, and if
the second cannot be read then neither can the whole (`parse_join`).  Executing the whole then comes to the same as
executing the first and, if that succeeded, the second with the evaluator that it left.  The two ways differ in how
programs are announced, and in the value where the second source has no forms.
-/
namespace Lisplet

/-! ## Reading a joined source -/

theorem lexemes_join (s₁ s₂ : String) :
    (tokenize (s₁ ++ "\n" ++ s₂)).map Token.lexeme =
      (tokenize s₁).map Token.lexeme ++ (tokenize s₂).map Token.lexeme := by
  have hlist : (s₁ ++ "\n" ++ s₂).toList = s₁.toList ++ '\n' :: s₂.toList := by simp
  rw [lexemes_tokenize, lexemes_tokenize, lexemes_tokenize, hlist, Text.padded_append,
    Text.padded_other (by decide) (by decide), Text.fragments_append_blank _ _ (by decide), List.map_append]

theorem exists_tokens_join (s₁ s₂ : String) :
    ∃ ts₁ ts₂, tokenize (s₁ ++ "\n" ++ s₂) = ts₁ ++ ts₂ ∧
      (∀ es, (OpenLists.readForms [] [] ts₁).1 = .ok es ↔ parse s₁ = .ok es) ∧
      (∀ es, (OpenLists.readForms [] [] ts₂).1 = .ok es ↔ parse s₂ = .ok es) := by
  obtain ⟨ts₁, ts₂, hts, h₁, h₂⟩ := List.map_eq_append_iff.1 (lexemes_join s₁ s₂)
  refine ⟨ts₁, ts₂, hts, fun es => ?_, fun es => ?_⟩
  · rw [OpenLists.readForms_eq_ok_iff, h₁, parse, Cursor.forms_eq_ok_iff]
  · rw [OpenLists.readForms_eq_ok_iff, h₂, parse, Cursor.forms_eq_ok_iff]

theorem parse_eq (source : String) :
    parse source = (OpenLists.readForms [] [] (tokenize source)).1.mapError .malformed := rfl

/-- **A joined source is read as its parts are**, and cannot be read if its second part cannot. -/
theorem parse_join {s₁ : String} {f₁ : List Expr} (h₁ : parse s₁ = .ok f₁) (s₂ : String) :
    (∀ f₂, parse s₂ = .ok f₂ → parse (s₁ ++ "\n" ++ s₂) = .ok (f₁ ++ f₂)) ∧
    (∀ e, parse s₂ = .error e → ∃ cause, parse (s₁ ++ "\n" ++ s₂) = .error (.malformed cause)) := by
  obtain ⟨ts₁, ts₂, hts, hread₁, hread₂⟩ := exists_tokens_join s₁ s₂
  have hjoin := OpenLists.readForms_append ((hread₁ f₁).2 h₁) ts₂
  rw [parse_eq (s₁ ++ "\n" ++ s₂), hts, hjoin]
  refine ⟨fun f₂ h₂ => ?_, fun e h₂ => ?_⟩
  · rw [(hread₂ f₂).2 h₂]
    rfl
  · cases hr : (OpenLists.readForms [] [] ts₂).1 with
    | error cause => exact ⟨cause, rfl⟩
    | ok es =>
      have hok := (hread₂ es).1 hr
      rw [h₂] at hok
      cases hok

/-! ## Executing a joined program -/

def Event.isProgram : Event → Bool
  | .program _ => true
  | _ => false

variable {ε : Type}

/-- The events so far, apart from those that announce a program. -/
def Session.steps (s : Session ε) : List Event :=
  s.events.filter (!·.isProgram)

theorem Session.steps_mk (store : Store ε) (recorded : List Event) :
    Session.steps ⟨store, recorded⟩ = (recorded.filter (!·.isProgram)).reverse := by
  rw [steps, events, List.filter_reverse]

namespace Outcome

def andThen (o : Outcome ε) (next : Nat → Session ε → Outcome ε) : Outcome ε :=
  match o with
  | ⟨.error e, depth, session⟩ => ⟨.error e, depth, session⟩
  | ⟨.ok _, depth, session⟩ => next depth session

/-- The outcomes differ at most in their results and in how programs were announced. -/
structure SameEffects (o o' : Outcome ε) : Prop where
  store : o.session.store = o'.session.store
  steps : o.session.steps = o'.session.steps
  depth : o.depth = o'.depth

theorem eq_of_answer {o : Outcome ε} {r : Except Error (Value ε)} {session : Session ε} {depth : Nat}
    (ha : o.answer = (r, session)) (hd : o.depth = depth) : o = ⟨r, depth, session⟩ := by
  obtain ⟨result, d, s⟩ := o
  cases ha
  cases hd
  rfl

end Outcome

namespace Evaluator

variable [Host ε] (ev : Evaluator)

def executeInTurn (f₁ f₂ : List Expr) (session : Session ε) : Outcome ε :=
  (ev.execute f₁ session).andThen fun depth s => { ev with depth }.execute f₂ s

/-- Evaluates a source and, if it succeeds, another one with the evaluator that it left. -/
def evalInTurn (s₁ s₂ : String) (session : Session ε) : Outcome ε :=
  (ev.evalSource s₁ session).andThen fun depth s => { ev with depth }.evalSource s₂ s

theorem exists_executeFrom_eq (last : Value ε) (store : Store ε) (program : List Expr) :
    ∃ r store' new, ∀ recorded, ev.executeFrom last ⟨store, recorded⟩ program =
      ⟨r, ev.depth, ⟨store', new ++ recorded⟩⟩ := by
  obtain ⟨new, _, hrun⟩ := ev.oblivious_executeFrom last program ⟨store, []⟩
  generalize (ev.executeFrom last ⟨store, []⟩ program).answer = a at hrun
  obtain ⟨r, t⟩ := a
  exact ⟨r, t.store, new, fun recorded => Outcome.eq_of_answer (hrun recorded) (ev.depth_executeFrom _ _ _)⟩

theorem executeFrom_append (last : Value ε) (session : Session ε) (p q : List Expr) :
    ev.executeFrom last session (p ++ q) =
      match ev.executeFrom last session p with
      | ⟨.error e, depth, session⟩ => ⟨.error e, depth, session⟩
      | ⟨.ok v, _, session⟩ => ev.executeFrom v session q := by
  induction p generalizing last session with
  | nil => rfl
  | cons form rest ih =>
    rw [List.cons_append, executeFrom_cons, executeFrom_cons]
    cases Semantics.eval ev.config.maxDepth ev.depth form ev.env session with
    | mk result session =>
      cases result with
      | error e => rfl
      | ok v => exact ih v session

/-- **A program in two parts**, executed whole and executed part by part. -/
theorem execute_append (f₁ f₂ : List Expr) (session : Session ε) :
    (ev.execute (f₁ ++ f₂) session).SameEffects (ev.executeInTurn f₁ f₂ session) ∧
    (ev.execute (f₁ ++ f₂) session).result =
      if f₂.isEmpty then (ev.execute f₁ session).result else (ev.executeInTurn f₁ f₂ session).result := by
  obtain ⟨store, recorded⟩ := session
  obtain ⟨r, store', new, hfirst⟩ := ev.exists_executeFrom_eq .null store f₁
  simp only [executeInTurn, execute, Session.record, executeFrom_append, hfirst]
  cases r with
  | error e =>
    refine ⟨⟨rfl, ?_, rfl⟩, ?_⟩
    · simp [Outcome.andThen, Session.steps_mk, Event.isProgram]
    · simp [Outcome.andThen]
  | ok v =>
    cases f₂ with
    | nil => exact ⟨⟨rfl, by simp [Outcome.andThen, Session.steps_mk, Event.isProgram], rfl⟩, rfl⟩
    | cons form rest =>
      -- the value before a form does not matter to it, so both ways go on with the same run
      obtain ⟨r', store'', new', hsecond⟩ := ev.exists_executeFrom_eq .null store' (form :: rest)
      have hlast : ∀ s : Session ε, ev.executeFrom v s (form :: rest) = ev.executeFrom .null s (form :: rest) :=
        fun _ => rfl
      simp only [Outcome.andThen, hlast, hsecond]
      exact ⟨⟨rfl, by simp [Session.steps_mk, Event.isProgram], rfl⟩, rfl⟩

/-- **Where a program fails**: the forms before one of its forms succeed, that form fails, and there the program ends. -/
theorem exists_failing_form (last : Value ε) (session : Session ε) (program : List Expr) {e : Error}
    (h : (ev.executeFrom last session program).result = .error e) :
    ∃ before form after v t, program = before ++ form :: after ∧
      ev.executeFrom last session before = ⟨.ok v, ev.depth, t⟩ ∧
      ev.evaluate form ev.env t = ev.executeFrom last session program := by
  induction program generalizing last session with
  | nil => cases h
  | cons form rest ih =>
    have heval := ev.evaluate_eq form ev.env session
    rw [executeFrom_cons] at h ⊢
    cases hr : Semantics.eval ev.config.maxDepth ev.depth form ev.env session with
    | mk result t =>
      rw [hr] at h heval
      cases result with
      | error e' => exact ⟨[], form, rest, last, session, rfl, rfl, heval⟩
      | ok v =>
        obtain ⟨before, form', after, v', t', rfl, hbefore, hform⟩ := ih v t h
        refine ⟨form :: before, form', after, v', t', rfl, ?_, hform⟩
        rw [executeFrom_cons, hr]
        exact hbefore

/-- **One source or two.**  A source and a second one behind a line feed come to the same, executed together, as the
first and then, if that succeeded, the second: the same store, the same events, the same calls in progress and the same
outcome, which is the value of the first where the second has no forms.  If a form fails, what was defined before it
stays, but for what it defines itself, and nothing is executed after it.  If the second source cannot be read, nothing
is executed at all. -/
theorem evalSource_join {s₁ s₂ : String} {f₁ : List Expr} (h₁ : parse s₁ = .ok f₁) (session : Session ε) :
    (∀ f₂, parse s₂ = .ok f₂ →
      parse (s₁ ++ "\n" ++ s₂) = .ok (f₁ ++ f₂) ∧
      (ev.evalSource (s₁ ++ "\n" ++ s₂) session).SameEffects (ev.evalInTurn s₁ s₂ session) ∧
      ((ev.evalSource (s₁ ++ "\n" ++ s₂) session).result =
        if f₂.isEmpty then (ev.evalSource s₁ session).result else (ev.evalInTurn s₁ s₂ session).result) ∧
      ∀ e, (ev.evalSource (s₁ ++ "\n" ++ s₂) session).result = .error e →
        ∃ before form after v t, f₁ ++ f₂ = before ++ form :: after ∧
          ev.executeFrom .null (session.record (.program (f₁ ++ f₂).length)) before = ⟨.ok v, ev.depth, t⟩ ∧
          ev.evaluate form ev.env t = ev.evalSource (s₁ ++ "\n" ++ s₂) session ∧
          t.store.Frame ev.env form.Defines (ev.evalSource (s₁ ++ "\n" ++ s₂) session).session.store) ∧
    (∀ e, parse s₂ = .error e →
      ∃ cause, ev.evalSource (s₁ ++ "\n" ++ s₂) session = ⟨.error (.malformed cause), ev.depth, session⟩) := by
  obtain ⟨hok, herror⟩ := parse_join h₁ s₂
  refine ⟨fun f₂ h₂ => ?_, fun e h₂ => ?_⟩
  · have hjoin := hok f₂ h₂
    have hwhole : ev.evalSource (s₁ ++ "\n" ++ s₂) session = ev.execute (f₁ ++ f₂) session := by
      rw [evalSource, hjoin]
    have hfirst : ev.evalSource s₁ session = ev.execute f₁ session := by rw [evalSource, h₁]
    have hturn : ev.evalInTurn s₁ s₂ session = ev.executeInTurn f₁ f₂ session := by
      simp only [evalInTurn, executeInTurn, evalSource, h₁, h₂]
    rw [hwhole, hfirst, hturn]
    obtain ⟨heffects, hresult⟩ := ev.execute_append f₁ f₂ session
    refine ⟨hjoin, heffects, hresult, fun e he => ?_⟩
    obtain ⟨before, form, after, v, t, hsplit, hbefore, hform⟩ := ev.exists_failing_form _ _ _ he
    refine ⟨before, form, after, v, t, hsplit, hbefore, hform, ?_⟩
    have hframe := (Semantics.frame_closed ev.config.maxDepth).eval ev.depth form ev.env t
    rw [← answer_evaluate, hform] at hframe
    exact hframe
  · obtain ⟨cause, hcause⟩ := herror e h₂
    exact ⟨cause, by rw [evalSource, hcause]⟩

/-- A second source that fails in the middle, and one that cannot be read. -/
theorem evalSource_join_failing :
    ∃ f₁ f₂ e, parse "(define a 1)" = .ok f₁ ∧ parse "(define b a)(c b)(define d 3)" = .ok f₂ ∧
      parse "(define b a))" = .error e ∧
      (evalSource (ε := Empty) (.inScope 1) ("(define a 1)" ++ "\n" ++ "(define b a)(c b)(define d 3)")
        (.ofStore (Store.fresh .empty).2)).SameEffects
        (evalInTurn (.inScope 1) "(define a 1)" "(define b a)(c b)(define d 3)" (.ofStore (Store.fresh .empty).2)) ∧
      ∃ cause, evalSource (ε := Empty) (.inScope 1) ("(define a 1)" ++ "\n" ++ "(define b a))")
        (.ofStore (Store.fresh .empty).2) = ⟨.error (.malformed cause), 0, .ofStore (Store.fresh .empty).2⟩ := by
  have h₁ : parse "(define a 1)" = .ok [.list [.keyword .define, .symbol "a", .num (.int 1)]] := rfl
  have h₂ : parse "(define b a)(c b)(define d 3)" =
      .ok [.list [.keyword .define, .symbol "b", .symbol "a"], .list [.symbol "c", .symbol "b"],
        .list [.keyword .define, .symbol "d", .num (.int 3)]] := rfl
  have h₃ : parse "(define b a))" = .error (.malformed (.strayClose ⟨1, 13⟩)) := rfl
  exact ⟨_, _, _, h₁, h₂, h₃, ((evalSource_join (.inScope 1) h₁ _).1 _ h₂).2.1,
    (evalSource_join (.inScope 1) h₁ _).2 _ h₃⟩

end Evaluator
end Lisplet
