import Lisplet.Cursor
import Lisplet.Machine.Run
/-!
# Evaluators

An evaluator works in a scope, under a configuration, with some closure calls in progress.  It evaluates expressions in
any scope, applies values, and executes programs in its own scope.  A program is a sequence of forms that runs to the
first error; what the forms before it defined stays defined.
-/
namespace Lisplet

def version : String := "0.1.0"

/-- What can be set about an evaluator: how many closure calls may be in progress at once. -/
structure Config where
  maxDepth : Nat
  deriving DecidableEq

namespace Config

def standard : Config := ⟨10000⟩

end Config

structure Evaluator where
  env : ScopeId
  config : Config
  /-- Closure calls in progress. -/
  depth : Nat

namespace Evaluator

variable {ε : Type}

def inScope (env : ScopeId) : Evaluator := ⟨env, .standard, 0⟩

variable [Host ε]

def evaluate (ev : Evaluator) (e : Expr) (env : ScopeId) (session : Session ε) : Outcome ε :=
  Machine.run ev.config.maxDepth (.eval e env [] ev.depth session)

/-- Applies a value to operands.  `name` is what reports call it. -/
def apply (ev : Evaluator) (name : String) (callee : Value ε) (args : List (Value ε)) (session : Session ε) :
    Outcome ε :=
  match callee.callable? with
  | none => ⟨.error (.malformed (.notCallable (.symbol name) callee.kind)), ev.depth, session⟩
  | some callee => Machine.run ev.config.maxDepth (Machine.call ev.config.maxDepth name callee args [] ev.depth session)

/-- Evaluates forms in order up to the first error; `last` is the value of the form before them. -/
def executeFrom (ev : Evaluator) (last : Value ε) (session : Session ε) : List Expr → Outcome ε
  | [] => ⟨.ok last, ev.depth, session⟩
  | form :: rest =>
    match ev.evaluate form ev.env session with
    | ⟨.error e, depth, session⟩ => ⟨.error e, depth, session⟩
    | ⟨.ok v, depth, session⟩ => executeFrom { ev with depth } v session rest

/-- **Executes a program**; its value is that of the last form, and null without forms. -/
def execute (ev : Evaluator) (program : List Expr) (session : Session ε) : Outcome ε :=
  ev.executeFrom .null (session.record (.program program.length)) program

/-- Reads a source text and executes it; nothing is executed unless all of it can be read. -/
def evalSource (ev : Evaluator) (source : String) (session : Session ε) : Outcome ε :=
  match parse source with
  | .error e => ⟨.error e, ev.depth, session⟩
  | .ok program => ev.execute program session

end Evaluator

variable {ε : Type} [Host ε]

def evaluateIn (source : String) (env : ScopeId) (session : Session ε) : Outcome ε :=
  (Evaluator.inScope env).evalSource source session

def evaluateText (source : String) : Outcome Empty :=
  let (env, store) := (Store.empty : Store Empty).fresh
  evaluateIn source env (.ofStore store)

end Lisplet
