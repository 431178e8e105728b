import Lisplet.Event
import Lisplet.Store.Alias
/-!
# Sessions

What outlives an evaluation: the store of scopes and the record of events.
-/
namespace Lisplet

variable {ε : Type}

structure Session (ε : Type) where
  store : Store ε
  /-- The events so far, the last one first. -/
  recorded : List Event

namespace Session

def empty : Session ε := ⟨.empty, []⟩

def ofStore (store : Store ε) : Session ε := ⟨store, []⟩

def events (s : Session ε) : List Event :=
  s.recorded.reverse

def record (s : Session ε) (event : Event) : Session ε :=
  { s with recorded := event :: s.recorded }

def define [Named ε] (s : Session ε) (env : ScopeId) (name : String) (v : Value ε) : Session ε :=
  let s := s.record (.define name v.text)
  { s with store := s.store.define env name v }

def newClosure (s : Session ε) (params : List String) (body : Expr) (env : ScopeId) : Value ε × Session ε :=
  let (c, store) := s.store.newClosure params body env
  (.closure c, { s with store })

def openFrame (s : Session ε) (c : Closure) (args : List (Value ε)) : ScopeId × Session ε :=
  let (frame, store) := s.store.child c.env
  (frame, { s with store := store.defineAll frame (c.params.zip args) })

/-- Leave to call a closure on the operands, with `depth` calls in progress: the number of operands is looked at before
the limit.  A call beyond the limit is recorded. -/
def beginCall (s : Session ε) (limit depth : Nat) (name : String) (c : Closure) (args : List (Value ε)) :
    Except (Error × Session ε) (ScopeId × Session ε) :=
  if c.params.length ≠ args.length then
    .error (.arity name (.exactly c.params.length) args.length, s)
  else if limit ≤ depth then
    .error (.tooDeep limit, s.record (.tooDeep limit))
  else
    let (frame, s) := s.openFrame c args
    .ok (frame, s.record (.closure name c.params.length depth))

theorem depth_lt_of_beginCall {s : Session ε} {limit depth : Nat} {name : String} {c : Closure} {args : List (Value ε)}
    {opened : ScopeId × Session ε} (h : s.beginCall limit depth name c args = .ok opened) : depth < limit := by
  unfold beginCall at h
  split at h
  · cases h
  · split at h
    · cases h
    · omega

end Session
end Lisplet
