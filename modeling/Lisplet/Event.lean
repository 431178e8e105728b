import Lisplet.Text
/-!
# Events

What an evaluator records while it works, in the order in which it happens.  An event carries the texts of what it
speaks about, so that records of runs can be compared without regard to where scopes and closures were placed.
-/
namespace Lisplet

inductive Event where
  | program (forms : Nat)
  /-- A name is about to be bound to the value with the given text. -/
  | define (name value : String)
  | builtin (tool : String) (operands : Nat)
  /-- The body of a closure is about to be evaluated while `depth` calls are in progress. -/
  | closure (callee : String) (params depth : Nat)
  /-- A call was refused because `limit` calls are in progress. -/
  | tooDeep (limit : Nat)
  deriving DecidableEq

namespace Event

inductive Level where
  | trace
  | debug
  | warn
  deriving DecidableEq

def level : Event → Level
  | .program _ => .debug
  | .define .. => .debug
  | .builtin .. => .trace
  | .closure .. => .trace
  | .tooDeep _ => .warn

def message : Event → String
  | .program _ => "executing program"
  | .define .. => "define"
  | .builtin .. => "calling builtin"
  | .closure .. => "applying closure"
  | .tooDeep _ => "recursion limit exceeded"

def fields : Event → List (String × String)
  | .program forms => [("forms", Text.ofNat forms)]
  | .define name value => [("name", name), ("value", value)]
  | .builtin tool operands => [("tool", tool), ("args", Text.ofNat operands)]
  | .closure callee params depth =>
    [("closure", callee), ("params", Text.ofNat params), ("depth", Text.ofNat depth)]
  | .tooDeep limit => [("limit", Text.ofNat limit)]

end Event
end Lisplet
