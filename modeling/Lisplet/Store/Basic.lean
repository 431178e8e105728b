import Lisplet.Registry
/-!
# The store of scopes

Scopes live in one store and are named by their place in it.  A scope has bindings of its own and, a root apart, a
parent; a name that a scope does not bind is looked for in the parent.  The store only grows: scopes are added behind
the others, so a parent is always older than its children.  Where a parent link does not lead to an older scope the
search ends there, which makes every search finite whatever the store holds.

Built-in tools are the bindings of a root scope of which nobody holds the name; what a caller gets is its child, where a
definition shadows a tool and does not replace it.
-/
namespace Lisplet

variable {ε : Type}

/-- The bindings of one scope, each name once, in the order of their first definition. -/
abbrev Bindings (ε : Type) := List (String × Value ε)

namespace Bindings

def find? : Bindings ε → String → Option (Value ε)
  | [], _ => none
  | b :: rest, name => if b.1 = name then some b.2 else find? rest name

/-- Binds a name: in its place if it is bound already, behind the others if not. -/
def insert (name : String) (v : Value ε) : Bindings ε → Bindings ε
  | [] => [(name, v)]
  | b :: rest => if b.1 = name then (name, v) :: rest else b :: insert name v rest

def sorted (bs : Bindings ε) : Bindings ε :=
  bs.mergeSort fun a b => decide (a.1 ≤ b.1)

theorem find?_insert (name : String) (v : Value ε) (other : String) :
    ∀ bs : Bindings ε, find? (insert name v bs) other = if other = name then some v else find? bs other
  | [] => by by_cases h : name = other <;> simp [insert, find?, h, Ne.symm]
  | b :: rest => by
    unfold insert
    by_cases hb : b.1 = name
    · by_cases h : name = other
      · simp [hb, h, find?]
      · simp [hb, h, find?, Ne.symm h]
    · rw [if_neg hb, find?, find?, find?_insert name v other rest]
      by_cases h : other = name
      · simp [h, hb]
      · simp [h]

end Bindings

structure Scope (ε : Type) where
  vars : Bindings ε
  parent : Option ScopeId

namespace Scope

def get? (s : Scope ε) (name : String) : Option (Value ε) :=
  s.vars.find? name

def define (s : Scope ε) (name : String) (v : Value ε) : Scope ε :=
  { s with vars := s.vars.insert name v }

@[simp] theorem parent_define (s : Scope ε) (name : String) (v : Value ε) : (s.define name v).parent = s.parent := rfl

theorem get?_define (s : Scope ε) (name : String) (v : Value ε) (other : String) :
    (s.define name v).get? other = if other = name then some v else s.get? other :=
  Bindings.find?_insert name v other s.vars

end Scope

structure Store (ε : Type) where
  scopes : Array (Scope ε)
  closures : Nat

namespace Store

def empty : Store ε := ⟨#[], 0⟩

def alloc (s : Store ε) (scope : Scope ε) : ScopeId × Store ε :=
  (s.scopes.size, { s with scopes := s.scopes.push scope })

def child (s : Store ε) (env : ScopeId) : ScopeId × Store ε :=
  s.alloc ⟨[], some env⟩

def define (s : Store ε) (env : ScopeId) (name : String) (v : Value ε) : Store ε :=
  { s with scopes := s.scopes.modify env (·.define name v) }

def defineAll (s : Store ε) (env : ScopeId) (bs : List (String × Value ε)) : Store ε :=
  bs.foldl (fun s b => s.define env b.1 b.2) s

/-- The scope from which a scope's search goes on: its parent, if that is older. -/
def parent? (s : Store ε) (env : ScopeId) : Option { p : ScopeId // p < env } :=
  match s.scopes[env]? with
  | none => none
  | some scope =>
    match scope.parent with
    | none => none
    | some p => if h : p < env then some ⟨p, h⟩ else none

def chain (s : Store ε) (env : ScopeId) : List ScopeId :=
  match s.parent? env with
  | none => [env]
  | some ⟨p, _⟩ => env :: s.chain p
termination_by env

/-- How many scopes lie on the way from `env` to its root, both counted. -/
def depth (s : Store ε) (env : ScopeId) : Nat :=
  (s.chain env).length

def bindings (s : Store ε) (env : ScopeId) : Bindings ε :=
  match s.scopes[env]? with
  | none => []
  | some scope => scope.vars

/-- **Look-up**: the binding of the nearest scope that has one. -/
def get? (s : Store ε) (env : ScopeId) (name : String) : Option (Value ε) :=
  match (s.bindings env).find? name with
  | some v => some v
  | none =>
    match s.parent? env with
    | none => none
    | some ⟨p, _⟩ => s.get? p name
termination_by env

def lookup (s : Store ε) (env : ScopeId) (name : String) : Except Error (Value ε) :=
  match s.get? env name with
  | some v => .ok v
  | none => .error (.unbound name)

def contains (s : Store ε) (env : ScopeId) (name : String) : Bool :=
  (s.get? env name).isSome

def snapshot (s : Store ε) (env : ScopeId) : Bindings ε :=
  (s.bindings env).sorted

def newClosure (s : Store ε) (params : List String) (body : Expr) (env : ScopeId) : Closure × Store ε :=
  (⟨s.closures, params, body, env⟩, { s with closures := s.closures + 1 })

def inspect (s : Store ε) (env : ScopeId) : String :=
  "Environment \x7b names: " ++ Text.quotedList ((s.snapshot env).map (·.1)) ++ ", depth: " ++
    Text.ofNat (s.depth env) ++ " \x7d"

variable [Named ε]

/-- A root scope with the tools of a registry, and a scope inside it. -/
def ofRegistry (s : Store ε) (r : Registry ε) : ScopeId × Store ε :=
  let (root, s) := s.alloc ⟨r.tools.map fun t => (t.name, .builtin t), none⟩
  s.child root

def fresh (s : Store ε) : ScopeId × Store ε :=
  s.ofRegistry .standard

def ofBindings (s : Store ε) (bs : List (String × Value ε)) : ScopeId × Store ε :=
  let (env, s) := s.fresh
  (env, s.defineAll env bs)

end Store
end Lisplet
