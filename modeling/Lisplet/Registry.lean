import Lisplet.Tool
/-!
# Registries

The tools that a root scope is made from, at most one under each name: a tool that is registered replaces the one of its
name.  Listings are in the order of the names.
-/
namespace Lisplet

variable {ε : Type}

structure Registry (ε : Type) where
  tools : List (Tool ε)

namespace Registry

def empty : Registry ε := ⟨[]⟩

def standard : Registry ε := ⟨Operator.all.map .operator⟩

variable [Named ε]

def register (tool : Tool ε) (r : Registry ε) : Registry ε :=
  ⟨r.tools.filter (fun t => t.name != tool.name) ++ [tool]⟩

def find? (r : Registry ε) (name : String) : Option (Tool ε) :=
  r.tools.find? fun t => t.name == name

def lookup (r : Registry ε) (name : String) : Except Error (Tool ε) :=
  match r.find? name with
  | some tool => .ok tool
  | none => .error (.unbound name)

def sorted (r : Registry ε) : List (Tool ε) :=
  r.tools.mergeSort fun a b => decide (a.name ≤ b.name)

def names (r : Registry ε) : List String :=
  r.sorted.map Tool.name

def descriptions (r : Registry ε) : List (String × String) :=
  r.sorted.map fun t => (t.name, t.description)

end Registry
end Lisplet
