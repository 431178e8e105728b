import Lisplet.Keyword
import Lisplet.Number
/-!
# Expressions

The tree that source text stands for: numbers, keywords, symbols and lists.  A tree need not come from text, so a symbol
may have any spelling and a list may be empty anywhere.

Equality of trees (`==`) compares literals: an integer never equals a float, and floats are compared by value, so the two
zeros are equal and a NaN is not equal to itself.
-/
namespace Lisplet

inductive Expr where
  | num (n : Number)
  | keyword (k : Keyword)
  | symbol (name : String)
  | list (items : List Expr)

namespace Expr

instance : Inhabited Expr := ⟨.list []⟩

def symbol? : Expr → Option String
  | .symbol name => some name
  | _ => none

@[simp] theorem symbol?_symbol (name : String) : (symbol name).symbol? = some name := rfl

theorem symbol?_eq_some {e : Expr} {name : String} : e.symbol? = some name ↔ e = .symbol name := by
  cases e <;> simp [symbol?]

mutual

def equal : Expr → Expr → Bool
  | .num a, .num b => a.sameLiteral b
  | .keyword a, .keyword b => a == b
  | .symbol a, .symbol b => a == b
  | .list as, .list bs => equalItems as bs
  | _, _ => false

def equalItems : List Expr → List Expr → Bool
  | [], [] => true
  | a :: as, b :: bs => a.equal b && equalItems as bs
  | _, _ => false

end

instance : BEq Expr := ⟨equal⟩

end Expr
end Lisplet
