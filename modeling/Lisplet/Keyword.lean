/-!
# Keywords and operators

The words with a meaning of their own.  The three keywords are reserved: each is one wherever it stands, so none of them
can name a variable.  The seven operators are only bound to their names, like any other value.
-/
namespace Lisplet

inductive Keyword where
  | define
  | branch
  | lambda
  deriving DecidableEq

namespace Keyword

def spelling : Keyword → String
  | .define => "define"
  | .branch => "if"
  | .lambda => "lambda"

def ofSpelling? (s : String) : Option Keyword :=
  if s = "define" then some .define
  else if s = "if" then some .branch
  else if s = "lambda" then some .lambda
  else none

@[simp] theorem ofSpelling?_spelling (k : Keyword) : ofSpelling? k.spelling = some k := by
  cases k <;> decide

theorem ofSpelling?_eq_some {s : String} {k : Keyword} : ofSpelling? s = some k ↔ s = k.spelling := by
  constructor
  · intro h
    unfold ofSpelling? at h
    split at h
    · next hs => cases h; exact hs
    · split at h
      · next hs => cases h; exact hs
      · split at h
        · next hs => cases h; exact hs
        · cases h
  · rintro rfl
    exact ofSpelling?_spelling k

end Keyword

inductive Operator where
  | add
  | subtract
  | multiply
  | divide
  | greater
  | less
  | equal
  deriving DecidableEq

namespace Operator

def all : List Operator :=
  [.add, .subtract, .multiply, .divide, .greater, .less, .equal]

def spelling : Operator → String
  | .add => "+"
  | .subtract => "-"
  | .multiply => "*"
  | .divide => "/"
  | .greater => ">"
  | .less => "<"
  | .equal => "="

def description : Operator → String
  | .add => "Sum of two or more numbers"
  | .subtract => "First number minus each of the rest"
  | .multiply => "Product of two or more numbers"
  | .divide => "First number divided by each of the rest"
  | .greater => "First number greater than every other"
  | .less => "First number less than every other"
  | .equal => "Pairwise strict equality"

end Operator
end Lisplet
