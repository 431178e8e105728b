import Lisplet.Expr.Basic
/-!
# The text of an expression

A list is written between parentheses with one space between its items.  `write` adds the text of a tree to text already
written, which keeps the work linear; `write_eq` says that it adds `text` and nothing else, and the equations below give
the text of each kind of tree.
-/
namespace Lisplet
namespace Expr

mutual

def write : Expr → String → String
  | .num n, before => before ++ n.text
  | .keyword k, before => before ++ k.spelling
  | .symbol name, before => before ++ name
  | .list items, before => writeItems items (before ++ "(") ++ ")"

def writeItems : List Expr → String → String
  | [], before => before
  | [e], before => write e before
  | e :: f :: rest, before => writeItems (f :: rest) (write e before ++ " ")

end

def text (e : Expr) : String :=
  e.write ""

def textItems (es : List Expr) : String :=
  writeItems es ""

mutual

theorem write_eq : ∀ (e : Expr) (before : String), e.write before = before ++ e.text
  | .num n, before => by simp [text, write]
  | .keyword k, before => by simp [text, write]
  | .symbol name, before => by simp [text, write]
  | .list items, before => by
    rw [text, write, write, writeItems_eq items, writeItems_eq items ("" ++ "(")]
    simp [String.append_assoc]

theorem writeItems_eq : ∀ (es : List Expr) (before : String), writeItems es before = before ++ textItems es
  | [], before => by simp [textItems, writeItems]
  | [e], before => by
    rw [textItems, writeItems, writeItems, write_eq e, write_eq e ""]
    simp
  | e :: f :: rest, before => by
    simp only [textItems, writeItems]
    rw [writeItems_eq (f :: rest), writeItems_eq (f :: rest) (e.write "" ++ " "), write_eq e before, write_eq e ""]
    simp [String.append_assoc]

end

@[simp] theorem text_num (n : Number) : (num n).text = n.text := by simp [text, write]

@[simp] theorem text_keyword (k : Keyword) : (keyword k).text = k.spelling := by simp [text, write]

@[simp] theorem text_symbol (name : String) : (symbol name).text = name := by simp [text, write]

@[simp] theorem text_list (items : List Expr) : (list items).text = "(" ++ textItems items ++ ")" := by
  rw [text, write, writeItems_eq]; simp

@[simp] theorem textItems_nil : textItems [] = "" := by simp [textItems, writeItems]

@[simp] theorem textItems_singleton (e : Expr) : textItems [e] = e.text := by simp [textItems, writeItems, text]

@[simp] theorem textItems_cons_cons (e f : Expr) (rest : List Expr) :
    textItems (e :: f :: rest) = e.text ++ " " ++ textItems (f :: rest) := by
  rw [textItems, writeItems, writeItems_eq (f :: rest), write_eq e ""]
  simp

end Expr
end Lisplet
