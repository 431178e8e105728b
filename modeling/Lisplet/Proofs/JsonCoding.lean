import Lisplet.Expr.Json
import Lisplet.Proofs.Printable
/-!
# Expressions as JSON, both ways

Writing an expression as JSON and reading it back loses two things: a float that is not finite becomes null, which is no
expression, and a symbol that is spelled like a keyword comes back as the keyword.  An expression without either is
`Encodable`, and it is read back as itself; no other is read back as something equal to it.

The other way round, what can be read is built from numbers, strings, arrays and keywords written as objects
(`Json.Legible`).  Written again, such a value is in its plain form (`Json.plain`): the objects are strings now, and
integers that need the sign bit for a digit are floats.
-/
namespace Lisplet

def Text.IsReserved (s : String) : Prop :=
  s = "define" ∨ s = "if" ∨ s = "lambda"

instance : DecidablePred Text.IsReserved := fun s =>
  inferInstanceAs (Decidable (s = "define" ∨ s = "if" ∨ s = "lambda"))

namespace Keyword

theorem ofSpelling?_of_isReserved {s : String} (h : Text.IsReserved s) : ∃ k : Keyword, ofSpelling? s = some k := by
  rcases h with rfl | rfl | rfl
  · exact ⟨.define, rfl⟩
  · exact ⟨.branch, rfl⟩
  · exact ⟨.lambda, rfl⟩

theorem isReserved_spelling (k : Keyword) : Text.IsReserved k.spelling := by
  cases k <;> decide

theorem isReserved_of_ofSpelling? {s : String} {k : Keyword} (h : ofSpelling? s = some k) : Text.IsReserved s := by
  rw [ofSpelling?_eq_some.1 h]
  exact k.isReserved_spelling

theorem ofSpelling?_of_not_isReserved {s : String} (h : ¬ Text.IsReserved s) : ofSpelling? s = none := by
  cases hs : ofSpelling? s with
  | none => rfl
  | some k => exact absurd (isReserved_of_ofSpelling? hs) h

end Keyword

/-! ## What is tried

One reading for each kind of expression, by itself.  They overlap: an integer also reads as a float, and the text of a
keyword also as a symbol, so that their order matters. -/

namespace Json

def readInteger? : Json → Option Expr
  | .whole n => (Integer.ofInt? n.val).map fun i => .num (.int i)
  | _ => none

def readFloat? : Json → Option Expr
  | .whole n => some (.num (.float (.ofInt n.val)))
  | .float x => some (.num (.float (.finite x)))
  | _ => none

/-- A keyword is read from its text, or from an object with the keyword as its only key and null under it. -/
def readKeyword? : Json → Option Expr
  | .string s => (Keyword.ofSpelling? s).map .keyword
  | .object [(key, .null)] => (Keyword.ofSpelling? key).map .keyword
  | _ => none

def readSymbol? : Json → Option Expr
  | .string s => some (.symbol s)
  | _ => none

def readList? : Json → Option Expr
  | .array items => (items.mapM Expr.ofJson?).map .list
  | _ => none

end Json

namespace Expr

theorem ofJsonItems?_eq_mapM : ∀ js : List Json, ofJsonItems? js = js.mapM ofJson?
  | [] => by rw [ofJsonItems?]; rfl
  | j :: rest => by rw [ofJsonItems?, List.mapM_cons, ofJsonItems?_eq_mapM rest]

/-- **The first reading that succeeds is taken**: integer, float, keyword, symbol, list. -/
theorem ofJson?_eq_first (j : Json) :
    ofJson? j = (j.readInteger? <|> j.readFloat? <|> j.readKeyword? <|> j.readSymbol? <|> j.readList?) := by
  cases j with
  | null | bool b => rfl
  | whole n =>
    simp only [ofJson?, Number.ofWhole, Json.readInteger?, Json.readFloat?]
    cases Integer.ofInt? n.val <;> rfl
  | float x => rfl
  | string s =>
    simp only [ofJson?, ofString, Json.readInteger?, Json.readFloat?, Json.readKeyword?, Json.readSymbol?]
    cases Keyword.ofSpelling? s <;> rfl
  | array items =>
    rw [ofJson?, ofJsonItems?_eq_mapM]
    rfl
  | object fields =>
    rw [ofJson?]
    unfold keywordOfFields?
    split
    · next key =>
      simp only [Json.readInteger?, Json.readFloat?, Json.readKeyword?, Json.readSymbol?, Json.readList?]
      cases Keyword.ofSpelling? key <;> rfl
    · next h =>
      simp only [Json.readInteger?, Json.readFloat?, Json.readSymbol?, Json.readList?]
      unfold Json.readKeyword?
      split
      · next h' => cases h'
      · next key h' =>
        cases h'
        exact absurd rfl (h key)
      · rfl

/-! ## Writing and reading back -/

/-- **The expression keeps its meaning as JSON**: its floats are finite and no symbol is spelled like a keyword. -/
structure Encodable (e : Expr) : Prop where
  floats : ∀ x, Occurs (.num (.float x)) e → x.isFinite = true
  symbols : ∀ name, Occurs (.symbol name) e → ¬ Text.IsReserved name

theorem Printable.encodable {e : Expr} (h : e.Printable) : e.Encodable where
  floats := h.floats
  symbols name hname := by
    obtain ⟨hdefine, hbranch, hlambda⟩ := (h.symbols name hname).unreserved
    simp [Text.IsReserved, hdefine, hbranch, hlambda]

theorem encodable_list_iff {items : List Expr} : (list items).Encodable ↔ ∀ e ∈ items, e.Encodable := by
  constructor
  · intro h e he
    exact ⟨fun x hx => h.floats x (.inside he hx), fun name hname => h.symbols name (.inside he hname)⟩
  · intro h
    refine ⟨fun x hx => ?_, fun name hname => ?_⟩
    · cases hx with
      | inside he hx => exact (h _ he).floats x hx
    · cases hname with
      | inside he hname => exact (h _ he).symbols name hname

theorem ofJsonItems?_cons_eq_some {j : Json} {rest : List Json} {es : List Expr} :
    ofJsonItems? (j :: rest) = some es ↔ ∃ e fs, ofJson? j = some e ∧ ofJsonItems? rest = some fs ∧ es = e :: fs := by
  simp only [ofJsonItems?, Option.bind_eq_bind, Option.bind_eq_some_iff, Option.pure_def, Option.some.injEq]
  constructor
  · rintro ⟨e, he, fs, hfs, rfl⟩
    exact ⟨e, fs, he, hfs, rfl⟩
  · rintro ⟨e, fs, he, hfs, rfl⟩
    exact ⟨e, he, fs, hfs, rfl⟩

theorem ofJsonItems?_toJsonItems : ∀ {es : List Expr}, (∀ e ∈ es, ofJson? e.toJson = some e) →
    ofJsonItems? (toJsonItems es) = some es
  | [], _ => by rw [toJsonItems, ofJsonItems?]
  | e :: rest, h => by
    obtain ⟨he, hrest⟩ := List.forall_mem_cons.1 h
    rw [toJsonItems, ofJsonItems?, he, ofJsonItems?_toJsonItems hrest]
    rfl

theorem Encodable.ofJson?_toJson {e : Expr} : e.Encodable → ofJson? e.toJson = some e := by
  induction e using itemsInduction with
  | num n =>
    intro h
    cases n with
    | int i =>
      simp only [toJson, Number.toJson, Json.ofInteger, ofJson?, Number.ofWhole, Integer.ofInt?_toInt]
    | float x =>
      have hx := h.floats x .here
      cases x with
      | nan => cases hx
      | infinity => cases hx
      | finite x => simp only [toJson, Number.toJson, ofJson?]
  | keyword k =>
    intro _
    simp [toJson, ofJson?, ofString]
  | symbol name =>
    intro h
    have hname := Keyword.ofSpelling?_of_not_isReserved (h.symbols name .here)
    simp [toJson, ofJson?, ofString, hname]
  | list items ih =>
    intro h
    rw [encodable_list_iff] at h
    rw [toJson, ofJson?, ofJsonItems?_toJsonItems fun e he => ih e he (h e he)]
    rfl

theorem exists_item_of_equalItems : ∀ {es fs : List Expr}, ofJsonItems? (toJsonItems es) = some fs →
    equalItems fs es = true → ∀ e ∈ es, ∃ f, ofJson? e.toJson = some f ∧ f.equal e = true
  | [], _, _, _ => by simp
  | e :: rest, fs, hread, hequal => by
    rw [toJsonItems] at hread
    obtain ⟨f, gs, hf, hgs, rfl⟩ := ofJsonItems?_cons_eq_some.1 hread
    rw [equalItems, Bool.and_eq_true] at hequal
    refine List.forall_mem_cons.2 ⟨⟨f, hf, hequal.1⟩, ?_⟩
    exact exists_item_of_equalItems hgs hequal.2

/-- **What is read back as an equal expression is encodable.** -/
theorem encodable_of_equal {e : Expr} :
    ∀ {f : Expr}, ofJson? e.toJson = some f → f.equal e = true → e.Encodable := by
  induction e using itemsInduction with
  | num n =>
    intro f hread _
    refine ⟨fun x hx => ?_, fun name hname => (by cases hname)⟩
    cases hx
    cases x with
    | nan => simp [toJson, Number.toJson, ofJson?] at hread
    | infinity s => simp [toJson, Number.toJson, ofJson?] at hread
    | finite x => rfl
  | keyword k =>
    intro _ _ _
    exact ⟨fun x hx => (by cases hx), fun name hname => (by cases hname)⟩
  | symbol name =>
    intro f hread hequal
    refine ⟨fun x hx => (by cases hx), fun other hother hreserved => ?_⟩
    cases hother
    obtain ⟨k, hk⟩ := Keyword.ofSpelling?_of_isReserved hreserved
    simp only [toJson, ofJson?, ofString, hk, Option.some.injEq] at hread
    subst hread
    simp [equal] at hequal
  | list items ih =>
    intro f hread hequal
    rw [toJson, ofJson?, Option.map_eq_some_iff] at hread
    obtain ⟨fs, hfs, rfl⟩ := hread
    rw [equal] at hequal
    refine encodable_list_iff.2 fun e he => ?_
    obtain ⟨g, hg, hge⟩ := exists_item_of_equalItems hfs hequal e he
    exact ih e he hg hge

end Expr

/-! ## Reading and writing again -/

def Binary64.toFinite : (x : Binary64) → x.isFinite = true → Finite
  | .finite x, _ => x

namespace Json

theorem Whole.isFinite_ofInt (n : Whole) (h : ¬ n.val < 2 ^ 63) : (Binary64.ofInt n.val).isFinite = true := by
  obtain ⟨_, hlt⟩ := n.inRange
  have hlo : 52 ≤ n.val.natAbs.log2 := by
    rw [Nat.le_log2 (by omega)]
    omega
  have hhi : n.val.natAbs.log2 < 1023 := by
    have : n.val.natAbs.log2 < 64 := by
      rw [Nat.log2_lt (by omega)]
      omega
    omega
  exact Binary64.isFinite_round_nat _ hlo hhi

/-- **The JSON values that stand for expressions.** -/
inductive Legible : Json → Prop where
  | whole (n : Whole) : Legible (.whole n)
  | float (x : Binary64.Finite) : Legible (.float x)
  | string (s : String) : Legible (.string s)
  | array {items : List Json} (h : ∀ j ∈ items, Legible j) : Legible (.array items)
  | keyword {key : String} (h : Text.IsReserved key) : Legible (.object [(key, .null)])

def plainFields : List (String × Json) → Json
  | [(key, .null)] => if Text.IsReserved key then .string key else .object [(key, .null)]
  | fields => .object fields

mutual

/-- **The plain form**: a keyword's object is the string of the keyword, and an integer beyond the range of integers is
its float. -/
def plain : Json → Json
  | .whole n => if h : n.val < 2 ^ 63 then .whole n else .float ((Binary64.ofInt n.val).toFinite (n.isFinite_ofInt h))
  | .array items => .array (plainItems items)
  | .object fields => plainFields fields
  | .null => .null
  | .bool b => .bool b
  | .float x => .float x
  | .string s => .string s

def plainItems : List Json → List Json
  | [] => []
  | j :: rest => j.plain :: plainItems rest

end

@[elab_as_elim]
theorem itemsInduction {P : Json → Prop} (null : P .null) (bool : ∀ b, P (.bool b)) (whole : ∀ n, P (.whole n))
    (float : ∀ x, P (.float x)) (string : ∀ s, P (.string s))
    (array : ∀ items, (∀ j ∈ items, P j) → P (.array items)) (object : ∀ fields, P (.object fields)) (j : Json) :
    P j := by
  cases j with
  | null => exact null
  | bool b => exact bool b
  | whole n => exact whole n
  | float x => exact float x
  | string s => exact string s
  | array items => exact array items fun j _ => itemsInduction null bool whole float string array object j
  | object fields => exact object fields

end Json

theorem Number.toJson_float : ∀ (x : Binary64) (h : x.isFinite = true), (Number.float x).toJson = .float (x.toFinite h)
  | .finite _, _ => rfl

theorem Number.toJson_ofWhole (n : Json.Whole) : (ofWhole n).toJson = (Json.whole n).plain := by
  rw [Json.plain, ofWhole]
  split
  · next i hi =>
    have hval := Integer.ofInt?_eq_some hi
    have hlt : n.val < 2 ^ 63 := by
      rw [← hval]
      exact Int64.toInt_lt i
    rw [dif_pos hlt, Number.toJson, Json.ofInteger]
    simp only [hval]
  · next hnone =>
    have hge : ¬ n.val < 2 ^ 63 := by
      have := n.inRange
      rcases Integer.ofInt?_eq_none.1 hnone with h | h <;> omega
    rw [dif_neg hge, toJson_float _ (n.isFinite_ofInt hge)]

namespace Expr

theorem toJson_ofString (s : String) : (ofString s).toJson = .string s := by
  unfold ofString
  split
  · next k hk => rw [toJson, Keyword.ofSpelling?_eq_some.1 hk]
  · rw [toJson]

theorem keywordOfFields?_eq_some {fields : List (String × Json)} {k : Keyword} :
    keywordOfFields? fields = some k ↔ fields = [(k.spelling, .null)] := by
  constructor
  · intro h
    unfold keywordOfFields? at h
    split at h
    · rw [Keyword.ofSpelling?_eq_some.1 h]
    · cases h
  · rintro rfl
    simp [keywordOfFields?]

theorem legibleItems_of_ofJsonItems? : ∀ {js : List Json} {es : List Expr},
    (∀ j ∈ js, ∀ e, ofJson? j = some e → j.Legible ∧ e.toJson = j.plain) → ofJsonItems? js = some es →
    (∀ j ∈ js, j.Legible) ∧ toJsonItems es = Json.plainItems js
  | [], es, _, h => by
    rw [ofJsonItems?] at h
    cases h
    simp [toJsonItems, Json.plainItems]
  | j :: rest, es, hitems, h => by
    obtain ⟨hj, hrest⟩ := List.forall_mem_cons.1 hitems
    obtain ⟨e, fs, he, hfs, rfl⟩ := ofJsonItems?_cons_eq_some.1 h
    obtain ⟨hlegible, hplain⟩ := hj e he
    obtain ⟨hall, hplains⟩ := legibleItems_of_ofJsonItems? hrest hfs
    exact ⟨List.forall_mem_cons.2 ⟨hlegible, hall⟩, by rw [toJsonItems, Json.plainItems, hplain, hplains]⟩

/-- **What can be read is legible, and comes out in its plain form.** -/
theorem legible_of_ofJson? {j : Json} : ∀ {e : Expr}, ofJson? j = some e → j.Legible ∧ e.toJson = j.plain := by
  induction j using Json.itemsInduction with
  | null => intro e h; simp [ofJson?] at h
  | bool b => intro e h; simp [ofJson?] at h
  | whole n =>
    intro e h
    rw [ofJson?] at h
    cases h
    exact ⟨.whole n, by rw [toJson, Number.toJson_ofWhole]⟩
  | float x =>
    intro e h
    rw [ofJson?] at h
    cases h
    exact ⟨.float x, by rw [toJson, Number.toJson, Json.plain]⟩
  | string s =>
    intro e h
    rw [ofJson?] at h
    cases h
    exact ⟨.string s, by rw [toJson_ofString, Json.plain]⟩
  | array items ih =>
    intro e h
    rw [ofJson?, Option.map_eq_some_iff] at h
    obtain ⟨es, hes, rfl⟩ := h
    obtain ⟨hall, hplain⟩ := legibleItems_of_ofJsonItems? (fun j hj e he => ih j hj he) hes
    exact ⟨.array hall, by rw [toJson, Json.plain, hplain]⟩
  | object fields =>
    intro e h
    rw [ofJson?, Option.map_eq_some_iff] at h
    obtain ⟨k, hk, rfl⟩ := h
    rw [keywordOfFields?_eq_some.1 hk]
    refine ⟨.keyword k.isReserved_spelling, ?_⟩
    rw [toJson, Json.plain, Json.plainFields, if_pos k.isReserved_spelling]

theorem exists_ofJsonItems? : ∀ {js : List Json}, (∀ j ∈ js, ∃ e, ofJson? j = some e) → ∃ es, ofJsonItems? js = some es
  | [], _ => ⟨[], by rw [ofJsonItems?]⟩
  | j :: rest, h => by
    obtain ⟨⟨e, he⟩, hrest⟩ := List.forall_mem_cons.1 h
    obtain ⟨es, hes⟩ := exists_ofJsonItems? hrest
    exact ⟨e :: es, ofJsonItems?_cons_eq_some.2 ⟨e, es, he, hes, rfl⟩⟩

theorem exists_ofJson? {j : Json} (h : j.Legible) : ∃ e, ofJson? j = some e := by
  induction h with
  | whole n => exact ⟨_, by rw [ofJson?]⟩
  | float x => exact ⟨_, by rw [ofJson?]⟩
  | string s => exact ⟨_, by rw [ofJson?]⟩
  | array _ ih =>
    obtain ⟨es, hes⟩ := exists_ofJsonItems? ih
    exact ⟨.list es, by rw [ofJson?, hes]; rfl⟩
  | keyword hkey =>
    obtain ⟨k, hk⟩ := Keyword.ofSpelling?_of_isReserved hkey
    exact ⟨.keyword k, by rw [ofJson?, keywordOfFields?, hk]; rfl⟩

/-- **Expressions and JSON.**  Of the readings of a value the first that succeeds is taken.  An expression is read back as
something equal to it if and only if it is encodable, and then as itself; all that is read from text is encodable.  A
value stands for an expression if and only if it is legible, and is then written again in its plain form. -/
theorem json_coding :
    (∀ j : Json,
      ofJson? j = (j.readInteger? <|> j.readFloat? <|> j.readKeyword? <|> j.readSymbol? <|> j.readList?)) ∧
    (∀ e : Expr, ((∃ f, ofJson? e.toJson = some f ∧ (f == e) = true) ↔ e.Encodable) ∧
      (e.Encodable → ofJson? e.toJson = some e)) ∧
    (∀ (source : String) (forms : List Expr), parse source = .ok forms →
      ∀ e ∈ forms, ofJson? e.toJson = some e ∧ (e == e) = true) ∧
    (∀ j : Json, (∃ e, ofJson? j = some e) ↔ j.Legible) ∧
    (∀ (j : Json) (e : Expr), ofJson? j = some e → e.toJson = j.plain) := by
  refine ⟨ofJson?_eq_first, fun e => ⟨?_, Encodable.ofJson?_toJson⟩, fun source forms hparse e he => ?_,
    fun j => ?_, fun j e h => ?_⟩
  · constructor
    · rintro ⟨f, hread, hequal⟩
      exact encodable_of_equal hread hequal
    · intro h
      exact ⟨e, h.ofJson?_toJson, equal_self_of_finite h.floats⟩
  · have h := (readable_of_parse hparse e he).printable.encodable
    exact ⟨h.ofJson?_toJson, equal_self_of_finite h.floats⟩
  · exact ⟨fun ⟨e, h⟩ => (legible_of_ofJson? h).1, exists_ofJson?⟩
  · exact (legible_of_ofJson? h).2

/-- A keyword's object and the least integer beyond the range of integers, read and written again. -/
theorem json_coding_keyword :
    ∃ e, ofJson? (.array [.object [("if", .null)], .whole ⟨2 ^ 63, by decide⟩, .string "x"]) = some e ∧
      e.toJson = .array [.string "if", .float ⟨false, 2 ^ 52, 11, by decide⟩, .string "x"] := by
  obtain ⟨_, _, _, hlegible, hplain⟩ := json_coding
  obtain ⟨e, he⟩ := (hlegible (.array [.object [("if", .null)], .whole ⟨2 ^ 63, by decide⟩, .string "x"])).2
    (.array (by
      simp only [List.mem_cons, List.not_mem_nil, or_false, forall_eq_or_imp, forall_eq]
      exact ⟨.keyword (by decide), .whole _, .string _⟩))
  refine ⟨e, he, ?_⟩
  rw [hplain _ _ he]
  rfl

end Expr
end Lisplet
