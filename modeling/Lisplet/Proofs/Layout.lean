import Lisplet.Proofs.Scan
/-!
# What the tokens of a text are and where they stand

The scan goes through a text once.  What it finds can be said without it.  Its lexemes are the fragments that remain
when every parenthesis is given a space on each side and the text is split at its blanks (`lexemes_tokenize`).  Its
tokens are slices of the text, one behind the other, with nothing but blanks between them, and each one carries the
line and the column at which it starts (`LaidOut`).

While an atom is being read the two views differ from the scan by that atom: what it has read of the text is a front
part whose tokens are all found, and behind that the characters of the atom.
-/
namespace Lisplet

/-! ## Padding and splitting -/

namespace Text

def padded (cs : List Char) : List Char :=
  cs.flatMap fun c => if c = '(' ∨ c = ')' then [' ', c, ' '] else [c]

/-- The parts of a text between its blanks, the empty ones left out. -/
def fragments (cs : List Char) : List (List Char) :=
  (cs.splitOnP isBlank).filter (· ≠ [])

theorem padded_append (cs ds : List Char) : padded (cs ++ ds) = padded cs ++ padded ds :=
  List.flatMap_append

theorem padded_paren {c : Char} (hc : c = '(' ∨ c = ')') (cs : List Char) :
    padded (c :: cs) = ' ' :: c :: ' ' :: padded cs := by
  rw [padded, List.flatMap_cons, if_pos hc]
  rfl

theorem padded_other {c : Char} (ho : c ≠ '(') (hc : c ≠ ')') (cs : List Char) : padded (c :: cs) = c :: padded cs := by
  rw [padded, List.flatMap_cons, if_neg (not_or.2 ⟨ho, hc⟩)]
  rfl

theorem fragments_append_blank (cs ds : List Char) {c : Char} (hc : isBlank c = true) :
    fragments (cs ++ c :: ds) = fragments cs ++ fragments ds := by
  rw [fragments, List.splitOnP_append_cons cs ds hc, List.filter_append]
  rfl

theorem fragments_nil : fragments [] = [] := by
  simp [fragments]

theorem fragments_atom {cs : List Char} (h : IsAtom cs) : fragments cs = [cs] := by
  have hsplit : cs.splitOnP isBlank = [cs] := List.splitOnP_eq_singleton fun c hc => (h.2 c hc).2.2
  simp [fragments, hsplit, h.1]

end Text

namespace Scan

def pendingChars (s : Scan) : List Char :=
  match s.pending with
  | none => []
  | some atom => atom.reversed.reverse

theorem pendingChars_of_pending {s : Scan} (h : s.pending = none) : s.pendingChars = [] := by
  rw [pendingChars, h]

theorem found_extend (s : Scan) (c : Char) : (s.extend c).found = s.found := by
  unfold extend
  split <;> rfl

theorem position_extend (s : Scan) (c : Char) : (s.extend c).position = s.position := by
  unfold extend
  split <;> rfl

theorem position_finish (s : Scan) : s.finish.position = s.position := by
  unfold finish
  split <;> rfl

theorem pendingChars_extend (s : Scan) (c : Char) : (s.extend c).pendingChars = s.pendingChars ++ [c] := by
  unfold pendingChars extend
  cases s.pending with
  | none => rfl
  | some atom => simp

theorem lexemes_eq_fragments {s : Scan} (h : s.WellFormed) :
    s.lexemes = (s.found.map Token.lexeme).reverse ++ (Text.fragments s.pendingChars).map String.ofList := by
  cases hp : s.pending with
  | none => rw [lexemes_of_pending hp, pendingChars_of_pending hp, Text.fragments_nil, List.map_nil, List.append_nil]
  | some atom =>
    have hchars : s.pendingChars = atom.reversed.reverse := by rw [pendingChars, hp]
    rw [lexemes_finish, finish, hp, hchars, Text.fragments_atom (h.pending atom hp)]
    simp

theorem lexemes_foldl : ∀ (cs : List Char) (s : Scan), s.WellFormed →
    (cs.foldl step s).lexemes = (s.found.map Token.lexeme).reverse ++
      (Text.fragments (s.pendingChars ++ Text.padded cs)).map String.ofList
  | [], s, h => by
    rw [List.foldl_nil, lexemes_eq_fragments h]
    simp [Text.padded]
  | c :: cs, s, h => by
    rw [List.foldl_cons, lexemes_foldl cs (s.step c) (h.step c)]
    by_cases hparen : c = '(' ∨ c = ')'
    · obtain ⟨hp, hl⟩ := s.lexemes_paren hparen
      have hatom : Text.fragments [c] = [[c]] := by
        rcases hparen with rfl | rfl <;> decide
      rw [pendingChars_of_pending hp, ← lexemes_of_pending hp, hl, lexemes_eq_fragments h, Text.padded_paren hparen,
        Text.fragments_append_blank s.pendingChars _ (by decide), ← List.singleton_append (l := ' ' :: _),
        Text.fragments_append_blank [c] _ (by decide), hatom]
      simp
    · obtain ⟨ho, hc⟩ := not_or.1 hparen
      rw [Text.padded_other ho hc]
      cases hb : Text.isBlank c with
      | true =>
        have hp : (s.step c).pending = none := by rw [s.step_blank ho hc hb]; exact s.pending_finish
        have hfound : (s.step c).found = s.finish.found := by rw [s.step_blank ho hc hb]; rfl
        rw [pendingChars_of_pending hp, hfound, ← lexemes_finish, lexemes_eq_fragments h,
          Text.fragments_append_blank s.pendingChars _ hb]
        simp
      | false =>
        have hfound : (s.step c).found = s.found := by
          rw [s.step_atom ⟨ho, hc, hb⟩]
          exact s.found_extend c
        have hchars : (s.step c).pendingChars = s.pendingChars ++ [c] := by
          rw [s.step_atom ⟨ho, hc, hb⟩]
          exact s.pendingChars_extend c
        rw [hfound, hchars, List.append_assoc, List.singleton_append]

end Scan

/-- **The lexemes of a text are the fragments of the padded text.** -/
theorem lexemes_tokenize (source : String) :
    (tokenize source).map Token.lexeme = (Text.fragments (Text.padded source.toList)).map String.ofList :=
  Scan.lexemes_foldl source.toList .start Scan.wellFormed_start

/-! ## Places -/

namespace Position

/-- **The place right behind a text**: lines and columns are counted from one, and the column starts again behind every
line feed. -/
def behind (cs : List Char) : Position :=
  ⟨1 + cs.count '\n', 1 + (cs.reverse.takeWhile (· ≠ '\n')).length⟩

theorem behind_concat (cs : List Char) (c : Char) : behind (cs ++ [c]) = (behind cs).advance c := by
  by_cases hc : c = '\n'
  · simp [behind, advance, hc, Nat.add_assoc]
  · simp [behind, advance, hc, Nat.add_comm]

end Position

structure PlacedToken where
  offset : Nat
  token : Token

namespace PlacedToken

def stop (x : PlacedToken) : Nat :=
  x.offset + x.token.lexeme.toList.length

/-- The token is the slice of the text at its offset, and its place is the one that it has in the text. -/
structure SliceOf (x : PlacedToken) (source : List Char) : Prop where
  nonempty : x.token.lexeme ≠ ""
  slice : (source.drop x.offset).take x.token.lexeme.toList.length = x.token.lexeme.toList
  position : x.token.position = .behind (source.take x.offset)

variable {x : PlacedToken} {source : List Char}

theorem SliceOf.stop_le (h : x.SliceOf source) : x.stop ≤ source.length := by
  have hlen := congrArg List.length h.slice
  have hpos : x.token.lexeme.toList.length ≠ 0 := by
    simpa using h.nonempty
  rw [List.length_take, List.length_drop] at hlen
  rw [stop]
  omega

theorem SliceOf.append (h : x.SliceOf source) (more : List Char) : x.SliceOf (source ++ more) := by
  have hstop := h.stop_le
  rw [stop] at hstop
  refine ⟨h.nonempty, ?_, ?_⟩
  · rw [List.drop_append_of_le_length (by omega), List.take_append_of_le_length (by rw [List.length_drop]; omega)]
    exact h.slice
  · rw [List.take_append_of_le_length (by omega)]
    exact h.position

end PlacedToken

/-- **The tokens lie in the text**, each one behind the one before it, and cover all of it that is not blank. -/
structure LaidOut (source : List Char) (placed : List PlacedToken) : Prop where
  slices : ∀ x ∈ placed, x.SliceOf source
  ordered : placed.Pairwise fun x y => x.stop ≤ y.offset
  covers : ∀ (k : Nat) (c : Char), source[k]? = some c → Text.isBlank c = false →
    ∃ x ∈ placed, x.offset ≤ k ∧ k < x.stop

namespace LaidOut

variable {source : List Char} {placed : List PlacedToken}

theorem nil : LaidOut [] [] where
  slices x hx := by cases hx
  ordered := .nil
  covers k c hk _ := by cases hk

theorem blank (h : LaidOut source placed) {c : Char} (hc : Text.isBlank c = true) : LaidOut (source ++ [c]) placed where
  slices x hx := (h.slices x hx).append [c]
  ordered := h.ordered
  covers k d hk hd := by
    by_cases hlt : k < source.length
    · rw [List.getElem?_append_left hlt] at hk
      exact h.covers k d hk hd
    · rw [List.getElem?_append_right (Nat.le_of_not_lt hlt)] at hk
      obtain ⟨_, rfl⟩ := List.getElem?_eq_some_iff.1 hk
      rw [List.getElem_singleton, hc] at hd
      cases hd

theorem token (h : LaidOut source placed) {w : String} (hw : w ≠ "") :
    LaidOut (source ++ w.toList) (placed ++ [⟨source.length, ⟨w, .behind source⟩⟩]) where
  slices x hx := by
    rcases List.mem_append.1 hx with hx | hx
    · exact (h.slices x hx).append w.toList
    · rw [List.mem_singleton.1 hx]
      refine ⟨hw, ?_, ?_⟩
      · rw [List.drop_left, List.take_length]
      · rw [List.take_left]
  ordered := by
    refine List.pairwise_append.2 ⟨h.ordered, List.pairwise_singleton _ _, fun x hx y hy => ?_⟩
    rw [List.mem_singleton.1 hy]
    exact (h.slices x hx).stop_le
  covers k d hk hd := by
    by_cases hlt : k < source.length
    · rw [List.getElem?_append_left hlt] at hk
      obtain ⟨x, hx, hcover⟩ := h.covers k d hk hd
      exact ⟨x, List.mem_append_left _ hx, hcover⟩
    · have hk' : k < (source ++ w.toList).length := (List.getElem?_eq_some_iff.1 hk).1
      rw [List.length_append] at hk'
      refine ⟨_, List.mem_append_right _ (List.mem_singleton_self _), Nat.le_of_not_lt hlt, ?_⟩
      exact hk'

end LaidOut

namespace Scan

/-- **Where the scan stands** behind the text `read`: its tokens are laid out in a front part of that text, and the rest
is the atom that is being read. -/
structure StandsAt (s : Scan) (read : List Char) : Prop where
  position : s.position = .behind read
  layout : ∃ front placed, read = front ++ s.pendingChars ∧ LaidOut front placed ∧
    placed.map PlacedToken.token = s.found.reverse ∧
    ∀ atom, s.pending = some atom → atom.position = .behind front

variable {s : Scan} {read : List Char}

theorem StandsAt.finish (h : s.StandsAt read) (hw : s.WellFormed) :
    ∃ placed, LaidOut read placed ∧ placed.map PlacedToken.token = s.finish.found.reverse := by
  obtain ⟨front, placed, hread, hlaid, hfound, hatom⟩ := h.layout
  cases hp : s.pending with
  | none =>
    rw [pendingChars_of_pending hp, List.append_nil] at hread
    rw [finish_of_pending hp, hread]
    exact ⟨placed, hlaid, hfound⟩
  | some atom =>
    have hchars : s.pendingChars = (String.ofList atom.reversed.reverse).toList := by
      rw [pendingChars, hp, String.toList_ofList]
    have hne : String.ofList atom.reversed.reverse ≠ "" := by
      have := (hw.pending atom hp).1
      simpa [← String.toList_inj] using this
    rw [hread, hchars]
    refine ⟨_, hlaid.token hne, ?_⟩
    rw [Scan.finish, hp, List.map_append, hfound, List.reverse_cons, hatom atom hp]
    rfl

theorem standsAt_of_laidOut {placed : List PlacedToken} (hp : s.pending = none) (hpos : s.position = .behind read)
    (hl : LaidOut read placed) (hf : placed.map PlacedToken.token = s.found.reverse) : s.StandsAt read := by
  refine ⟨hpos, read, placed, ?_, hl, hf, fun atom ha => ?_⟩
  · rw [pendingChars_of_pending hp, List.append_nil]
  · rw [hp] at ha
    cases ha

theorem standsAt_start : start.StandsAt [] :=
  standsAt_of_laidOut rfl rfl .nil rfl

/-- **One character moves the scan on by one.** -/
theorem StandsAt.step (h : s.StandsAt read) (hw : s.WellFormed) (c : Char) : (s.step c).StandsAt (read ++ [c]) := by
  have hnext : s.finish.position.advance c = .behind (read ++ [c]) := by
    rw [s.position_finish, h.position, Position.behind_concat]
  by_cases hparen : c = '(' ∨ c = ')'
  · obtain ⟨placed, hlaid, hfound⟩ := h.finish hw
    have hne : String.ofList [c] ≠ "" := by simp [← String.toList_inj]
    have htoken := hlaid.token hne
    rw [String.toList_ofList] at htoken
    rw [s.step_paren hparen]
    refine standsAt_of_laidOut s.pending_finish hnext htoken ?_
    show _ = (⟨String.ofList [c], s.finish.position⟩ :: s.finish.found).reverse
    rw [List.map_append, hfound, List.reverse_cons, s.position_finish, h.position]
    rfl
  · obtain ⟨ho, hc⟩ := not_or.1 hparen
    cases hb : Text.isBlank c with
    | true =>
      obtain ⟨placed, hlaid, hfound⟩ := h.finish hw
      rw [s.step_blank ho hc hb]
      exact standsAt_of_laidOut s.pending_finish hnext (hlaid.blank hb) hfound
    | false =>
      obtain ⟨front, placed, hread, hlaid, hfound, hatom⟩ := h.layout
      have hchars : ((s.extend c).advance c).pendingChars = s.pendingChars ++ [c] := s.pendingChars_extend c
      rw [s.step_atom ⟨ho, hc, hb⟩]
      refine ⟨?_, front, placed, ?_, hlaid, ?_, ?_⟩
      · show (s.extend c).position.advance c = _
        rw [Position.behind_concat, ← h.position, s.position_extend]
      · rw [hchars, hread, List.append_assoc]
      · rw [hfound]
        show _ = (s.extend c).found.reverse
        rw [s.found_extend]
      · intro atom ha
        have ha' : (s.extend c).pending = some atom := ha
        cases hp : s.pending with
        | none =>
          -- the character starts an atom, and no other was being read
          rw [extend, hp] at ha'
          cases ha'
          rw [pendingChars_of_pending hp, List.append_nil] at hread
          rw [← hread, ← h.position]
        | some atom' =>
          rw [extend, hp] at ha'
          cases ha'
          exact hatom atom' hp

theorem StandsAt.foldl (h : s.StandsAt read) (hw : s.WellFormed) (cs : List Char) :
    (cs.foldl Scan.step s).StandsAt (read ++ cs) := by
  induction cs generalizing s read with
  | nil => rwa [List.append_nil]
  | cons c cs ih =>
    have hnext := ih (h.step hw c) (hw.step c)
    rwa [List.append_assoc] at hnext

end Scan

/-- **The scan is what its plain description says.**  The lexemes of a text are the fragments of the padded text, and its
tokens are laid out in it, each with the line and the column at which it starts. -/
theorem tokenize_layout (source : String) :
    (tokenize source).map Token.lexeme = (Text.fragments (Text.padded source.toList)).map String.ofList ∧
    ∃ placed : List PlacedToken, placed.map PlacedToken.token = tokenize source ∧ LaidOut source.toList placed := by
  refine ⟨lexemes_tokenize source, ?_⟩
  have hstands := Scan.standsAt_start.foldl Scan.wellFormed_start source.toList
  obtain ⟨placed, hlaid, hfound⟩ := hstands.finish (Scan.wellFormed_start.foldl source.toList)
  exact ⟨placed, hfound, hlaid⟩

end Lisplet
