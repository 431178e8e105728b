import Lisplet.Token
/-!
# The lexemes of a text

What the scan adds to the lexemes found so far, piece by piece: a blank adds nothing, a parenthesis adds itself, and both
end the atom that is being read; a run of other characters adds one atom, if none is being read before it
(`lexemes_atom`).  Nothing else is ever found: every lexeme of a text is a parenthesis or an atom (`mem_tokenize`).
-/
namespace Lisplet

def Text.IsAtomChar (c : Char) : Prop :=
  c ≠ '(' ∧ c ≠ ')' ∧ isBlank c = false

instance (c : Char) : Decidable (Text.IsAtomChar c) :=
  inferInstanceAs (Decidable (_ ∧ _))

/-- **An atom**: one or more characters, none of them a parenthesis or blank. -/
def Text.IsAtom (cs : List Char) : Prop :=
  cs ≠ [] ∧ ∀ c ∈ cs, IsAtomChar c

-- the characters of the text are tried one by one, not all there are
instance (cs : List Char) : Decidable (Text.IsAtom cs) :=
  decidable_of_iff (cs ≠ [] ∧ cs.all (fun c => decide (Text.IsAtomChar c)) = true) (by simp [Text.IsAtom])

namespace Scan

def lexemes (s : Scan) : List String :=
  s.tokens.map Token.lexeme

variable (s : Scan)

theorem pending_finish : s.finish.pending = none := by
  unfold finish
  split
  · next h => exact h
  · rfl

theorem finish_of_pending {s : Scan} (h : s.pending = none) : s.finish = s := by
  rw [finish, h]

theorem step_paren {c : Char} (hc : c = '(' ∨ c = ')') : s.step c = (s.finish.emit c).advance c := by
  rw [step, if_pos hc]

theorem step_blank {c : Char} (ho : c ≠ '(') (hc : c ≠ ')') (hb : Text.isBlank c = true) :
    s.step c = s.finish.advance c := by
  rw [step, if_neg (not_or.2 ⟨ho, hc⟩), if_pos hb]

theorem step_atom {c : Char} (h : Text.IsAtomChar c) : s.step c = (s.extend c).advance c := by
  rw [step, if_neg (not_or.2 ⟨h.1, h.2.1⟩), h.2.2, if_neg Bool.false_ne_true]

theorem lexemes_of_pending {s : Scan} (h : s.pending = none) : s.lexemes = (s.found.map Token.lexeme).reverse := by
  rw [lexemes, tokens, finish_of_pending h, List.map_reverse]

theorem lexemes_finish : s.lexemes = (s.finish.found.map Token.lexeme).reverse := by
  rw [lexemes, tokens, List.map_reverse]

/-! ## Pieces of text -/

theorem lexemes_space : (s.step ' ').pending = none ∧ (s.step ' ').lexemes = s.lexemes := by
  rw [s.step_blank (by decide) (by decide) (by decide)]
  have hp : (s.finish.advance ' ').pending = none := s.pending_finish
  refine ⟨hp, ?_⟩
  rw [lexemes_of_pending hp, lexemes_finish]
  rfl

theorem lexemes_paren {c : Char} (hc : c = '(' ∨ c = ')') :
    (s.step c).pending = none ∧ (s.step c).lexemes = s.lexemes ++ [String.ofList [c]] := by
  rw [s.step_paren hc]
  have hp : ((s.finish.emit c).advance c).pending = none := s.pending_finish
  refine ⟨hp, ?_⟩
  rw [lexemes_of_pending hp, lexemes_finish]
  exact List.reverse_cons

theorem foldl_step_atom : ∀ (cs : List Char) (s : Scan) (atom : PendingAtom), (∀ c ∈ cs, Text.IsAtomChar c) →
    s.pending = some atom → (cs.foldl step s).found = s.found ∧
      (cs.foldl step s).pending = some { atom with reversed := cs.reverse ++ atom.reversed }
  | [], s, atom, _, hp => ⟨rfl, hp⟩
  | c :: cs, s, atom, hc, hp => by
    have hs : s.step c = ⟨s.position.advance c, some { atom with reversed := c :: atom.reversed }, s.found⟩ := by
      rw [s.step_atom (hc c List.mem_cons_self), extend, hp]
      rfl
    obtain ⟨hfound, hpending⟩ := foldl_step_atom cs (s.step c) { atom with reversed := c :: atom.reversed }
      (fun d hd => hc d (List.mem_cons_of_mem c hd)) (by rw [hs])
    rw [List.foldl_cons, List.reverse_cons, List.append_assoc]
    exact ⟨hfound.trans (by rw [hs]), hpending⟩

theorem lexemes_atom {s : Scan} {w : String} (hp : s.pending = none) (hw : Text.IsAtom w.toList) :
    (w.toList.foldl step s).lexemes = s.lexemes ++ [w] := by
  obtain ⟨hne, hchars⟩ := hw
  obtain ⟨c, cs, hcs⟩ := List.exists_cons_of_ne_nil hne
  rw [hcs] at hchars
  have hs : s.step c = ⟨s.position.advance c, some ⟨s.position, [c]⟩, s.found⟩ := by
    rw [s.step_atom (hchars c List.mem_cons_self), extend, hp]
    rfl
  obtain ⟨hfound, hpending⟩ := foldl_step_atom cs (s.step c) ⟨s.position, [c]⟩
    (fun d hd => hchars d (List.mem_cons_of_mem c hd)) (by rw [hs])
  have hlexeme : String.ofList (cs.reverse ++ [c]).reverse = w := by
    rw [List.reverse_append, List.reverse_reverse, List.reverse_singleton, List.singleton_append, ← hcs,
      String.ofList_toList]
  have hfound' : (cs.foldl step (s.step c)).found = s.found := hfound.trans (by rw [hs])
  rw [hcs, List.foldl_cons, lexemes_finish, finish, hpending, lexemes_of_pending hp]
  simp only [List.map_cons, List.reverse_cons, hlexeme, hfound']

/-! ## Every lexeme -/

def IsLexeme (w : String) : Prop :=
  w = "(" ∨ w = ")" ∨ Text.IsAtom w.toList

/-- What has been found are lexemes, and what is being read is the beginning of an atom. -/
structure WellFormed (s : Scan) : Prop where
  found : ∀ t ∈ s.found, IsLexeme t.lexeme
  pending : ∀ atom, s.pending = some atom → Text.IsAtom atom.reversed.reverse

theorem wellFormed_start : start.WellFormed := by
  refine ⟨fun t ht => ?_, fun atom ha => ?_⟩
  · cases ht
  · cases ha

theorem WellFormed.finish {s : Scan} (h : s.WellFormed) : s.finish.WellFormed := by
  unfold Scan.finish
  split
  · exact h
  · next atom hp =>
    refine ⟨fun t ht => ?_, fun _ hnone => by cases hnone⟩
    rcases List.mem_cons.1 ht with rfl | ht
    · right; right
      rw [String.toList_ofList]
      exact h.pending atom hp
    · exact h.found t ht

theorem WellFormed.extend {s : Scan} {c : Char} (h : s.WellFormed) (hc : Text.IsAtomChar c) :
    (s.extend c).WellFormed := by
  unfold Scan.extend
  split
  · refine ⟨h.found, fun atom ha => ?_⟩
    cases ha
    refine ⟨List.cons_ne_nil c [], fun d hd => ?_⟩
    rw [List.mem_singleton.1 hd]
    exact hc
  · next atom hp =>
    refine ⟨h.found, fun atom' ha => ?_⟩
    cases ha
    have hold := (h.pending atom hp).2
    rw [List.reverse_cons]
    refine ⟨List.append_ne_nil_of_right_ne_nil _ (List.cons_ne_nil c []), fun d hd => ?_⟩
    rcases List.mem_append.1 hd with hd | hd
    · exact hold d hd
    · rw [List.mem_singleton.1 hd]
      exact hc

/-- **One character keeps the scan well-formed.** -/
theorem WellFormed.step {s : Scan} (h : s.WellFormed) (c : Char) : (s.step c).WellFormed := by
  by_cases hparen : c = '(' ∨ c = ')'
  · rw [s.step_paren hparen]
    refine ⟨fun t ht => ?_, h.finish.pending⟩
    rcases List.mem_cons.1 ht with rfl | ht
    · rcases hparen with rfl | rfl
      · exact .inl rfl
      · exact .inr (.inl rfl)
    · exact h.finish.found t ht
  · obtain ⟨ho, hc⟩ := not_or.1 hparen
    cases hb : Text.isBlank c with
    | true =>
      rw [s.step_blank ho hc hb]
      exact ⟨h.finish.found, h.finish.pending⟩
    | false =>
      rw [s.step_atom ⟨ho, hc, hb⟩]
      exact ⟨(h.extend ⟨ho, hc, hb⟩).found, (h.extend ⟨ho, hc, hb⟩).pending⟩

theorem WellFormed.foldl {s : Scan} (h : s.WellFormed) (cs : List Char) : (cs.foldl Scan.step s).WellFormed := by
  induction cs generalizing s with
  | nil => exact h
  | cons c cs ih => exact ih (h.step c)

end Scan

/-- **Every lexeme of a text is a parenthesis or an atom.** -/
theorem mem_tokenize {source : String} {t : Token} (h : t ∈ tokenize source) : Scan.IsLexeme t.lexeme :=
  (Scan.wellFormed_start.foldl source.toList).finish.found t (List.mem_reverse.1 h)

end Lisplet
