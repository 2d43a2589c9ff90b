import Mathlib
import LexLR.Proofs.Keywords
/-!
# What the lexer's walk skips

The walk reads a word through the automaton, but a symbol that would lead to the error row is
skipped: the walk stays where it is and reads the rest of the word from there. Up to the first such
symbol it reads as the automaton does, so a word the automaton can follow to its end is judged by
the row it reaches. The first skipped symbol does not end the walk, though: a later symbol can
still move it on. Main statement: `classify_eq_of_longest_followable`.

So a word is not judged by the longest prefix the automaton can follow. In the automaton of
`<S> ::= a<A>` and `<A> ::= epsi`, the walk of `ba` skips `b` and then reads `a` into the row of `A`,
so the word is an identifier, although its longest followable prefix is empty and the start row
accepts nothing.
-/

namespace LexLR

namespace Automaton

variable (a : Automaton)

/-- A symbol that would lead to the error row leaves the walk where it is. -/
theorem walkStep_of_isError {r : Nat} {c : Char} (h : a.isError (a.next r c) = true) :
    a.walkStep r c = r := by
  simp [walkStep, h]

/-- The walk of a word whose prefixes all stay outside the error row reads it as the automaton
does; past the first symbol that would lead to the error row, it reads the rest of the word from
the row the longest followable prefix reached. -/
theorem walk_append_cons_of_isError {p : List Char} {c : Char} (rest : List Char)
    (hp : ∀ v, v <+: p → a.isError (a.run v) = false) (hc : a.isError (a.run (p ++ [c])) = true) :
    a.walk (p ++ c :: rest) = rest.foldl a.walkStep (a.run p) := by
  have hfollow : p.foldl a.walkStep a.initial = a.run p := a.walk_eq_run hp
  have hskip : a.walkStep (a.run p) c = a.run p := by
    rw [run_append] at hc
    exact a.walkStep_of_isError hc
  rw [walk_eq_foldl, List.foldl_append, hfollow, List.foldl_cons, hskip]

/-- The kind of a word. When the automaton can follow the whole word, it is the kind of the row
the word reaches. Otherwise let `p` be the longest prefix it can follow and `c` the symbol after
it: the kind is that of the row reached by walking the rest of the word, past `c`, from the row of
`p`; so the word is judged by `p` only when that walk goes nowhere else. -/
theorem classify_eq_of_longest_followable (w : List Char) :
    ((∀ v, v <+: w → a.isError (a.run v) = false) →
        a.classify w = (a.kind? (a.run w)).getD .error) ∧
      ∀ p c rest, w = p ++ c :: rest → (∀ v, v <+: p → a.isError (a.run v) = false) →
        a.isError (a.run (p ++ [c])) = true →
        a.classify w = (a.kind? (rest.foldl a.walkStep (a.run p))).getD .error := by
  refine ⟨fun hw => ?_, fun p c rest hsplit hp hc => ?_⟩
  · rw [classify, a.walk_eq_run hw]
  · rw [classify, hsplit, a.walk_append_cons_of_isError rest hp hc]

end Automaton

/-- A rule file whose start state reads `a` into an accepting state, and nothing else. -/
def acceptAfterA : String :=
  "<S> ::= a<A>\n<A> ::= epsi"

/-- What `acceptAfterA` compiles to: the start row, the accepting row of `A`, and the error
row. -/
def acceptAfterAAutomaton : Automaton where
  table := #[1, 2, 2]
  kinds := #[none, some .identifier, some .error]
  stateIds := #[0, 1]
  alphabet := #['a']
  rows := 3
  initial := 0

/-- In `acceptAfterA`, the word `ba` cannot be followed past its empty prefix, and the walk reads
its `a` from the start row after skipping `b`. -/
theorem acceptAfterA_classify_skips :
    Automaton.ofRules acceptAfterA = .ok acceptAfterAAutomaton ∧
      acceptAfterAAutomaton.classify ['b', 'a'] =
        (acceptAfterAAutomaton.kind? (['a'].foldl acceptAfterAAutomaton.walkStep
          (acceptAfterAAutomaton.run []))).getD .error := by
  have hA : Automaton.ofRules acceptAfterA = .ok acceptAfterAAutomaton := by cbv
  have hp : ∀ v, v <+: ([] : List Char) →
      acceptAfterAAutomaton.isError (acceptAfterAAutomaton.run v) = false := by
    intro v hv
    rw [List.prefix_nil.1 hv]
    decide
  exact ⟨hA, (acceptAfterAAutomaton.classify_eq_of_longest_followable ['b', 'a']).2 [] 'b' ['a']
    rfl hp (by cbv)⟩

/-- Judging `ba` by its longest followable prefix would make it an error: `b` leads to the error
row and the start row accepts nothing. The lexer reads it as an identifier. -/
theorem longest_followable_prefix_judgement_rejected :
    Automaton.ofRules acceptAfterA = .ok acceptAfterAAutomaton ∧
      acceptAfterAAutomaton.isError (acceptAfterAAutomaton.run ['b']) = true ∧
      acceptAfterAAutomaton.kind? (acceptAfterAAutomaton.run []) = none ∧
      acceptAfterAAutomaton.classify ['b', 'a'] = .identifier :=
  ⟨by cbv, by cbv, by cbv, by cbv⟩

end LexLR
