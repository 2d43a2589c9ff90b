import LexLR.Automaton.Basic
import LexLR.Trimmed
import LexLR.Spec.Parse
import LexLR.Spec.Basic
/-!
# Compiling a trimmed specification

The rows are the live states in ascending id order, then the error row; the start state, when
live, is the first row. A transition goes to the row of its target, or to the error row when the
target is not live; a literal stays in its own row; epsilon adds no entry. A terminal state
accepts its reserved word if it has one and an identifier otherwise. A specification with a fork
cannot be compiled, and one without live states accepts nothing.
-/

namespace LexLR

namespace Trimmed

/-- The token kind a state accepts. -/
def kindOf (s : RuleSpec) (q : Nat) : Option TokenKind :=
  if s.isTerminal q then some ((s.keyword? q).elim .identifier .keyword) else none

/-- The symbol a production reads and the row it leads to from row `r`, if it adds an entry. -/
def entry (rowOf : Nat → Option Nat) (err r : Nat) : Production → Option (Char × Nat)
  | .transition c t => some (c, (rowOf t).getD err)
  | .literal c => some (c, r)
  | .epsilon => none

/-- The table entries of the row `r` of state `q`: the error row wherever no production reads
the symbol. -/
def rowCells (s : RuleSpec) (alphabet : Array Char) (rowOf : Nat → Option Nat) (err r q : Nat) :
    Except SpecError (Array Nat) :=
  (s.rule q).productions.foldlM (fun cells p =>
    match entry rowOf err r p with
    | none => .ok cells
    | some (c, n) =>
      match search? alphabet c with
      | some col => .ok (cells.setIfInBounds col n)
      | none => .error (.invariant s!"`{c}` is missing from the alphabet"))
    (Array.replicate alphabet.size err)

/-- The compiled automaton of a trimmed specification. -/
def compile (t : Trimmed) : Except SpecError Automaton :=
  let s := t.spec
  match s.forks with
  | f :: _ =>
    let p := f.parent
    let c := f.symbol
    .error (.invariant s!"state <{p}> has several transitions on `{c}`, determinize before compiling")
  | [] =>
    let live := t.live
    if live.isEmpty then .error .noAcceptingState
    else do
      let err := live.length
      let alphabet := s.alphabet.toArray
      let cells ← live.zipIdx.mapM fun (q, r) => rowCells s alphabet live.idxOf? err r q
      return {
        table := cells.foldl (· ++ ·) #[] ++ Array.replicate alphabet.size err
        kinds := (live.map (kindOf s)).toArray.push (some .error)
        stateIds := live.toArray
        alphabet := alphabet
        rows := live.length + 1
        initial := 0 }

end Trimmed

/-- Reads, determinizes and compiles a rule file. -/
def Automaton.ofRules (text : String) : Except SpecError Automaton := do
  let s ← RuleSpec.parse text
  s.determinize.compile

end LexLR
