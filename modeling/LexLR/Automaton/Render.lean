import LexLR.Automaton.Basic
import LexLR.Text.Blank
/-!
# Printing lexical automata

A header row with each symbol right-aligned in seven columns, then one line per row of the table:
an arrow marking the initial row, the row's state in angle brackets (`<ERROR>` for the error
row), the state of each entry (`-` for the error row), and the accepted token kind, if any.
-/

namespace LexLR.Automaton

open Text

/-- A row's label: its state in angle brackets, or `<ERROR>`. -/
def rowLabel (a : Automaton) (r : Nat) : String :=
  match a.stateId? r with
  | some q => "<" ++ toString q ++ ">"
  | none => "<ERROR>"

/-- The line of one row of the table. -/
def renderRow (a : Automaton) (r : Nat) : String :=
  let marker := if r = a.initial then "->" else ""
  let cells := (List.range a.alphabet.size).map fun col =>
    padLeft 7 (match a.stateId? (a.cell r col) with
      | some q => "<" ++ toString q ++ ">"
      | none => "-")
  let kind := match a.kind? r with
    | some k => " | " ++ k.render
    | none => " |"
  padLeft 2 marker ++ padLeft 8 (a.rowLabel r) ++ " |" ++ String.join cells ++ kind ++ "\n"

/-- The whole table. -/
def render (a : Automaton) : String :=
  let header := padLeft 10 "" ++ " |" ++
    String.join (a.alphabet.toList.map fun c => padLeft 7 (String.singleton c)) ++ " | token\n"
  header ++ String.join ((List.range a.rows).map a.renderRow)

end LexLR.Automaton
