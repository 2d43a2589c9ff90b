import LexLR.Automaton.Basic
import LexLR.Json.Encoding
import LexLR.Json.Read
import LexLR.Automaton.Shape
/-!
# Stored automata

An automaton is stored as one JSON object with the fields `data` (the table), `kinds` (`null`,
`"Identifier"`, `"Error"` or an object `Keyword` holding the word), `state_ids`, `alphabet`
(one-character strings), `states` (the number of rows) and `initial_state`, in this order.
-/

namespace LexLR.Automaton

/-- The stored form of a token kind. -/
def kindJson : Option TokenKind → String
  | none => "null"
  | some .identifier => "\"Identifier\""
  | some .error => "\"Error\""
  | some (.keyword w) => Json.object [("Keyword", Json.quote w)]

/-- The stored form of an automaton. -/
def toJson (a : Automaton) : String :=
  Json.object [
    ("data", Json.array (a.table.toList.map toString)),
    ("kinds", Json.array (a.kinds.toList.map kindJson)),
    ("state_ids", Json.array (a.stateIds.toList.map toString)),
    ("alphabet", Json.array (a.alphabet.toList.map fun c => Json.quote (String.singleton c))),
    ("states", toString a.rows),
    ("initial_state", toString a.initial)]

/-- A stored token kind: `"Identifier"`, `"Error"`, or an object with the one member `Keyword`
(a string), `Identifier` or `Error` (both `null`). -/
def kindOfDoc? : Json.Doc → Option TokenKind
  | .str (some "Identifier") => some .identifier
  | .str (some "Error") => some .error
  | .obj [(some "Keyword", .str (some w))] => some (.keyword w)
  | .obj [(some "Identifier", .null)] => some .identifier
  | .obj [(some "Error", .null)] => some .error
  | _ => none

/-- A stored optional token kind. -/
def optKindOfDoc? : Json.Doc → Option (Option TokenKind)
  | .null => some none
  | d => (kindOfDoc? d).map some

/-- The automaton a document describes, before any shape check. -/
def ofDoc? (d : Json.Doc) : Option Automaton := do
  let fs ← d.fields? ["data", "kinds", "state_ids", "alphabet", "states", "initial_state"]
  match fs with
  | [data, kinds, ids, alphabet, states, initial] =>
    let table ← (← data.items?).mapM Json.Doc.u64?
    let kinds ← (← kinds.items?).mapM optKindOfDoc?
    let ids ← (← ids.items?).mapM Json.Doc.u64?
    let alphabet ← (← alphabet.items?).mapM Json.Doc.char?
    let rows ← states.u64?
    let initial ← initial.u64?
    some { table := table.toArray, kinds := kinds.toArray, stateIds := ids.toArray,
           alphabet := alphabet.toArray, rows := rows, initial := initial }
  | _ => none

/-- Loads a stored automaton from the bytes of its JSON text and checks its shape. -/
def load (bytes : List UInt8) : Except SpecError Automaton :=
  match (Json.Doc.read bytes).bind ofDoc? with
  | none => .error .serialization
  | some a => a.checkShape

/-- A loaded automaton passed every shape check. -/
theorem wellShaped_of_load {bytes : List UInt8} {a : Automaton} (h : load bytes = .ok a) :
    a.WellShaped := by
  unfold load at h
  split at h
  · exact absurd h (by simp)
  · rename_i b _
    obtain ⟨rfl, hb⟩ := wellShaped_of_checkShape h
    exact hb

end LexLR.Automaton
