import LexLR.Automaton.Basic
import LexLR.Text.Blank
/-!
# Reading sources

A source is read word by word into a symbol table, which prints as a table of lines, words and
token kinds.
-/

/-! ## Symbol tables

Reading a source records every word with its line (counted from 1) and its token kind, in source
order. The table prints as a header and one line per record: the line number right-aligned in six
columns, two spaces, the word left-aligned in twenty, a space, and the token kind.
-/

namespace LexLR

/-- One word read from a source. -/
structure SymbolRecord where
  literal : String
  line : Nat
  token : TokenKind
  deriving DecidableEq, Repr

/-- The records of a source, in source order. -/
structure SymbolTable where
  records : List SymbolRecord := []
  deriving DecidableEq, Repr

namespace SymbolTable

/-- The number of records. -/
def size (t : SymbolTable) : Nat :=
  t.records.length

/-- The token kinds, in order. -/
def tokens (t : SymbolTable) : List TokenKind :=
  t.records.map SymbolRecord.token

/-- The first record whose word was not recognised. -/
def firstError? (t : SymbolTable) : Option SymbolRecord :=
  t.records.find? fun r => r.token = .error

/-- One printed line. -/
def renderLine (line literal token : String) : String :=
  Text.padLeft 6 line ++ "  " ++ Text.padRight 20 literal ++ " " ++ token ++ "\n"

/-- The printed table. -/
def render (t : SymbolTable) : String :=
  renderLine "line" "literal" "token" ++
    String.join (t.records.map fun r => renderLine (toString r.line) r.literal r.token.render)

end SymbolTable

/-! ## Reading a source

A source is cut into lines, every tab is deleted from a line (so a tab joins the words on either
side), and each line is cut into words at blanks. Each word is classified by the automaton. A
read succeeds with the token kinds and the symbol table when no word is an error; otherwise it
fails at the first unrecognised word.
-/

/-- A word that is no token. -/
inductive LexError where
  | unrecognized (line : Nat) (literal : String)
  deriving DecidableEq, Repr

/-- The text the error is reported with. -/
def LexError.message : LexError → String
  | .unrecognized line literal => s!"line {line}: `{literal}` is not a recognised token"

namespace Automaton

/-- The records of one line. -/
def lineRecords (a : Automaton) (line : List Char) (number : Nat) : List SymbolRecord :=
  (Text.words (line.filter (· != '\t'))).map fun w =>
    { literal := String.ofList w, line := number, token := a.classify w }

/-- Every word of a source, with its line and kind, in source order. -/
def symbols (a : Automaton) (source : String) : SymbolTable :=
  ⟨((Text.lines source.toList).zipIdx 1).flatMap fun (line, number) => a.lineRecords line number⟩

/-- Reads a source: its token kinds and symbol table, or the first unrecognised word. -/
def read (a : Automaton) (source : String) : Except LexError (List TokenKind × SymbolTable) :=
  let t := a.symbols source
  match t.firstError? with
  | some r => .error (.unrecognized r.line r.literal)
  | none => .ok (t.tokens, t)

end Automaton

end LexLR
