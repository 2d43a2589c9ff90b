import LexLR.Automaton.Compile
import LexLR.Scan.Lexer
import LexLR.LR.Load
import LexLR.LR.Analyser
/-!
# Recognizers

A recognizer pairs a lexer compiled from a rule file with an analyser over a parse table. It
reads the whole source first, then analyses the tokens.
-/

namespace LexLR

/-- Why recognition failed. -/
inductive RecognizeError where
  | spec (e : SpecError)
  | table (e : LR.TableError)
  | lex (e : LexError)
  | analyse (e : LR.AnalyseError)
  deriving Repr

/-- The text each error is reported with: building the lexer or loading the table are reported
as such; lexical and syntax errors as they are. -/
def RecognizeError.message : RecognizeError → String
  | .spec _ => "failed to build lexer"
  | .table _ => "failed to load parse table"
  | .lex e => e.message
  | .analyse e => e.message

/-- A lexer and an analyser run back to back. -/
structure Recognizer where
  automaton : Automaton
  analyser : LR.Analyser

namespace Recognizer

/-- Builds the lexer from a rule file, then the table, then the analyser. -/
def ofSources (rules tableJson : String) (o : LR.Options) : Except RecognizeError Recognizer := do
  let automaton ← (Automaton.ofRules rules).mapError .spec
  let table ← (LR.Table.ofJson tableJson).mapError .table
  let analyser ← (LR.Analyser.new table o).mapError .table
  return { automaton, analyser }

/-- Reads a source and analyses its tokens. -/
def recognize (r : Recognizer) (source : String) : Except RecognizeError LR.Derivation := do
  let (tokens, symbols) ← (r.automaton.read source).mapError .lex
  (r.analyser.analyse tokens symbols).mapError .analyse

end Recognizer

end LexLR
