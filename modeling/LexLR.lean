import LexLR.Text.Blank
import LexLR.Text.Alnum
import LexLR.Text.Printable
import LexLR.Spec.Rule
import LexLR.Spec.Basic
import LexLR.Spec.Render
import LexLR.Spec.Builder
import LexLR.Spec.Parse
import LexLR.Subset
import LexLR.Trimmed
import LexLR.Automaton.Basic
import LexLR.Automaton.Compile
import LexLR.Automaton.Render
import LexLR.Automaton.Shape
import LexLR.Automaton.Json
import LexLR.Scan.Lexer
import LexLR.Json.Encoding
import LexLR.Json.Scan
import LexLR.Json.Read
import LexLR.LR.Table
import LexLR.LR.Load
import LexLR.LR.Analyser
import LexLR.Recognizer
import LexLR.Main
import LexLR.Proofs.LoadedBounds
import LexLR.Proofs.Sets
import LexLR.Proofs.Runs
import LexLR.Proofs.Built
import LexLR.Proofs.Edits
import LexLR.Proofs.Cover
import LexLR.Proofs.Passes
import LexLR.Proofs.Determinize
import LexLR.Proofs.Marks
import LexLR.Proofs.Table
import LexLR.Proofs.Compiled
import LexLR.Proofs.Parsed
import LexLR.Proofs.Recognized
import LexLR.Proofs.Chains
import LexLR.Proofs.Keywords
import LexLR.Proofs.WellFormedTable
import LexLR.Proofs.Analysis
import LexLR.Proofs.Termination
import LexLR.Proofs.BuilderCalls
import LexLR.Proofs.JsonTokens
import LexLR.Proofs.JsonDocs
import LexLR.Proofs.Classified
import LexLR.Proofs.StoredAutomaton
import LexLR.Proofs.SubsetBounds
import LexLR.Proofs.SyntaxErrors
import LexLR.Proofs.TableChecks
import LexLR.Proofs.TableLoading
import LexLR.Proofs.Skips
import LexLR.Proofs.SourceWords
import LexLR.Proofs.StrayMarks
import LexLR.Proofs.RuleFileLines
import LexLR.Proofs.RuleFileRead
import LexLR.Proofs.Lookups
import LexLR.Proofs.ForkScan
import LexLR.Proofs.Batch
