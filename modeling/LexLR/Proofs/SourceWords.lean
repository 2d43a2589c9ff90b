import LexLR.Scan.Lexer
/-!
# The words of a source

Reading a source records each of its words with its line and kind. Here the lines and the words
are said by the standard splitters of lists: the lines are the pieces between line feeds, each
piece ended by a line feed losing one carriage return at its end and an empty last piece dropped;
the words of a line are the non-empty pieces between blank characters, after every tab is deleted.
The scans that reading uses give exactly these pieces (`lines_eq_splitLines`,
`words_eq_splitWords`).

Main statement: `read_eq_reference`. A read succeeds with the token column and the table of the
records when no record is an error, and otherwise fails at the first error record in source
order, naming its line and word.
-/

namespace LexLR

namespace Text

/-- A piece ended by a line feed, without one carriage return at its end. -/
def withoutReturn (piece : List Char) : List Char :=
  if piece.getLast? = some '\r' then piece.dropLast else piece

/-- The lines of a text by the standard splitter: the pieces between line feeds, each piece that
a line feed ends without one carriage return at its end, and no last piece when it is empty. -/
def splitLines (cs : List Char) : List (List Char) :=
  let pieces := cs.splitOn '\n'
  pieces.dropLast.map withoutReturn ++ (pieces.getLast?.filter (· ≠ [])).toList

/-- The words of a line by the standard splitter: the pieces between blank characters that are
not empty. -/
def splitWords (cs : List Char) : List (List Char) :=
  (cs.splitOnP isBlank).filter (· ≠ [])

theorem dropReturn_eq_withoutReturn (line : List Char) : dropReturn line = withoutReturn line := by
  unfold dropReturn withoutReturn
  -- both read the line from its end
  rcases List.eq_nil_or_concat line with rfl | ⟨l, c, rfl⟩
  · rfl
  · rw [List.concat_eq_append]
    by_cases hc : c = '\r'
    · subst hc
      simp
    · have hne : (l ++ [c]).getLast? ≠ some '\r' := by simpa using hc
      rw [if_neg hne, List.reverse_concat]
      split
      · rename_i rest h
        exact absurd (List.cons.inj h).1 hc
      · rfl

/-- The scan for words, from an open word, cuts where the splitter cuts and keeps the non-empty
pieces. -/
theorem wordsFrom_eq (cs word : List Char) :
    wordsFrom cs word = (cs.splitOnPPrepend isBlank word).filter (· ≠ []) := by
  induction cs generalizing word with
  | nil =>
    by_cases hw : word = []
    · subst hw
      rfl
    · simp [wordsFrom, hw]
  | cons c rest ih =>
    rw [wordsFrom, List.splitOnPPrepend_cons_eq_if]
    by_cases hc : isBlank c = true
    · by_cases hw : word = []
      · subst hw
        simp [hc, ih]
      · simp [hc, hw, ih]
    · simp [hc, ih]

theorem words_eq_splitWords (cs : List Char) : words cs = splitWords cs :=
  wordsFrom_eq cs []

/-- The scan for lines, from an open line, gives the splitter's pieces: each piece that a line
feed ends without its carriage return, and the last piece when it is not empty. -/
theorem linesFrom_eq (cs line : List Char) :
    linesFrom cs line =
      (cs.splitOnPPrepend (· == '\n') line).dropLast.map withoutReturn ++
        ((cs.splitOnPPrepend (· == '\n') line).getLast?.filter (· ≠ [])).toList := by
  induction cs generalizing line with
  | nil =>
    by_cases hl : line = []
    · subst hl
      rfl
    · simp [linesFrom, Option.filter, hl]
  | cons c rest ih =>
    rw [linesFrom, List.splitOnPPrepend_cons_eq_if]
    by_cases hc : c = '\n'
    · -- the piece ended here stands before the pieces of the rest, of which there is one at least
      have hne := List.splitOnP_ne_nil (· == '\n') rest
      simp only [hc, if_true, beq_self_eq_true, ih, List.splitOnPPrepend_nil_right,
        dropReturn_eq_withoutReturn]
      rw [List.dropLast_cons_of_ne_nil hne, List.getLast?_cons_of_ne_nil hne, List.map_cons,
        List.cons_append]
    · have hc' : (c == '\n') = false := beq_eq_false_iff_ne.2 hc
      simp only [hc, if_false, hc', Bool.false_eq_true, ih]

theorem lines_eq_splitLines (cs : List Char) : lines cs = splitLines cs :=
  linesFrom_eq cs []

example : splitLines "a\r\nb\n\nc\r".toList = ["a".toList, "b".toList, [], "c\r".toList] := by
  decide

end Text

namespace Automaton

/-- The records of a source by the reference reading: the source is cut into lines, numbered from
1 with blank lines counted, every tab is deleted from a line, the line is cut into words at blank
characters, and each word is recorded with its line and kind, in source order. -/
def sourceRecords (a : Automaton) (source : String) : List SymbolRecord :=
  ((Text.splitLines source.toList).zipIdx 1).flatMap fun e =>
    (Text.splitWords (e.1.filter (· ≠ '\t'))).map fun w =>
      { literal := String.ofList w, line := e.2, token := a.classify w }

theorem symbols_eq_sourceRecords (a : Automaton) (source : String) :
    (a.symbols source).records = a.sourceRecords source := by
  have htab : (fun c : Char => c != '\t') = fun c => decide (c ≠ '\t') := by
    funext c
    by_cases h : c = '\t' <;> simp [h]
  simp only [symbols, sourceRecords, lineRecords, Text.lines_eq_splitLines,
    Text.words_eq_splitWords, htab]

/-- Reading a source gives the reference records: it succeeds with their token column and the
table of them when none of them is an error, and fails at the first error record, naming its line
and word. -/
theorem read_eq_reference (a : Automaton) (source : String) :
    ((∀ r ∈ a.sourceRecords source, r.token ≠ .error) →
        a.read source =
          .ok ((a.sourceRecords source).map SymbolRecord.token, ⟨a.sourceRecords source⟩)) ∧
      ∀ pre r post, a.sourceRecords source = pre ++ r :: post → r.token = .error →
        (∀ x ∈ pre, x.token ≠ .error) → a.read source = .error (.unrecognized r.line r.literal) := by
  have hrec := symbols_eq_sourceRecords a source
  refine ⟨fun hok => ?_, fun pre r post hsplit herr hpre => ?_⟩
  · have hnone : (a.symbols source).firstError? = none := by
      rw [SymbolTable.firstError?, hrec, List.find?_eq_none]
      simpa using hok
    have htable : a.symbols source = ⟨a.sourceRecords source⟩ := by
      rw [← hrec]
    rw [read, hnone, htable]
    rfl
  · have hfirst : (a.symbols source).firstError? = some r := by
      rw [SymbolTable.firstError?, hrec, List.find?_eq_some_iff_append]
      exact ⟨by simpa using herr, pre, post, hsplit, by simpa using hpre⟩
    rw [read, hfirst]

end Automaton

end LexLR
