import Mathlib
import LexLR.Proofs.Termination
/-!
# Where a syntax error is reported

A step fails with a syntax error when no action fits the symbol it looks up: the token under the
cursor has no terminal, the state on top has no action for that terminal, or none for the
nonterminal a reduction left pending. The error gives the line of the token under the cursor (of
the last token once every token is read, and 1 without tokens) and the words up to and including
it (`SymbolTable.Locates`).

A step reads the tokens only at the cursor, and the records only once it fails. A run that stops
on a syntax error therefore takes the same steps, and stops with the same error, on any tokens
and records that agree with the given ones up to the token under the cursor where it stops
(`runFrom_eq_unexpected`): nothing after that token decides the outcome. Main statement:
`analyse_unexpected_at`.
-/

namespace LexLR

/-- Two lists with the same first `n` entries agree at every position below `n`. -/
theorem getElem?_eq_of_take_eq {α : Type} {l l' : List α} {n i : Nat} (h : l'.take n = l.take n)
    (hi : i < n) : l'[i]? = l[i]? := by
  rw [← List.getElem?_take_of_lt hi, h, List.getElem?_take_of_lt hi]

namespace SymbolTable

/-- What a syntax error at cursor `k` reports, read off the records: the words of the records up
to and including the one under the cursor, joined by single spaces; the line of that record, of
the last record when the cursor is past the end, and 1 when there are no records. -/
structure Locates (symbols : SymbolTable) (k line : Nat) (consumed : String) : Prop where
  consumed_eq : consumed = " ".intercalate
    ((symbols.records.take (min (k + 1) symbols.size)).map SymbolRecord.literal)
  line_of_lt : k < symbols.size → symbols.records[k]?.map SymbolRecord.line = some line
  line_of_end : k = symbols.size → 0 < symbols.size →
    symbols.records.getLast?.map SymbolRecord.line = some line
  line_of_empty : symbols.size = 0 → line = 1

end SymbolTable

namespace LR

namespace Analyser

/-- The syntax error at a cursor is located by the records. -/
theorem locates_syntaxError {symbols : SymbolTable} {k line : Nat} {consumed : String}
    (h : syntaxError symbols k = .unexpected line consumed) : symbols.Locates k line consumed := by
  simp only [syntaxError, AnalyseError.unexpected.injEq] at h
  obtain ⟨hline, hconsumed⟩ := h
  refine ⟨?_, fun hk => ?_, fun hk hpos => ?_, fun hempty => ?_⟩
  · rw [← hconsumed, SymbolTable.size, ← List.take_eq_take_min]
  · rw [List.getElem?_eq_getElem hk] at hline ⊢
    simp [hline]
  · -- past the end the record under the cursor is missing, and the last one gives the line
    rw [List.getElem?_eq_none (by simp [hk, SymbolTable.size])] at hline
    obtain ⟨r, hr⟩ :=
      Option.isSome_iff_exists.1 (List.getLast?_isSome.2 (List.ne_nil_of_length_pos hpos))
    simp [hr] at hline ⊢
    exact hline
  · rw [SymbolTable.size, List.length_eq_zero_iff] at hempty
    simp [hempty] at hline
    exact hline.symm

/-- Two record tables that agree up to a record that exists give the same syntax error there. -/
theorem syntaxError_congr {symbols symbols' : SymbolTable} {k : Nat} (hk : k < symbols.size)
    (h : symbols'.records.take (k + 1) = symbols.records.take (k + 1)) :
    syntaxError symbols' k = syntaxError symbols k := by
  have hr : symbols.records[k]? = some symbols.records[k] := List.getElem?_eq_getElem hk
  have hr' := (getElem?_eq_of_take_eq h (Nat.lt_succ_self k)).trans hr
  simp only [syntaxError, hr, hr', h]

variable {a : Analyser} {tokens tokens' : List TokenKind} {symbols symbols' : SymbolTable}
  {c c' : Config}

/-- What a step can do decides what it does: `Effect` characterises `step`. -/
theorem Effect.step_eq {r : Step} (he : a.Effect tokens symbols c r) :
    a.step tokens symbols c = r := by
  cases he with
  | noState hne =>
    unfold step
    split
    next q rest hstack => exact absurd hstack (hne q rest)
    next => rfl
  | unexpected hstack hno =>
    unfold step
    rw [hstack]
    dsimp only
    split
    next => rfl
    next x hl =>
      obtain ⟨e, he⟩ := hno x hl
      rw [he]
  | shift hstack hl hact hx => simp [step, hstack, hl, hact, hx]
  | shiftEnd hstack hl hact => simp [step, hstack, hl, hact]
  | reduce hstack hl hact hprod hlt =>
    rw [hstack, List.length_cons] at hlt
    simp [step, hstack, hl, hact, hprod]
    omega
  | noProduction hstack hl hact hprod => simp [step, hstack, hl, hact, hprod]
  | overPop hstack hl hact hprod hle =>
    rw [hstack, List.length_cons] at hle
    simp [step, hstack, hl, hact, hprod]
    omega
  | goto hstack hp hact => simp [step, hstack, lookahead?_of_pending hp, hact, hp]
  | gotoWithout hstack hp hl hact => simp [step, hstack, hl, hact, hp]
  | accept hstack hl hact hcur hp => simp [step, hstack, hl, hact, hcur, hp]
  | acceptEarly hstack hl hact hearly =>
    simp only [step, hstack, hl, hact]
    rw [if_pos (by simpa using hearly)]

/-- The symbol a configuration looks up depends on the tokens only at the cursor. -/
theorem lookahead?_congr (h : tokens'[c.cursor]? = tokens[c.cursor]?) :
    a.lookahead? tokens' c = a.lookahead? tokens c := by
  simp only [lookahead?, h]

/-- A step that goes on does the same on any tokens that agree at the cursor, with any
records. -/
theorem step_congr_of_next (h : tokens'[c.cursor]? = tokens[c.cursor]?)
    (hs : a.step tokens symbols c = .next c') : a.step tokens' symbols' c = .next c' := by
  have he := step_effect a tokens symbols c
  rw [hs] at he
  have hl := lookahead?_congr (a := a) h
  cases he with
  | shift hstack hx hact hne => exact (Effect.shift hstack (hl.trans hx) hact hne).step_eq
  | reduce hstack hx hact hprod hlt =>
    exact (Effect.reduce hstack (hl.trans hx) hact hprod hlt).step_eq
  | goto hstack hp hact => exact (Effect.goto hstack hp hact).step_eq

/-- A step fails with a syntax error only as the one at its cursor, when a state is on top and no
action fits the symbol it looks up. -/
theorem step_eq_unexpected {l : Nat} {m : String}
    (hs : a.step tokens symbols c = .failed (.unexpected l m)) :
    syntaxError symbols c.cursor = .unexpected l m ∧ ∃ q rest, c.stack = .state q :: rest ∧
      ∀ x, a.lookahead? tokens c = some x → ∃ e, a.table.action q x = .error e := by
  have he := step_effect a tokens symbols c
  generalize a.step tokens symbols c = r at he hs
  -- every other failure is an invariant error, and the other outcomes are no failures
  cases he
  case unexpected q rest hstack hno => exact ⟨Step.failed.inj hs, q, rest, hstack, hno⟩
  all_goals cases hs

/-- A step that fails with a syntax error fails on any tokens that agree at the cursor, with the
syntax error the records there give. -/
theorem step_congr_of_unexpected {l : Nat} {m : String}
    (h : tokens'[c.cursor]? = tokens[c.cursor]?)
    (hs : a.step tokens symbols c = .failed (.unexpected l m)) :
    a.step tokens' symbols' c = .failed (syntaxError symbols' c.cursor) := by
  obtain ⟨-, q, rest, hstack, hno⟩ := step_eq_unexpected hs
  refine (Effect.unexpected hstack fun x hx => ?_).step_eq
  exact hno x ((lookahead?_congr h).symm.trans hx)

/-- A run that stops on a syntax error stops at a configuration `d` it reaches. On any tokens that
agree with the given ones up to the cursor of `d`, with any records, the run takes the same steps
and stops at `d` with the syntax error those records give. -/
theorem runFrom_eq_unexpected {fuel l : Nat} {m : String} (hc : a.Reaches tokens symbols c)
    (h : a.runFrom tokens symbols fuel c = .error (.unexpected l m)) :
    ∃ d, a.Reaches tokens symbols d ∧ c.cursor ≤ d.cursor ∧
      a.step tokens symbols d = .failed (.unexpected l m) ∧
      ∀ (tokens' : List TokenKind) (symbols' : SymbolTable),
        tokens'.take (d.cursor + 1) = tokens.take (d.cursor + 1) →
        a.runFrom tokens' symbols' fuel c = .error (syntaxError symbols' d.cursor) := by
  induction fuel generalizing c with
  | zero => cases h
  | succ fuel ih =>
    cases hstep : a.step tokens symbols c with
    | next c'' =>
      rw [runFrom_succ_of_next hstep] at h
      obtain ⟨d, hd, hle, hfail, hrun⟩ := ih (hc.step hstep) h
      have hcur : c.cursor ≤ c''.cursor := by rcases cursor_step hstep with h | h <;> omega
      refine ⟨d, hd, hcur.trans hle, hfail, fun tokens' symbols' htake => ?_⟩
      -- the cursor of `c` is at most that of `d`, so the tokens agree there
      have hat := getElem?_eq_of_take_eq htake (Nat.lt_succ_of_le (hcur.trans hle))
      rw [runFrom_succ_of_next (step_congr_of_next hat hstep)]
      exact hrun tokens' symbols' htake
    | accepted r => simp [runFrom, hstep] at h
    | failed e =>
      simp only [runFrom, hstep, Except.error.injEq] at h
      subst h
      refine ⟨c, hc, le_rfl, hstep, fun tokens' symbols' htake => ?_⟩
      have hat := getElem?_eq_of_take_eq htake (Nat.lt_succ_self c.cursor)
      simp only [runFrom, step_congr_of_unexpected hat hstep]

/-- Analysis reports a syntax error exactly when the tokens and records are equally long and the
run from the start stops on it. -/
theorem analyse_eq_unexpected_iff {l : Nat} {m : String} :
    a.analyse tokens symbols = .error (.unexpected l m) ↔
      tokens.length = symbols.size ∧
        a.runFrom tokens symbols stepBudget start = .error (.unexpected l m) := by
  unfold analyse analyseWithin
  by_cases hlen : tokens.length = symbols.size
  · rw [if_neg (not_not.2 hlen)]
    constructor
    · intro h
      split at h
      · cases h
      · exact ⟨hlen, by assumption⟩
    · rintro ⟨-, h⟩
      rw [h]
  · simp [hlen]

end Analyser

/-- A syntax error that analysis reports on a loaded table comes from a configuration `c` the run
reaches, whose cursor is at most the number of records. The error is the one the records locate at
that cursor. When the cursor is on a token, the outcome is decided by the tokens and records up to
it: any tokens and records of equal length that agree with the given ones up to that position
make analysis report the same error. -/
theorem analyse_unexpected_at {d : TableDocument} {t : Table} {o : Options} {a : Analyser}
    {tokens : List TokenKind} {symbols : SymbolTable} {line : Nat} {consumed : String}
    (ht : Table.ofDocument d = .ok t) (ha : Analyser.new t o = .ok a)
    (h : a.analyse tokens symbols = .error (.unexpected line consumed)) :
    ∃ c, a.Reaches tokens symbols c ∧
      a.step tokens symbols c = .failed (.unexpected line consumed) ∧ c.cursor ≤ symbols.size ∧
      symbols.Locates c.cursor line consumed ∧
      (c.cursor < tokens.length → ∀ (tokens' : List TokenKind) (symbols' : SymbolTable),
        tokens'.length = symbols'.size →
        tokens'.take (c.cursor + 1) = tokens.take (c.cursor + 1) →
        symbols'.records.take (c.cursor + 1) = symbols.records.take (c.cursor + 1) →
        a.analyse tokens' symbols' = .error (.unexpected line consumed)) := by
  have hr : a.Ready := Analyser.ready_new (Table.ofDocument_wellFormed ht) ha
  obtain ⟨hlen, hrun⟩ := Analyser.analyse_eq_unexpected_iff.1 h
  obtain ⟨c, hc, -, hstep, htransfer⟩ := Analyser.runFrom_eq_unexpected .start hrun
  have herr := (Analyser.step_eq_unexpected hstep).1
  have hle : c.cursor ≤ symbols.size := hlen ▸ (hc.sound hr).cursor_le
  refine ⟨c, hc, hstep, hle, Analyser.locates_syntaxError herr,
    fun hlt tokens' symbols' hlen' htok hrec => Analyser.analyse_eq_unexpected_iff.2 ⟨hlen', ?_⟩⟩
  -- the other run stops where this one does, and its records locate the same error there
  rw [← herr, ← Analyser.syntaxError_congr (hlen ▸ hlt) hrec]
  exact htransfer tokens' symbols' htok

/-- The records of `+`, on line 1. -/
def plusSymbols : SymbolTable :=
  { records := [⟨"+", 1, .keyword "+"⟩] }

theorem expressions_unexpected_at :
    Table.ofDocument expressionsDocument = .ok expressionsTable ∧
    Analyser.new expressionsTable {} = .ok expressionsAnalyser ∧
    expressionsAnalyser.analyse [.keyword "+"] plusSymbols = .error (.unexpected 1 "+") ∧
    ∃ c, expressionsAnalyser.Reaches [.keyword "+"] plusSymbols c ∧
      expressionsAnalyser.step [.keyword "+"] plusSymbols c = .failed (.unexpected 1 "+") ∧
      c.cursor ≤ plusSymbols.size ∧ plusSymbols.Locates c.cursor 1 "+" ∧
      (c.cursor < [TokenKind.keyword "+"].length →
        ∀ (tokens' : List TokenKind) (symbols' : SymbolTable), tokens'.length = symbols'.size →
        tokens'.take (c.cursor + 1) = [TokenKind.keyword "+"].take (c.cursor + 1) →
        symbols'.records.take (c.cursor + 1) = plusSymbols.records.take (c.cursor + 1) →
        expressionsAnalyser.analyse tokens' symbols' = .error (.unexpected 1 "+")) := by
  have ht : Table.ofDocument expressionsDocument = .ok expressionsTable := by cbv
  have ha : Analyser.new expressionsTable {} = .ok expressionsAnalyser := by cbv
  have h : expressionsAnalyser.analyse [.keyword "+"] plusSymbols = .error (.unexpected 1 "+") := by
    cbv
  exact ⟨ht, ha, h, analyse_unexpected_at ht ha h⟩

end LR

end LexLR
