import Mathlib
import LexLR.Spec.Parse
/-!
# The lines of a rule file

Reading a rule file sorts its lines, cuts each grammar line at the rule separator and at `|`, and
reads each alternative. This module says what these steps accept without running them. A state
name is non-empty and made of alphanumeric characters and underscores. An alternative means a
production (`AltMeans`): `epsi` or `ε` accept, a single character other than `<` and `>` is a
literal, and such a character followed by `<name>`, for the name of a head state, is a transition.
A grammar line, once its blanks are deleted, has the form `<name>::=alt|…|alt` with a meaning for
every alternative (`GrammarForm`), and a rule file is well written when all its grammar lines have
that form and its other non-blank lines are single words (`WellWritten`).

The scan that sorts the lines accepts exactly the files whose reserved-word lines are single words
(`entries_eq_ok_iff`), and gives the grammar lines and the reserved words in file order.
-/

namespace LexLR.RuleFile

open Text

/-! ## State names and the rule separator -/

/-- A state name: non-empty, of alphanumeric characters and underscores. -/
def IsStateName (name : List Char) : Prop :=
  name ≠ [] ∧ ∀ c ∈ name, isAlnum c = true ∨ c = '_'

/-- No state name holds a character that is neither alphanumeric nor an underscore. -/
theorem IsStateName.not_mem {name : List Char} (h : IsStateName name) {c : Char}
    (hc : isAlnum c = false) (hu : c ≠ '_') : c ∉ name := fun hm => by
  rcases h.2 c hm with h' | h'
  · rw [hc] at h'
    cases h'
  · exact hu h'

theorem stateName?_eq_some_iff {text : List Char} {name : String} :
    stateName? text = some name ↔
      ∃ n, text = '<' :: (n ++ ['>']) ∧ IsStateName n ∧ name = String.ofList n := by
  constructor
  · intro h
    unfold stateName? at h
    split at h
    · rename_i rest
      split at h
      · rename_i inner hinner
        have hrest : rest = inner.reverse ++ ['>'] := by
          rw [← List.reverse_reverse rest, hinner, List.reverse_cons]
        dsimp only at h
        split at h
        · rename_i hvalid
          simp only [Option.some.injEq] at h
          simp only [Bool.and_eq_true, Bool.not_eq_true', List.isEmpty_eq_false_iff,
            List.all_eq_true, Bool.or_eq_true, decide_eq_true_eq] at hvalid
          exact ⟨inner.reverse, by rw [hrest], hvalid, h.symm⟩
        · cases h
      · cases h
    · cases h
  · rintro ⟨n, rfl, ⟨hne, hall⟩, rfl⟩
    have hvalid : (!n.isEmpty && n.all fun c => isAlnum c || decide (c = '_')) = true := by
      simpa [List.isEmpty_eq_false_iff, hne] using hall
    simp [stateName?, hvalid]

/-- Splitting at a separator cuts the text around its first occurrence. -/
theorem splitOnce_eq_some {sep l a b : List Char} (h : splitOnce sep l = some (a, b)) :
    l = a ++ (sep ++ b) := by
  induction l generalizing a with
  | nil =>
    unfold splitOnce at h
    split at h
    · rename_i hsep
      simp only [Option.some.injEq, Prod.mk.injEq] at h
      obtain ⟨rfl, rfl⟩ := h
      simp [List.isEmpty_iff.1 hsep]
    · cases h
  | cons c cs ih =>
    unfold splitOnce at h
    split at h
    · rename_i hpre
      simp only [Option.some.injEq, Prod.mk.injEq] at h
      obtain ⟨rfl, rfl⟩ := h
      obtain ⟨t, ht⟩ := List.isPrefixOf_iff_prefix.1 hpre
      rw [← ht, List.drop_left, List.nil_append]
    · obtain ⟨⟨a', b'⟩, h', hab⟩ := Option.map_eq_some_iff.1 h
      simp only [Prod.mk.injEq] at hab
      obtain ⟨rfl, rfl⟩ := hab
      rw [ih h', List.cons_append]

/-- Splitting at a separator succeeds exactly on a text that holds it. -/
theorem splitOnce_isSome_iff {sep l : List Char} : (splitOnce sep l).isSome ↔ sep <:+: l := by
  induction l with
  | nil =>
    unfold splitOnce
    split
    · rename_i hsep
      simp [List.isEmpty_iff.1 hsep]
    · rename_i hsep
      simp only [Option.isSome_none, Bool.false_eq_true, false_iff, List.infix_nil]
      exact fun h => hsep (List.isEmpty_iff.2 h)
  | cons c cs ih =>
    unfold splitOnce
    rw [List.infix_cons_iff]
    split
    · rename_i hpre
      exact ⟨fun _ => .inl (List.isPrefixOf_iff_prefix.1 hpre), fun _ => rfl⟩
    · rename_i hpre
      rw [Option.isSome_map, ih]
      exact ⟨.inr, fun h => h.resolve_left fun h' => hpre (List.isPrefixOf_iff_prefix.2 h')⟩

/-- A separator whose first character does not occur before it is found there. -/
theorem splitOnce_append {x : Char} {sep pre post : List Char} (hx : x ∉ pre) :
    splitOnce (x :: sep) (pre ++ x :: (sep ++ post)) = some (pre, post) := by
  induction pre with
  | nil =>
    have hpre : (x :: sep).isPrefixOf (x :: (sep ++ post)) = true :=
      List.isPrefixOf_iff_prefix.2 ⟨post, rfl⟩
    rw [List.nil_append, splitOnce.eq_2, if_pos hpre]
    simp
  | cons c pre ih =>
    have hc : c ≠ x := fun h => hx (h ▸ List.mem_cons_self)
    have hnot : ¬((x :: sep).isPrefixOf (c :: (pre ++ x :: (sep ++ post))) = true) := by
      simp [List.isPrefixOf, hc.symm]
    rw [List.cons_append, splitOnce.eq_2, if_neg hnot, ih fun h => hx (List.mem_cons_of_mem c h)]
    rfl

/-! ## Alternatives -/

/-- What an alternative means, read against the names of the head states: `epsi` and `ε` accept,
a single character other than `<`, `>` and `ε` is a literal, and such a character followed by
`<name>`, for the name of a head state, is a transition to that head's id. -/
inductive AltMeans (heads : List (List Char)) : List Char → Production → Prop
  | epsi : AltMeans heads "epsi".toList .epsilon
  | epsilonSign : AltMeans heads ['ε'] .epsilon
  | literal {c : Char} : c ≠ '<' → c ≠ '>' → c ≠ 'ε' → AltMeans heads [c] (.literal c)
  | transition {c : Char} {name : List Char} : c ≠ '<' → c ≠ '>' → IsStateName name →
      name ∈ heads → AltMeans heads (c :: '<' :: (name ++ ['>'])) (.transition c (heads.idxOf name))

/-- The builder names exactly the states of `heads`, each by its position. -/
def NamesHeads (b : Builder) (heads : List (List Char)) : Prop :=
  ∀ n, b.lookup (String.ofList n) = if n ∈ heads then some (heads.idxOf n) else none

/-- An alternative that reads, once every head state is named, reads to its meaning. -/
theorem altMeans_of_production {b : Builder} {heads : List (List Char)} (hb : NamesHeads b heads)
    {line : Nat} {alt : List Char} {p : Production} (h : production b line alt = .ok p) :
    AltMeans heads alt p := by
  unfold production at h
  split at h
  · rename_i heps
    cases h
    simp only [Bool.or_eq_true, decide_eq_true_eq] at heps
    rcases heps with rfl | rfl
    · exact .epsi
    · exact .epsilonSign
  · rename_i heps
    split at h
    · cases h
    · rename_i c rest
      split at h
      · cases h
      · rename_i hc
        simp only [Bool.or_eq_true, decide_eq_true_eq, not_or] at hc
        split at h
        · rename_i hrest
          cases h
          obtain rfl := List.isEmpty_iff.1 hrest
          have hε : c ≠ 'ε' := by
            rintro rfl
            simp at heps
          exact .literal hc.1 hc.2 hε
        · -- a longer alternative names the target state after its symbol
          split at h
          · cases h
          · rename_i name hname
            obtain ⟨n, rfl, hn, rfl⟩ := stateName?_eq_some_iff.1 hname
            split at h
            · rename_i q hq
              cases h
              rw [hb n] at hq
              split at hq
              · rename_i hmem
                cases hq
                exact .transition hc.1 hc.2 hn hmem
              · cases hq
            · cases h

/-- An alternative with a meaning reads to it, once every head state is named. -/
theorem production_of_altMeans {b : Builder} {heads : List (List Char)} (hb : NamesHeads b heads)
    {line : Nat} {alt : List Char} {p : Production} (h : AltMeans heads alt p) :
    production b line alt = .ok p := by
  cases h with
  | epsi => simp [production]
  | epsilonSign => simp [production]
  | literal h₁ h₂ h₃ => simp [production, h₁, h₂, h₃]
  | @transition c name h₁ h₂ hn hmem =>
    have hs : stateName? ('<' :: (name ++ ['>'])) = some (String.ofList name) :=
      stateName?_eq_some_iff.2 ⟨name, rfl, hn, rfl⟩
    simp [production, h₁, h₂, hs, hb name, hmem]

/-- Reading an alternative, once every head state is named, gives exactly its meaning. -/
theorem production_eq_ok_iff {b : Builder} {heads : List (List Char)} (hb : NamesHeads b heads)
    {line : Nat} {alt : List Char} {p : Production} :
    production b line alt = .ok p ↔ AltMeans heads alt p :=
  ⟨altMeans_of_production hb, production_of_altMeans hb⟩

/-! ## Sorting the lines -/

/-- A line with every blank deleted. -/
def withoutBlanks (line : List Char) : List Char :=
  line.filter fun c => !isBlank c

/-- The trimmed non-blank lines of a rule file, in file order. -/
def filledLines (text : String) : List (List Char) :=
  ((lines text.toList).map trimBlank).filter (· ≠ [])

/-- The grammar lines of a rule file, those that hold the rule separator, with their blanks
deleted. -/
def grammarLines (text : String) : List (List Char) :=
  ((filledLines text).filter (ruleSeparator <:+: ·)).map withoutBlanks

/-- The other non-blank lines of a rule file, trimmed: its reserved words, when each is one
word. -/
def wordLines (text : String) : List (List Char) :=
  (filledLines text).filter fun t => ¬ ruleSeparator <:+: t

/-- The grammar line an entry is, with its number. -/
def Entry.grammar? : Entry → Option (Nat × List Char)
  | .grammar line compact => some (line, compact)
  | .word _ => none

/-- The reserved word an entry is. -/
def Entry.word? : Entry → Option String
  | .grammar _ _ => none
  | .word w => some w

/-- One step of sorting the lines: the entry of a numbered line, put before those of the lines
after it. -/
def classifyLine (e : List Char × Nat) (rest : Except SpecError (List Entry)) :
    Except SpecError (List Entry) := do
  let trimmed := trimBlank e.1
  if trimmed.isEmpty then rest
  else if (splitOnce ruleSeparator trimmed).isSome then
    return .grammar e.2 (trimmed.filter fun c => !isBlank c) :: (← rest)
  else if trimmed.any isBlank then
    throw (.malformed e.2
      s!"`{String.ofList trimmed}` is neither a grammar rule nor a single reserved word")
  else
    return .word (String.ofList trimmed) :: (← rest)

theorem entries_eq_foldr (text : String) :
    entries text = ((lines text.toList).zipIdx 1).foldr classifyLine (.ok []) :=
  rfl

/-- The entry a numbered line gives, if it is not blank. -/
def lineEntry (e : List Char × Nat) : Option Entry :=
  if trimBlank e.1 = [] then none
  else if ruleSeparator <:+: trimBlank e.1 then some (.grammar e.2 (withoutBlanks (trimBlank e.1)))
  else some (.word (String.ofList (trimBlank e.1)))

/-- A line without the rule separator is kept when it is one word. -/
def LineKept (e : List Char × Nat) : Prop :=
  ¬ ruleSeparator <:+: trimBlank e.1 → ∀ c ∈ trimBlank e.1, isBlank c = false

/-- Sorting a line succeeds when the lines after it were sorted and it is kept, and then puts its
entry first. -/
theorem classifyLine_eq_ok_iff (e : List Char × Nat) (rest : Except SpecError (List Entry))
    (es : List Entry) :
    classifyLine e rest = .ok es ↔ LineKept e ∧ ∃ r, rest = .ok r ∧ es = (lineEntry e).toList ++ r := by
  unfold classifyLine lineEntry LineKept
  simp only [List.isEmpty_iff, splitOnce_isSome_iff]
  by_cases hnil : trimBlank e.1 = []
  · cases rest with
    | error => simp [hnil]
    | ok r => simpa [hnil] using eq_comm
  · by_cases hsep : ruleSeparator <:+: trimBlank e.1
    · cases rest with
      | error => simp [hnil, hsep]
      | ok r => simpa [hnil, hsep, withoutBlanks] using eq_comm
    · by_cases hblank : (trimBlank e.1).any isBlank = true
      · obtain ⟨c, hc, hb⟩ := List.any_eq_true.1 hblank
        have hnot : ¬ ∀ c ∈ trimBlank e.1, isBlank c = false := fun h => by
          rw [h c hc] at hb
          cases hb
        simp [hnil, hsep, hblank, hnot]
      · have hall : ∀ c ∈ trimBlank e.1, isBlank c = false := by
          simpa using hblank
        cases rest with
        | error => simp [hnil, hsep, hblank]
        | ok r =>
          simp only [hnil, hsep, hblank, if_false, Bool.false_eq_true, not_false_eq_true,
            forall_const, Option.toList_some, List.singleton_append, bind, Except.bind, pure,
            Except.pure, Except.ok.injEq]
          constructor
          · rintro rfl
            exact ⟨hall, r, rfl, rfl⟩
          · rintro ⟨-, r, rfl, rfl⟩
            rfl

/-- Sorting numbered lines succeeds exactly when every line is kept, and gives their entries in
order. -/
theorem foldr_classifyLine_eq_ok_iff (ps : List (List Char × Nat)) (es : List Entry) :
    ps.foldr classifyLine (.ok []) = .ok es ↔
      (∀ e ∈ ps, LineKept e) ∧ es = ps.filterMap lineEntry := by
  induction ps generalizing es with
  | nil => simp [eq_comm]
  | cons e ps ih =>
    rw [List.foldr_cons, classifyLine_eq_ok_iff]
    simp only [ih, List.forall_mem_cons, List.filterMap_cons]
    constructor
    · rintro ⟨he, r, ⟨hps, rfl⟩, rfl⟩
      exact ⟨⟨he, hps⟩, by cases lineEntry e <;> rfl⟩
    · rintro ⟨⟨he, hps⟩, rfl⟩
      exact ⟨he, _, ⟨hps, rfl⟩, by cases lineEntry e <;> rfl⟩

theorem lineEntry_of_eq_nil {e : List Char × Nat} (h : trimBlank e.1 = []) : lineEntry e = none := by
  rw [lineEntry, if_pos h]

theorem lineEntry_of_separator {e : List Char × Nat} (hne : trimBlank e.1 ≠ [])
    (hs : ruleSeparator <:+: trimBlank e.1) :
    lineEntry e = some (.grammar e.2 (withoutBlanks (trimBlank e.1))) := by
  rw [lineEntry, if_neg hne, if_pos hs]

theorem lineEntry_of_word {e : List Char × Nat} (hne : trimBlank e.1 ≠ [])
    (hs : ¬ ruleSeparator <:+: trimBlank e.1) :
    lineEntry e = some (.word (String.ofList (trimBlank e.1))) := by
  rw [lineEntry, if_neg hne, if_neg hs]

/-- The grammar lines among the entries of numbered lines, blanks deleted. -/
theorem grammar_filterMap_lineEntry (ps : List (List Char × Nat)) :
    ((ps.filterMap lineEntry).filterMap Entry.grammar?).map Prod.snd =
      (((ps.map fun e => trimBlank e.1).filter (· ≠ [])).filter (ruleSeparator <:+: ·)).map
        withoutBlanks := by
  induction ps with
  | nil => rfl
  | cons e ps ih =>
    rw [List.map_cons]
    by_cases hnil : trimBlank e.1 = []
    · rw [List.filterMap_cons_none (lineEntry_of_eq_nil hnil), ih,
        List.filter_cons_of_neg (p := fun t => decide (t ≠ [])) (by simpa using hnil)]
    · rw [List.filter_cons_of_pos (p := fun t => decide (t ≠ [])) (by simpa using hnil)]
      by_cases hsep : ruleSeparator <:+: trimBlank e.1
      · rw [List.filterMap_cons_some (lineEntry_of_separator hnil hsep),
          List.filterMap_cons_some (f := Entry.grammar?) rfl, List.map_cons, ih,
          List.filter_cons_of_pos (p := fun t => decide (ruleSeparator <:+: t)) (by simpa using hsep),
          List.map_cons]
      · rw [List.filterMap_cons_some (lineEntry_of_word hnil hsep),
          List.filterMap_cons_none (f := Entry.grammar?) rfl, ih,
          List.filter_cons_of_neg (p := fun t => decide (ruleSeparator <:+: t)) (by simpa using hsep)]

/-- The reserved words among the entries of numbered lines. -/
theorem word_filterMap_lineEntry (ps : List (List Char × Nat)) :
    (ps.filterMap lineEntry).filterMap Entry.word? =
      (((ps.map fun e => trimBlank e.1).filter (· ≠ [])).filter
        fun t => ¬ ruleSeparator <:+: t).map String.ofList := by
  induction ps with
  | nil => rfl
  | cons e ps ih =>
    rw [List.map_cons]
    by_cases hnil : trimBlank e.1 = []
    · rw [List.filterMap_cons_none (lineEntry_of_eq_nil hnil), ih,
        List.filter_cons_of_neg (p := fun t => decide (t ≠ [])) (by simpa using hnil)]
    · rw [List.filter_cons_of_pos (p := fun t => decide (t ≠ [])) (by simpa using hnil)]
      by_cases hsep : ruleSeparator <:+: trimBlank e.1
      · rw [List.filterMap_cons_some (lineEntry_of_separator hnil hsep),
          List.filterMap_cons_none (f := Entry.word?) rfl, ih,
          List.filter_cons_of_neg (p := fun t => decide ¬ ruleSeparator <:+: t) (by simpa using hsep)]
      · rw [List.filterMap_cons_some (lineEntry_of_word hnil hsep),
          List.filterMap_cons_some (f := Entry.word?) rfl, ih,
          List.filter_cons_of_pos (p := fun t => decide ¬ ruleSeparator <:+: t) (by simpa using hsep),
          List.map_cons]

theorem map_trimBlank_zipIdx (l : List (List Char)) :
    (l.zipIdx 1).map (fun e => trimBlank e.1) = l.map trimBlank := by
  rw [← List.zipIdx_map_fst 1 l, List.map_map, List.zipIdx_map_fst]
  rfl

/-- Sorting the lines of a rule file succeeds exactly when its reserved-word lines are single
words. -/
theorem entries_eq_ok_iff (text : String) :
    (∃ es, entries text = .ok es) ↔ ∀ w ∈ wordLines text, ∀ c ∈ w, isBlank c = false := by
  have hkept : (∀ e ∈ (lines text.toList).zipIdx 1, LineKept e) ↔
      ∀ t ∈ (lines text.toList).map trimBlank, ¬ ruleSeparator <:+: t → ∀ c ∈ t, isBlank c = false := by
    rw [← map_trimBlank_zipIdx, List.forall_mem_map]
    rfl
  simp only [entries_eq_foldr, foldr_classifyLine_eq_ok_iff, exists_eq_right, hkept]
  simp only [wordLines, filledLines, List.mem_filter, decide_eq_true_eq, and_imp]
  constructor
  · intro h w hw _ hsep
    exact h w hw hsep
  · intro h t ht hsep c hc
    exact h t ht (List.ne_nil_of_mem hc) hsep c hc

/-- Once sorted, the grammar lines and the reserved words of a rule file are those of its text, in
file order. -/
theorem entries_eq_ok {text : String} {es : List Entry} (h : entries text = .ok es) :
    (es.filterMap Entry.grammar?).map Prod.snd = grammarLines text ∧
      es.filterMap Entry.word? = (wordLines text).map String.ofList := by
  rw [entries_eq_foldr, foldr_classifyLine_eq_ok_iff] at h
  obtain ⟨-, rfl⟩ := h
  rw [grammar_filterMap_lineEntry, word_filterMap_lineEntry, map_trimBlank_zipIdx]
  exact ⟨rfl, rfl⟩

/-! ## Well-written rule files -/

/-- The name a grammar line gives its head state, blanks deleted: what follows its first
character up to the next `>`. -/
def headName (compact : List Char) : List Char :=
  (compact.drop 1).takeWhile (· ≠ '>')

/-- The names of the head states of a rule file, in order of first appearance. -/
def headNames (text : String) : List (List Char) :=
  ((grammarLines text).map headName).eraseDups

/-- A grammar line, blanks deleted, of the form `<name>::=alt|…|alt` where each alternative means
a production. -/
def GrammarForm (heads : List (List Char)) (compact : List Char) : Prop :=
  ∃ name body, compact = '<' :: (name ++ '>' :: (ruleSeparator ++ body)) ∧ IsStateName name ∧
    ∀ alt ∈ body.splitOn '|', ∃ p, AltMeans heads alt p

/-- A rule file whose grammar lines all have the grammar form, read against the names of its
head states, and whose other non-blank lines are single words. -/
def WellWritten (text : String) : Prop :=
  (∀ compact ∈ grammarLines text, GrammarForm (headNames text) compact) ∧
    ∀ w ∈ wordLines text, ∀ c ∈ w, isBlank c = false

theorem headName_eq {compact name rest : List Char} (h : compact = '<' :: (name ++ '>' :: rest))
    (hn : IsStateName name) : headName compact = name := by
  have hne : ∀ c ∈ name, decide (c ≠ '>') = true := fun c hc => by
    have : '>' ∉ name := hn.not_mem (by decide) (by decide)
    rw [decide_eq_true_eq]
    rintro rfl
    exact this hc
  subst h
  rw [headName, List.drop_one, List.tail_cons, List.takeWhile_append_of_pos hne]
  simp

/-- The head of a grammar line is what stands before its first rule separator; it names a state
exactly when the line starts with `<name>` and the separator follows. -/
theorem splitOnce_stateName?_eq_some_iff {compact head body : List Char} {name : String} :
    splitOnce ruleSeparator compact = some (head, body) ∧ stateName? head = some name ↔
      ∃ n, compact = '<' :: (n ++ '>' :: (ruleSeparator ++ body)) ∧ IsStateName n ∧
        head = '<' :: (n ++ ['>']) ∧ name = String.ofList n := by
  constructor
  · rintro ⟨hsplit, hname⟩
    obtain ⟨n, rfl, hn, rfl⟩ := stateName?_eq_some_iff.1 hname
    refine ⟨n, ?_, hn, rfl, rfl⟩
    rw [splitOnce_eq_some hsplit]
    simp
  · rintro ⟨n, rfl, hn, rfl, rfl⟩
    -- no colon stands before the separator, so it is found right after the head
    have hcolon : ':' ∉ '<' :: (n ++ ['>']) := by
      simpa using hn.not_mem (by decide) (by decide)
    have hsplit : splitOnce [':', ':', '='] ('<' :: (n ++ ['>']) ++ ':' :: ([':', '='] ++ body)) =
        some ('<' :: (n ++ ['>']), body) :=
      splitOnce_append hcolon
    refine ⟨?_, stateName?_eq_some_iff.2 ⟨n, rfl, hn, rfl⟩⟩
    rw [← hsplit]
    simp [ruleSeparator]

end LexLR.RuleFile
