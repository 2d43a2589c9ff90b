import LexLR.Proofs.Table
/-!
# Compiled automata read as their specifications

A specification without forks is read by its table reading: a transition moves, a literal stays,
and a symbol without a production stops the reading. Compiling keeps the live states as rows.
The automaton then reads every word the way the table reading does, as long as the reading
stays among live states; a reading that leaves them never comes back, since a state that
reaches no terminal state only leads to such states, and the automaton is then in its error row.
-/

namespace LexLR

namespace RuleSpec

variable {s : RuleSpec}

theorem step?_eq_none_iff {q : Nat} {c : Char} :
    s.step? q c = none ↔ ∀ p ∈ (s.rule q).productions, p.symbol? ≠ some c := by
  simp only [step?, List.findSome?_eq_none_iff]
  refine forall₂_congr fun p _ => ?_
  cases p <;> simp [Production.symbol?]

/-- The table reading moves along a transition on the symbol or stays on a literal for it. -/
theorem step?_sound {q t : Nat} {c : Char} (h : s.step? q c = some t) :
    s.Moves q c t ∨ (s.HasLiteral q c ∧ t = q) := by
  obtain ⟨p, hp, hpt⟩ := List.exists_of_findSome?_eq_some h
  cases p with
  | transition d u =>
    simp only at hpt
    split at hpt
    · rename_i hd
      rw [Option.some.injEq] at hpt
      subst hd hpt
      exact .inl hp
    · cases hpt
  | literal d =>
    simp only at hpt
    split at hpt
    · rename_i hd
      rw [Option.some.injEq] at hpt
      subst hd hpt
      exact .inr ⟨hp, rfl⟩
    · cases hpt
  | epsilon => cases hpt

/-- Without forks the table reading takes the one transition on a symbol, or stays on the one
literal for it. -/
theorem step?_eq_some_iff (hs : s.WellFormed) (hf : s.forks = []) {q t : Nat} {c : Char} :
    s.step? q c = some t ↔ s.Moves q c t ∨ (s.HasLiteral q c ∧ t = q) := by
  refine ⟨step?_sound, fun h => ?_⟩
  cases hstep : s.step? q c with
  | none =>
    -- a production on `c` exists, so the reading does not stop
    have hnone := step?_eq_none_iff.1 hstep
    rcases h with hm | ⟨hl, -⟩
    · exact absurd rfl (hnone _ hm)
    · exact absurd rfl (hnone _ hl)
  | some u =>
    rcases step?_sound hstep with hm' | ⟨hl', rfl⟩ <;> rcases h with hm | ⟨hl, rfl⟩
    · rw [moves_unique hs hf hm' hm]
    · exact absurd hl (not_hasLiteral_of_moves hs hf hm')
    · exact absurd hl' (not_hasLiteral_of_moves hs hf hm)
    · rfl

/-- The table reading never leaves the states from which no terminal state can be reached. -/
theorem follow?_unproductive {q u : Nat} {w : List Char}
    (hq : ¬∃ v t, s.Path q v t ∧ s.isTerminal t = true) (hu : s.follow? q w = some u) :
    ¬∃ v t, s.Path u v t ∧ s.isTerminal t = true := by
  induction w generalizing q with
  | nil =>
    rw [follow?_nil, Option.some.injEq] at hu
    rwa [← hu]
  | cons c w ih =>
    obtain ⟨v, hv, hvu⟩ := Option.bind_eq_some_iff.1 hu
    refine ih ?_ hvu
    rcases step?_sound hv with hm | ⟨-, rfl⟩
    · rintro ⟨x, t, hx, ht⟩
      exact hq ⟨c :: x, t, .cons hm hx, ht⟩
    · exact hq

/-- A state the table reading reaches from a reachable state is reachable. -/
theorem reachable_of_step? {q u : Nat} {c : Char} (hq : ∃ v, s.Path 0 v q)
    (hu : s.step? q c = some u) : ∃ v, s.Path 0 v u := by
  obtain ⟨v, hv⟩ := hq
  rcases step?_sound hu with hm | ⟨-, rfl⟩
  · exact ⟨v ++ [c], path_snoc_iff.2 ⟨q, hv, hm⟩⟩
  · exact ⟨v, hv⟩

end RuleSpec

namespace Trimmed

open RuleSpec

theorem live_pairwise (t : Trimmed) : t.live.Pairwise (· < ·) :=
  List.pairwise_lt_range.filter _

theorem live_nodup (t : Trimmed) : t.live.Nodup :=
  t.live_pairwise.imp Nat.ne_of_lt

/-- A live state has a row: its position among the live states. -/
theorem exists_row_of_mem_live {t : Trimmed} {q : Nat} (hq : q ∈ t.live) :
    ∃ r, ∃ hr : r < t.live.length, t.live.idxOf? q = some r ∧ t.live[r] = q := by
  obtain ⟨r, hr⟩ := Option.isSome_iff_exists.1 (List.isSome_idxOf?.2 hq)
  obtain ⟨hlt, hget⟩ :=
    List.getElem?_eq_some_iff.1 ((idxOf?_eq_some_iff_of_nodup t.live_nodup).1 hr)
  exact ⟨r, hlt, hr, hget⟩

/-- Compiling a specification with a fork fails on it. -/
theorem compile_of_forks_ne_nil {t : Trimmed} (hf : t.spec.forks ≠ []) :
    ∃ msg, t.compile = .error (.invariant msg) := by
  unfold compile
  dsimp only
  cases h : t.spec.forks with
  | nil => exact absurd h hf
  | cons f fs => exact ⟨_, rfl⟩

theorem compile_of_live_eq_nil {t : Trimmed} (hf : t.spec.forks = []) (hl : t.live = []) :
    t.compile = .error .noAcceptingState := by
  unfold compile
  dsimp only
  rw [hf]
  simp [hl]

/-- The row compiled for the live state `q` at row `r`. -/
def compiledRow (t : Trimmed) (q r : Nat) : Array Nat :=
  (t.spec.rule q).productions.foldl
    (writeEntry t.spec.alphabet.toArray t.live.idxOf? t.live.length r)
    (Array.replicate t.spec.alphabet.toArray.size t.live.length)

/-- The automaton compiling builds from a specification without forks with some live state. -/
def compiled (t : Trimmed) : Automaton where
  table := (t.live.zipIdx.map fun (q, r) => t.compiledRow q r).foldl (· ++ ·) #[] ++
    Array.replicate t.spec.alphabet.toArray.size t.live.length
  kinds := (t.live.map (kindOf t.spec)).toArray.push (some .error)
  stateIds := t.live.toArray
  alphabet := t.spec.alphabet.toArray
  rows := t.live.length + 1
  initial := 0

theorem compile_eq_ok {t : Trimmed} (hs : t.spec.WellFormed) (hf : t.spec.forks = [])
    (hl : t.live ≠ []) : t.compile = .ok t.compiled := by
  unfold compile
  dsimp only
  rw [hf]
  simp only [List.isEmpty_iff, hl, if_false]
  rw [mapM_except_eq_ok _ fun x _ => rowCells_eq_ok hs _ _ x.2 x.1]
  rfl

/-- A compilation that succeeds met no fork and some live state, and built the compiled
automaton. -/
theorem eq_compiled_of_compile_eq_ok {t : Trimmed} {A : Automaton} (hs : t.spec.WellFormed)
    (h : t.compile = .ok A) : t.spec.forks = [] ∧ t.live ≠ [] ∧ A = t.compiled := by
  by_cases hf : t.spec.forks = []
  · by_cases hl : t.live = []
    · rw [compile_of_live_eq_nil hf hl] at h
      cases h
    · rw [compile_eq_ok hs hf hl, Except.ok.injEq] at h
      exact ⟨hf, hl, h.symm⟩
  · obtain ⟨msg, hmsg⟩ := compile_of_forks_ne_nil hf
    rw [hmsg] at h
    cases h

theorem errorRow_compiled (t : Trimmed) : t.compiled.errorRow = t.live.length := by
  simp [Automaton.errorRow, compiled]

theorem size_compiledRow (t : Trimmed) (q r : Nat) :
    (t.compiledRow q r).size = t.spec.alphabet.length := by
  simp [compiledRow, size_foldl_writeEntry]

section Rows

variable {t : Trimmed} (hs : t.spec.WellFormed) (hf : t.spec.forks = [])
include hs hf

/-- The compiled row of a live state holds, in the column of each symbol, the row of the table
reading's next state, or the error row. -/
theorem getElem?_compiledRow {r : Nat} (hr : r < t.live.length) {col : Nat} {c : Char}
    (hcol : t.spec.alphabet[col]? = some c) :
    (t.compiledRow t.live[r] r)[col]? =
      some (((t.spec.step? t.live[r] c).bind t.live.idxOf?).getD t.live.length) := by
  have hrow : t.live.idxOf? t.live[r] = some r :=
    (idxOf?_eq_some_iff_of_nodup t.live_nodup).2 (List.getElem?_eq_getElem hr)
  -- every production on `c` writes the same entry: the row of the one next state
  have hv : ∀ p ∈ (t.spec.rule t.live[r]).productions, p.symbol? = some c →
      entry t.live.idxOf? t.live.length r p =
        some (c, ((t.spec.step? t.live[r] c).bind t.live.idxOf?).getD t.live.length) := by
    intro p hp hpc
    cases p with
    | transition d u =>
      simp only [Production.symbol?, Option.some.injEq] at hpc
      subst hpc
      rw [(step?_eq_some_iff hs hf).2 (.inl hp)]
      rfl
    | literal d =>
      simp only [Production.symbol?, Option.some.injEq] at hpc
      subst hpc
      rw [(step?_eq_some_iff hs hf).2 (.inr ⟨hp, rfl⟩)]
      simp [entry, hrow]
    | epsilon => cases hpc
  have hlt : col < t.spec.alphabet.length := (List.getElem?_eq_some_iff.1 hcol).1
  unfold compiledRow
  rw [getElem?_foldl_writeEntry (by simpa using hs.alphabet_sorted) (by simpa using hcol) _ _ hv
    (by simpa using hlt)]
  split
  · rfl
  · -- no production reads `c`, so the reading stops and the cell is the error row
    rename_i hno
    have hnone : t.spec.step? t.live[r] c = none :=
      step?_eq_none_iff.2 fun p hp hpc => hno ⟨p, hp, hpc⟩
    simp [hnone, hlt]

/-- From a live row the compiled automaton moves to the row of the table reading's next state,
or to the error row when the reading stops or its next state is not live. -/
theorem next_compiled {r : Nat} (hr : r < t.live.length) (c : Char) :
    t.compiled.next r c = ((t.spec.step? t.live[r] c).bind t.live.idxOf?).getD t.live.length := by
  have hsorted : t.spec.alphabet.toArray.toList.Pairwise (· < ·) := by
    simpa using hs.alphabet_sorted
  have hnot : t.compiled.isError r = false := by
    rw [Automaton.isError, errorRow_compiled t]
    simpa using hr
  unfold Automaton.next Automaton.slot?
  simp only [hnot, Bool.false_eq_true, if_false]
  cases hsearch : search? t.compiled.alphabet c with
  | none =>
    change search? t.spec.alphabet.toArray c = none at hsearch
    -- a symbol outside the alphabet: no production reads it
    have hstep : t.spec.step? t.live[r] c = none := step?_eq_none_iff.2 fun p hp hpc => by
      obtain ⟨col, hcol⟩ := List.mem_iff_getElem?.1 (hs.symbol_mem hp hpc)
      have := (search?_eq_some_iff hsorted).2 (by simpa using hcol)
      rw [hsearch] at this
      cases this
    simp [hstep, errorRow_compiled t]
  | some col =>
    change search? t.spec.alphabet.toArray c = some col at hsearch
    have hcol : t.spec.alphabet[col]? = some c := by
      simpa using (search?_eq_some_iff hsorted).1 hsearch
    have hcell := getElem?_compiledRow hs hf hr hcol
    have hlt : col < t.spec.alphabet.length := (List.getElem?_eq_some_iff.1 hcol).1
    -- the cell sits in the rows laid end to end, before the error row
    have hrows : ∀ row ∈ t.live.zipIdx.map (fun x => t.compiledRow x.1 x.2),
        row.size = t.spec.alphabet.length := by
      intro row hrow
      obtain ⟨⟨q, i⟩, -, rfl⟩ := List.mem_map.1 hrow
      exact size_compiledRow t q i
    have hflat := getElem?_foldl_append hrows (r := r) hlt
    rw [List.getElem?_map, List.getElem?_zipIdx, List.getElem?_eq_getElem hr] at hflat
    simp only [Option.map_some, Option.bind_some, Nat.zero_add] at hflat
    rw [hcell] at hflat
    have hin := (Array.getElem?_eq_some_iff.1 hflat).1
    have htable : t.compiled.table = (t.live.zipIdx.map fun x => t.compiledRow x.1 x.2).foldl
        (· ++ ·) #[] ++ Array.replicate t.spec.alphabet.length t.live.length := by
      simp [compiled]
    have hsize : t.compiled.alphabet.size = t.spec.alphabet.length := by
      simp [compiled]
    simp only [Option.map_some]
    rw [Array.getD_eq_getD_getElem?, htable, hsize, Array.getElem?_append_left hin, hflat]
    rfl

/-- Reading a word from the row of a live state ends in the row of the table reading's last
state, or in the error row when the reading stops or leaves the live states. -/
theorem foldl_next_compiled
    (hcl : ∀ q, q ∈ t.live ↔ q < t.spec.size ∧ (∃ v, t.spec.Path 0 v q) ∧
      ∃ v u, t.spec.Path q v u ∧ t.spec.isTerminal u = true)
    {p r : Nat} (hp : t.live.idxOf? p = some r) (w : List Char) :
    w.foldl t.compiled.next r = ((t.spec.follow? p w).bind t.live.idxOf?).getD t.live.length := by
  induction w generalizing p r with
  | nil => simp [hp]
  | cons c w ih =>
    have hpr := (idxOf?_eq_some_iff_of_nodup t.live_nodup).1 hp
    obtain ⟨hr, hrp⟩ := List.getElem?_eq_some_iff.1 hpr
    rw [List.foldl_cons, next_compiled hs hf hr, hrp, follow?_cons]
    cases hstep : t.spec.step? p c with
    | none =>
      simp only [Option.bind_none, Option.getD_none]
      rw [← errorRow_compiled t, Automaton.foldl_next_errorRow]
    | some u =>
      simp only [Option.bind_some]
      cases hu : t.live.idxOf? u with
      | some r' => exact ih hu
      | none =>
        -- the next state is reachable but not live, so it reaches no terminal state, and
        -- neither does anything the reading meets after it
        simp only [Option.getD_none]
        rw [← errorRow_compiled t, Automaton.foldl_next_errorRow, errorRow_compiled t]
        have hplive := (hcl p).1 (List.mem_of_getElem? hpr)
        have hureach := reachable_of_step? hplive.2.1 hstep
        have hudead : ¬∃ v x, t.spec.Path u v x ∧ t.spec.isTerminal x = true := by
          intro hprod
          have hlt := hs.path_lt hureach.choose_spec hs.start_lt
          exact (List.idxOf?_eq_none_iff.1 hu) ((hcl u).2 ⟨hlt, hureach, hprod⟩)
        cases hend : t.spec.follow? u w with
        | none => rfl
        | some x =>
          have hx : t.live.idxOf? x = none := List.idxOf?_eq_none_iff.2 fun hx =>
            follow?_unproductive hudead hend ((hcl x).1 hx).2.2
          simp [hx]

end Rows

theorem rowOf?_compiled (t : Trimmed) (q : Nat) : t.compiled.rowOf? q = t.live.idxOf? q := by
  refine Option.ext fun i => ?_
  rw [Automaton.rowOf?, search?_eq_some_iff (by simpa [compiled] using t.live_pairwise),
    idxOf?_eq_some_iff_of_nodup t.live_nodup]
  simp [compiled]

theorem kind?_compiled (t : Trimmed) {r : Nat} (hr : r < t.live.length) :
    t.compiled.kind? r = kindOf t.spec t.live[r] := by
  simp only [Automaton.kind?, compiled, Array.getElem?_push, List.size_toArray, List.length_map]
  rw [if_neg (Nat.ne_of_lt hr)]
  simp [hr]

section Classified

/-! The trimmed specifications that compiling is given are classifications of well-formed
specifications; their live states are the states both reachable and productive. -/

variable {s : RuleSpec} {passes merged : Nat} (hs : s.WellFormed)
include hs

theorem live_eq_nil_iff :
    (classify s passes merged).live = [] ↔ ¬∃ w u, s.Path 0 w u ∧ s.isTerminal u = true := by
  constructor
  · intro hl h
    have h0 : 0 ∈ (classify s passes merged).live :=
      (mem_live_classify hs).2 ⟨hs.start_lt, ⟨[], .nil 0⟩, h⟩
    rw [hl] at h0
    cases h0
  · intro h
    rw [List.eq_nil_iff_forall_not_mem]
    intro q hq
    -- a live state lies on a path from the start state to a terminal state
    obtain ⟨-, ⟨v, hv⟩, w, u, hw, hu⟩ := (mem_live_classify hs).1 hq
    exact h ⟨v ++ w, u, path_append_iff.2 ⟨q, hv, hw⟩, hu⟩

/-- When a terminal state can be reached, the start state is the first live state. -/
theorem idxOf?_zero_live (h : ∃ w u, s.Path 0 w u ∧ s.isTerminal u = true) :
    (classify s passes merged).live.idxOf? 0 = some 0 := by
  have h0 : 0 ∈ (classify s passes merged).live :=
    (mem_live_classify hs).2 ⟨hs.start_lt, ⟨[], .nil 0⟩, h⟩
  rw [idxOf?_eq_some_iff_of_nodup (live_nodup _)]
  have hsorted := live_pairwise (classify s passes merged)
  cases hl : (classify s passes merged).live with
  | nil => rw [hl] at h0; cases h0
  | cons x rest =>
    rw [hl, List.pairwise_cons] at hsorted
    rw [hl, List.mem_cons] at h0
    rcases h0 with rfl | h0
    · rfl
    · exact absurd (hsorted.1 0 h0) (Nat.not_lt_zero x)

theorem follow?_lt {q u : Nat} {w : List Char} (hq : q < s.size) (hu : s.follow? q w = some u) :
    u < s.size := by
  induction w generalizing q with
  | nil =>
    rw [follow?_nil, Option.some.injEq] at hu
    rwa [← hu]
  | cons c w ih =>
    obtain ⟨v, hv, hvu⟩ := Option.bind_eq_some_iff.1 hu
    rcases step?_sound hv with hm | ⟨-, rfl⟩
    · exact ih (hs.target_lt hm) hvu
    · exact ih hq hvu

end Classified

/-- What the automaton compiled from `t` promises: its rows are the live states in ascending
order, reading starts in the row of state 0, and reading a word ends in the error row exactly
when the table reading stops or ends outside the live states, and otherwise in the row of the
state it ends in, which accepts what that state accepts. -/
structure CompiledFrom (t : Trimmed) (A : Automaton) : Prop where
  stateIds_eq : A.stateIds.toList = t.live
  live_sorted : t.live.Pairwise (· < ·)
  initial_eq : A.stateId? A.initial = some 0
  run_eq_error_iff : ∀ w, A.run w = A.errorRow ↔
    ∀ p, t.spec.follow? 0 w = some p → t.isLive p = false
  rowOf_run : ∀ w p, t.spec.follow? 0 w = some p → t.isLive p = true →
    A.rowOf? p = some (A.run w)
  kind_run : ∀ w p, t.spec.follow? 0 w = some p → t.isLive p = true →
    A.kind? (A.run w) = kindOf t.spec p

/-- What compiling promises of a trimmed specification: it fails on a fork, fails when no
terminal state can be reached from the start state, and otherwise gives an automaton that reads
words as the table reading does. -/
structure CompileCorrect (t : Trimmed) : Prop where
  fork : t.spec.forks ≠ [] → ∃ msg, t.compile = .error (.invariant msg)
  no_accepting : t.spec.forks = [] →
    (¬∃ w u, t.spec.Path 0 w u ∧ t.spec.isTerminal u = true) →
      t.compile = .error .noAcceptingState
  compiled : t.spec.forks = [] → (∃ w u, t.spec.Path 0 w u ∧ t.spec.isTerminal u = true) →
    ∃ A, t.compile = .ok A ∧ t.CompiledFrom A

/-- The compiled automaton of a well-formed specification without forks keeps its promises when
its live states are those both reachable and productive and the start state is the first. -/
theorem compiledFrom_compiled {t : Trimmed} (hs : t.spec.WellFormed) (hf : t.spec.forks = [])
    (hcl : ∀ q, q ∈ t.live ↔ q < t.spec.size ∧ (∃ v, t.spec.Path 0 v q) ∧
      ∃ v u, t.spec.Path q v u ∧ t.spec.isTerminal u = true)
    (h0 : t.live.idxOf? 0 = some 0) : t.CompiledFrom t.compiled := by
  have hmem : ∀ p, p < t.spec.size → (p ∈ t.live ↔ t.isLive p = true) := fun p hp => by
    simp only [live, List.mem_filter, List.mem_range]
    exact ⟨fun h => h.2, fun h => ⟨hp, h⟩⟩
  -- reading from the start state's row is the table reading from state 0
  have hrun : ∀ w, t.compiled.run w =
      ((t.spec.follow? 0 w).bind t.live.idxOf?).getD t.live.length := fun w =>
    foldl_next_compiled hs hf hcl h0 w
  have hlive : ∀ w p, t.spec.follow? 0 w = some p → t.isLive p = true →
      ∃ r, t.live.idxOf? p = some r ∧ r < t.live.length ∧ t.compiled.run w = r := by
    intro w p hp hl
    obtain ⟨r, hrlt, hr, -⟩ := exists_row_of_mem_live ((hmem p (follow?_lt hs hs.start_lt hp)).2 hl)
    refine ⟨r, hr, hrlt, ?_⟩
    rw [hrun, hp]
    simp [hr]
  refine ⟨rfl, t.live_pairwise, ?_, fun w => ?_, fun w p hp hl => ?_, fun w p hp hl => ?_⟩
  · have h0' := (idxOf?_eq_some_iff_of_nodup t.live_nodup).1 h0
    simp [Automaton.stateId?, compiled, h0', StateId.ofIndex]
  · rw [hrun, errorRow_compiled]
    cases hp : t.spec.follow? 0 w with
    | none => simp
    | some p =>
      have hplt := follow?_lt hs hs.start_lt hp
      cases hr : t.live.idxOf? p with
      | none =>
        -- the reading ends outside the live states
        have hout := List.idxOf?_eq_none_iff.1 hr
        simp only [Option.bind_some, hr, Option.getD_none, true_iff]
        intro p' hp'
        rw [Option.some.injEq] at hp'
        subst hp'
        cases hl : t.isLive p
        · rfl
        · exact absurd ((hmem p hplt).2 hl) hout
      | some r =>
        have hget := (idxOf?_eq_some_iff_of_nodup t.live_nodup).1 hr
        have hlt := (List.getElem?_eq_some_iff.1 hget).1
        have hin := List.mem_of_getElem? hget
        simp only [Option.bind_some, hr, Option.getD_some]
        constructor
        · intro heq
          omega
        · intro hdead
          have := (hmem p hplt).1 hin
          rw [hdead p rfl] at this
          cases this
  · obtain ⟨r, hr, -, hrw⟩ := hlive w p hp hl
    rw [rowOf?_compiled, hr, hrw]
  · obtain ⟨r, hr, hlt, hrw⟩ := hlive w p hp hl
    have hp' := List.getElem?_eq_some_iff.1 ((idxOf?_eq_some_iff_of_nodup t.live_nodup).1 hr)
    rw [hrw, kind?_compiled t hlt, hp'.2]

/-- Compiling a classified well-formed specification keeps its promises. -/
theorem compileCorrect_classify {s : RuleSpec} {passes merged : Nat} (hs : s.WellFormed) :
    (classify s passes merged).CompileCorrect where
  fork hf := compile_of_forks_ne_nil hf
  no_accepting hf h := compile_of_live_eq_nil hf ((live_eq_nil_iff hs).2 h)
  compiled hf h := ⟨_, compile_eq_ok hs hf (fun hl => (live_eq_nil_iff hs).1 hl h),
    compiledFrom_compiled hs hf (fun _ => mem_live_classify hs) (idxOf?_zero_live hs h)⟩

end Trimmed

theorem RuleSpec.determinize_eq_classify (S : RuleSpec) :
    S.determinize = Trimmed.classify S.removeForks.1 S.removeForks.2
      (S.removeForks.1.size - S.size) := by
  simp only [RuleSpec.determinize]

/-- Compiling the determinized or the trimmed form of a specification built from any sequence
of builder calls fails exactly on a fork or when no terminal state can be reached, and otherwise
gives an automaton that reads every word as the specification's table reading does. -/
theorem compileCorrect_of_build (steps : List Builder.Step) {S : RuleSpec} {t : Trimmed}
    (hb : (Builder.performAll {} steps).1.build = .ok S) (ht : t = S.determinize ∨ t = S.trim) :
    t.CompileCorrect := by
  have hS : S.WellFormed := (Builder.sound_performAll Builder.sound_empty steps).build hb
  rcases ht with rfl | rfl
  · rw [RuleSpec.determinize_eq_classify]
    exact Trimmed.compileCorrect_classify (Merger.wellFormed_removeForks hS)
  · exact Trimmed.compileCorrect_classify hS

theorem forkingSpec_compileCorrect :
    (Builder.performAll {} RuleSpec.forkingSteps).1.build = .ok RuleSpec.forkingSpec ∧
      RuleSpec.forkingSpec.determinize.CompileCorrect :=
  ⟨rfl, compileCorrect_of_build RuleSpec.forkingSteps rfl (.inl rfl)⟩

end LexLR
