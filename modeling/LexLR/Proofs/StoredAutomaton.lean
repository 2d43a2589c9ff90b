import LexLR.Proofs.Compiled
import LexLR.Proofs.JsonDocs
import LexLR.Automaton.Json
import LexLR.Proofs.Classified
/-!
# Stored automata

Compiling gives an automaton of the shape loading checks: one row per live state and the error
row, a full table whose entries are rows, the initial row first, ascending alphabet and state
ids, and the error row labelled. Storing writes an automaton as JSON text, and loading the UTF-8
of that text gives the automaton back whenever it passes the shape checks and its numbers fit the
64-bit fields they are stored in; every loaded automaton does. Main statement:
`checkShape_compile_load_toJson`.
-/

namespace LexLR

namespace Automaton

theorem strictlyAscending_iff {α : Type} [LinearOrder α] {l : List α} :
    strictlyAscending l = true ↔ l.Pairwise (· < ·) := by
  induction l with
  | nil => simp [strictlyAscending]
  | cons a l ih =>
    cases l with
    | nil => simp [strictlyAscending]
    | cons b l =>
      simp only [strictlyAscending, Bool.and_eq_true, beq_iff_eq] at ih ⊢
      rw [ih, compare_lt_iff_lt]
      constructor
      · rintro ⟨hab, hbl⟩
        refine List.pairwise_cons.2 ⟨fun c hc => ?_, hbl⟩
        rcases List.mem_cons.1 hc with rfl | hc
        · exact hab
        · exact lt_trans hab (List.rel_of_pairwise_cons hbl hc)
      · intro h
        exact ⟨List.rel_of_pairwise_cons h List.mem_cons_self, (List.pairwise_cons.1 h).2⟩

/-- An automaton that has the shape passes every check. -/
theorem shapeFault?_eq_none {a : Automaton} (h : a.WellShaped) : a.shapeFault? = none := by
  have hany : a.table.any (a.rows ≤ ·) = false := by
    rw [Array.any_eq_false]
    intro i hi
    simpa using h.entries_lt _ (Array.getElem_mem hi)
  unfold shapeFault?
  rw [if_neg (by simp [h.rows_eq, h.kinds_size]), if_neg (by simp [h.table_size]),
    if_neg (by simp [hany]), if_neg (Nat.not_le.2 h.initial_lt),
    if_neg (by simp [h.alphabet_ascending]), if_neg (by simp [h.ids_ascending]),
    if_neg (by simp [h.error_kind])]

theorem checkShape_eq_ok {a : Automaton} (h : a.WellShaped) : a.checkShape = .ok a := by
  simp [checkShape, shapeFault?_eq_none h]

end Automaton

namespace Trimmed

/-- An entry is a row up to `err`: the error row or a live row for a transition, the row itself
for a literal. -/
theorem le_of_entry {rowOf : Nat → Option Nat} {err r : Nat} (hr : r ≤ err)
    (hrow : ∀ q i, rowOf q = some i → i ≤ err) {p : Production} {c : Char} {n : Nat}
    (h : entry rowOf err r p = some (c, n)) : n ≤ err := by
  cases p with
  | transition d q =>
    simp only [entry, Option.some.injEq, Prod.mk.injEq] at h
    rw [← h.2]
    cases hq : rowOf q with
    | none => simp
    | some i => simpa using hrow q i hq
  | literal d =>
    simp only [entry, Option.some.injEq, Prod.mk.injEq] at h
    rw [← h.2]
    exact hr
  | epsilon => simp [entry] at h

theorem le_of_mem_writeEntry {alphabet : Array Char} {rowOf : Nat → Option Nat} {err r : Nat}
    (hr : r ≤ err) (hrow : ∀ q i, rowOf q = some i → i ≤ err) {cells : Array Nat}
    (hcells : ∀ x ∈ cells, x ≤ err) (p : Production) :
    ∀ x ∈ writeEntry alphabet rowOf err r cells p, x ≤ err := by
  intro x hx
  unfold writeEntry at hx
  split at hx
  · exact hcells x hx
  · rename_i c n he
    split at hx
    · rcases Array.mem_or_eq_of_mem_setIfInBounds hx with hx | rfl
      · exact hcells x hx
      · exact le_of_entry hr hrow he
    · exact hcells x hx

/-- Every entry written into a row is a row up to `err`. -/
theorem le_of_mem_foldl_writeEntry {alphabet : Array Char} {rowOf : Nat → Option Nat}
    {err r : Nat} (hr : r ≤ err) (hrow : ∀ q i, rowOf q = some i → i ≤ err)
    (ps : List Production) {init : Array Nat} (hinit : ∀ x ∈ init, x ≤ err) :
    ∀ x ∈ ps.foldl (writeEntry alphabet rowOf err r) init, x ≤ err := by
  induction ps generalizing init with
  | nil => exact hinit
  | cons p ps ih => exact ih (le_of_mem_writeEntry hr hrow hinit p)

theorem mem_foldl_append {rows : List (Array Nat)} {x : Nat}
    (hx : x ∈ rows.foldl (· ++ ·) #[]) : ∃ row ∈ rows, x ∈ row := by
  induction rows with
  | nil => simp at hx
  | cons row rows ih =>
    rw [List.foldl_cons, Array.empty_append, foldl_append_eq, Array.mem_append] at hx
    rcases hx with hx | hx
    · exact ⟨row, List.mem_cons_self, hx⟩
    · obtain ⟨row', hrow', hx'⟩ := ih hx
      exact ⟨row', List.mem_cons_of_mem _ hrow', hx'⟩

theorem size_foldl_append {rows : List (Array Nat)} {n : Nat}
    (hn : ∀ row ∈ rows, row.size = n) :
    (rows.foldl (· ++ ·) #[]).size = rows.length * n := by
  induction rows with
  | nil => simp
  | cons row rows ih =>
    rw [List.foldl_cons, Array.empty_append, foldl_append_eq, Array.size_append,
      hn row List.mem_cons_self, ih fun r hr => hn r (List.mem_cons_of_mem _ hr), List.length_cons,
      Nat.succ_mul, Nat.add_comm]

variable {t : Trimmed}

/-- The automaton compiled from a well-formed specification with a live state has the shape
loading checks. -/
theorem compiled_wellShaped (hs : t.spec.WellFormed) (hl : t.live ≠ []) :
    t.compiled.WellShaped := by
  have hlen : 0 < t.live.length := List.length_pos_iff.2 hl
  have hrows : ∀ row ∈ t.live.zipIdx.map (fun x => t.compiledRow x.1 x.2),
      row.size = t.spec.alphabet.length := by
    intro row hrow
    obtain ⟨x, -, rfl⟩ := List.mem_map.1 hrow
    exact size_compiledRow t _ _
  -- every entry of a live row is at most the error row
  have hentry : ∀ row ∈ t.live.zipIdx.map (fun x => t.compiledRow x.1 x.2),
      ∀ x ∈ row, x ≤ t.live.length := by
    intro row hrow
    obtain ⟨⟨q, r⟩, hqr, rfl⟩ := List.mem_map.1 hrow
    have hr := (List.mem_zipIdx hqr).2.1
    refine le_of_mem_foldl_writeEntry (by omega) (fun q i hi => ?_) _ (by simp)
    exact Nat.le_of_lt (List.idxOf?_eq_some_iff.1 hi).1
  refine ⟨by simp [compiled], by simp [compiled], ?_, fun x hx => ?_, ?_, ?_, ?_, ?_⟩
  · simp only [compiled, Array.size_append, size_foldl_append hrows, List.length_map,
      List.length_zipIdx, Array.size_replicate, List.size_toArray]
    rw [Nat.succ_mul]
  · simp only [compiled, Array.mem_append, Array.mem_replicate] at hx ⊢
    rcases hx with hx | ⟨-, rfl⟩
    · obtain ⟨row, hrow, hx⟩ := mem_foldl_append hx
      have := hentry row hrow x hx
      omega
    · omega
  · rw [errorRow_compiled]
    exact hlen
  · exact Automaton.strictlyAscending_iff.2 (by simpa [compiled] using hs.alphabet_sorted)
  · exact Automaton.strictlyAscending_iff.2 (by simpa [compiled] using t.live_pairwise)
  · rw [errorRow_compiled]
    simp [compiled]

/-- Compiling a well-formed specification gives, when it succeeds, an automaton of the shape
loading checks. -/
theorem wellShaped_of_compile {A : Automaton} (hs : t.spec.WellFormed) (h : t.compile = .ok A) :
    A.WellShaped := by
  obtain ⟨-, hl, rfl⟩ := eq_compiled_of_compile_eq_ok hs h
  exact compiled_wellShaped hs hl

end Trimmed

namespace Automaton

open Json

/-! ### Stored documents -/

/-- The document a stored token kind is read as. -/
def kindDoc : Option TokenKind → Doc
  | none => .null
  | some .identifier => .str (some "Identifier")
  | some .error => .str (some "Error")
  | some (.keyword w) => .obj [(some "Keyword", .str (some w))]

/-- The members of the document a stored automaton is read as, in the order they are written. -/
def docMembers (a : Automaton) : List (String × Doc) :=
  [("data", .arr (a.table.toList.map fun n => .num (some n))),
    ("kinds", .arr (a.kinds.toList.map kindDoc)),
    ("state_ids", .arr (a.stateIds.toList.map fun n => .num (some n))),
    ("alphabet", .arr (a.alphabet.toList.map fun c => .str (some (String.singleton c)))),
    ("states", .num (some a.rows)),
    ("initial_state", .num (some a.initial))]

/-- The document a stored automaton is read as. -/
def toDoc (a : Automaton) : Doc :=
  .obj (a.docMembers.map fun kd => (some kd.1, kd.2))

/-- The numbers of an automaton fit the unsigned 64-bit fields they are stored in. With the
shape, the table entries and the initial row are below the row count, so they fit too. -/
def FitsWords (a : Automaton) : Prop :=
  a.rows < 2 ^ 64 ∧ ∀ x ∈ a.stateIds, x < 2 ^ 64

theorem writesIdle_kindJson (k : Option TokenKind) :
    WritesIdle (Utf8.encode (kindJson k)) (kindDoc k) := by
  cases k with
  | none =>
    -- a literal ends with its last byte, so `null` leaves the scanner between tokens
    have hnull : Utf8.encode "null" = [0x6E, 0x75, 0x6C, 0x6C] := by decide
    refine ⟨[.scalar .null], fun acc => ?_, Reader.readsTo_scalar _⟩
    rw [kindJson, hnull]
    rfl
  | some k =>
    cases k with
    | identifier =>
      have h : kindJson (some .identifier) = quote "Identifier" := by decide
      rw [h]
      exact writesIdle_quote _
    | error =>
      have h : kindJson (some .error) = quote "Error" := by decide
      rw [h]
      exact writesIdle_quote _
    | keyword w =>
      have hjson : kindJson (some (.keyword w)) = object [("Keyword", quote w)] := rfl
      have hdoc : kindDoc (some (.keyword w)) =
          .obj ([("Keyword", Doc.str (some w))].map fun kd => (some kd.1, kd.2)) := rfl
      rw [hjson, hdoc]
      exact writesIdle_objectText (.cons ⟨rfl, (writesIdle_quote w).writes⟩ .nil)

/-- The stored text of an automaton is read as its document. -/
theorem writesIdle_toJson (a : Automaton) : WritesIdle (Utf8.encode a.toJson) a.toDoc := by
  have hdata := writesIdle_arrayText_map a.table.toList fun n _ => writes_nat n
  have hkinds := writesIdle_arrayText_map a.kinds.toList fun k _ => (writesIdle_kindJson k).writes
  have hids := writesIdle_arrayText_map a.stateIds.toList fun n _ => writes_nat n
  have halpha := writesIdle_arrayText_map a.alphabet.toList fun c _ =>
    (writesIdle_quote (String.singleton c)).writes
  unfold toJson toDoc
  exact writesIdle_objectText (.cons ⟨rfl, hdata.writes⟩ (.cons ⟨rfl, hkinds.writes⟩
    (.cons ⟨rfl, hids.writes⟩ (.cons ⟨rfl, halpha.writes⟩
    (.cons ⟨rfl, writes_nat a.rows⟩ (.cons ⟨rfl, writes_nat a.initial⟩ .nil))))))

theorem optKindOfDoc?_kindDoc (k : Option TokenKind) : optKindOfDoc? (kindDoc k) = some k := by
  rcases k with _ | _ | _ | w <;> rfl

theorem fields?_toDoc (a : Automaton) :
    a.toDoc.fields? ["data", "kinds", "state_ids", "alphabet", "states", "initial_state"] =
      some (a.docMembers.map Prod.snd) := by
  simp [toDoc, docMembers, Doc.fields?, Doc.member?]

/-- The document of an automaton whose numbers fit their fields describes that automaton. -/
theorem ofDoc?_toDoc {a : Automaton} (htable : ∀ x ∈ a.table, x < 2 ^ 64)
    (hids : ∀ x ∈ a.stateIds, x < 2 ^ 64) (hrows : a.rows < 2 ^ 64)
    (hinit : a.initial < 2 ^ 64) :
    ofDoc? a.toDoc = some a := by
  have hdata : (a.table.toList.map fun n => Doc.num (some n)).mapM Doc.u64? =
      some a.table.toList :=
    mapM_map_eq_some fun x hx => Doc.u64?_num (htable x (Array.mem_toList_iff.1 hx))
  have hkinds : (a.kinds.toList.map kindDoc).mapM optKindOfDoc? = some a.kinds.toList :=
    mapM_map_eq_some fun k _ => optKindOfDoc?_kindDoc k
  have hstate : (a.stateIds.toList.map fun n => Doc.num (some n)).mapM Doc.u64? =
      some a.stateIds.toList :=
    mapM_map_eq_some fun x hx => Doc.u64?_num (hids x (Array.mem_toList_iff.1 hx))
  have halpha : (a.alphabet.toList.map fun c => Doc.str (some (String.singleton c))).mapM
      Doc.char? = some a.alphabet.toList :=
    mapM_map_eq_some fun c _ => Doc.char?_singleton c
  rw [ofDoc?, fields?_toDoc]
  simp [docMembers, Doc.items?, hdata, hkinds, hstate, halpha, Doc.u64?_num hrows,
    Doc.u64?_num hinit]

/-- An automaton read from a document has numbers that fit their fields. -/
theorem fitsWords_of_ofDoc? {d : Doc} {b : Automaton} (h : ofDoc? d = some b) : b.FitsWords := by
  unfold ofDoc? at h
  simp only [Option.bind_eq_bind, Option.bind_eq_some_iff] at h
  obtain ⟨fs, -, h⟩ := h
  split at h
  · simp only [Option.bind_eq_some_iff, Option.some.injEq] at h
    obtain ⟨_, _, _, _, _, _, _, _, _, _, ids, hids, _, _, _, _, rows, hrows, _, _, rfl⟩ := h
    exact ⟨Doc.lt_of_u64? hrows, fun x hx => Doc.lt_of_mapM_u64? hids x (by simpa using hx)⟩
  · cases h

/-! ### Loading stored automata -/

/-- Loading the stored text of a well-shaped automaton whose numbers fit gives it back. -/
theorem load_toJson {a : Automaton} (h : a.WellShaped) (hw : a.FitsWords) :
    load (Utf8.encode a.toJson) = .ok a := by
  have hinit : a.initial < a.rows := by
    have := h.initial_lt
    unfold errorRow at this
    omega
  have hdoc := ofDoc?_toDoc (fun x hx => lt_trans (h.entries_lt x hx) hw.1) hw.2 hw.1
    (lt_trans hinit hw.1)
  simp [load, read_eq_some (writesIdle_toJson a), hdoc, checkShape_eq_ok h]

theorem fitsWords_of_load {bytes : List UInt8} {a : Automaton} (h : load bytes = .ok a) :
    a.FitsWords := by
  unfold load at h
  split at h
  · cases h
  · rename_i b hb
    obtain ⟨rfl, -⟩ := wellShaped_of_checkShape h
    obtain ⟨d, -, hd⟩ := Option.bind_eq_some_iff.1 hb
    exact fitsWords_of_ofDoc? hd

/-- Every automaton compiled from a specification the tool can produce (one a builder returns,
or one determinizing leaves of such a one), determinized or only trimmed, passes the shape
checks; storing an automaton that passes them and whose numbers fit their fields, then loading
the UTF-8 of the text, gives the same automaton; and every loaded automaton is of that kind, so it
survives being stored and loaded again. -/
theorem checkShape_compile_load_toJson :
    (∀ (S : RuleSpec) (t : Trimmed) (A : Automaton), S.Produced →
      (t = S.determinize ∨ t = S.trim) → t.compile = .ok A → A.checkShape = .ok A) ∧
    (∀ A : Automaton, A.checkShape = .ok A → A.FitsWords →
      load (Utf8.encode A.toJson) = .ok A) ∧
    (∀ (bytes : List UInt8) (A : Automaton), load bytes = .ok A →
      A.checkShape = .ok A ∧ A.FitsWords ∧ load (Utf8.encode A.toJson) = .ok A) := by
  refine ⟨fun S t A hS ht hc => ?_, fun A hA hw => ?_, fun bytes A h => ?_⟩
  · exact checkShape_eq_ok (Trimmed.wellShaped_of_compile (hS.trimmed_wellFormed ht) hc)
  · exact load_toJson (wellShaped_of_checkShape hA).2 hw
  · have hs := wellShaped_of_load h
    exact ⟨checkShape_eq_ok hs, fitsWords_of_load h, load_toJson hs (fitsWords_of_load h)⟩

/-- Two rows over a backslash and a non-ASCII letter; the live row's keyword holds a quote, a
backslash and a line feed, all of which are escaped when stored. -/
def escapedKeywordAutomaton : Automaton where
  table := #[1, 1, 1, 1]
  kinds := #[some (.keyword "\"\\\n"), some .error]
  stateIds := #[0]
  alphabet := #['\\', 'é']
  rows := 2
  initial := 0

theorem escapedKeyword_load_toJson :
    escapedKeywordAutomaton.checkShape = .ok escapedKeywordAutomaton ∧
      escapedKeywordAutomaton.FitsWords ∧
      load (Utf8.encode escapedKeywordAutomaton.toJson) = .ok escapedKeywordAutomaton := by
  have hs : escapedKeywordAutomaton.checkShape = .ok escapedKeywordAutomaton :=
    checkShape_eq_ok ⟨rfl, rfl, rfl, by decide, by decide, by decide, by decide, rfl⟩
  have hw : escapedKeywordAutomaton.FitsWords := ⟨by norm_num [escapedKeywordAutomaton], by
    simp [escapedKeywordAutomaton]⟩
  exact ⟨hs, hw, checkShape_compile_load_toJson.2.1 _ hs hw⟩

set_option maxRecDepth 4000 in
example : escapedKeywordAutomaton.toJson =
    "\x7b\"data\":[1,1,1,1],\"kinds\":[\x7b\"Keyword\":\"\\\"\\\\\\n\"\x7d,\"Error\"],\"state_ids\":[0],\"alphabet\":[\"\\\\\",\"é\"],\"states\":2,\"initial_state\":0\x7d" := by
  decide

end Automaton

end LexLR
