import LexLR.LR.Load
import LexLR.Proofs.Parsed
/-!
# What loading guarantees of a parse table

Loading checks each action on its own: the symbol exists, and the action is a goto exactly when
that symbol is a nonterminal; and each production reduces to an existing nonterminal. These two
facts are all the analyser relies on, and `Table.WellFormed` collects them. Main statement:
`Table.ofDocument_wellFormed`, every table a document loads to is well formed.
-/

namespace LexLR.LR

namespace Table

/-- What loading guarantees of a table: an action is a goto exactly when its symbol is a
nonterminal, and every production reduces to a nonterminal. -/
structure WellFormed (t : Table) : Prop where
  isGoto_action : ∀ {q x : Nat} {a : Action}, t.action q x = .ok a → a.isGoto = t.isNonterminal x
  head_nonterminal : ∀ {p : Nat} {prod : Production}, t.productions[p]? = some prod →
    t.isNonterminal prod.head = true

theorem mem_of_action_eq_ok {t : Table} {q x : Nat} {a : Action} (h : t.action q x = .ok a) :
    ∃ l, t.states[q]? = some l ∧ (x, a) ∈ l := by
  unfold action at h
  split at h
  · rename_i hl
    cases h
    cases hq : t.states[q]? with
    | none => simp [hq] at hl
    | some l =>
      rw [hq, Option.getD_some] at hl
      obtain ⟨l₁, l₂, rfl, -⟩ := List.lookup_eq_some_iff.1 hl
      exact ⟨_, rfl, by simp⟩
  · cases h

theorem isNonterminal_eq_false_of_isTerminal {t : Table} {x : Nat} (h : t.isTerminal x = true) :
    t.isNonterminal x = false := by
  unfold isTerminal at h
  unfold isNonterminal
  split at h
  · rename_i s hs
    cases hk : s.kind <;> simp_all
  · cases h

theorem isNonterminal_eq {t : Table} {x : Nat} {s : GrammarSymbol} (h : t.symbols[x]? = some s) :
    t.isNonterminal x = (s.kind == .nonterminal) := by
  simp [isNonterminal, symbol?, h]

end Table

namespace TableDocument

theorem mem_insertAction {x y : Nat} {a b : Action} {l : List (Nat × Action)} :
    (y, b) ∈ insertAction x a l ↔ (y, b) = (x, a) ∨ (y, b) ∈ l := by
  induction l with
  | nil => simp [insertAction]
  | cons e rest ih =>
    obtain ⟨z, c⟩ := e
    unfold insertAction
    split
    · simp
    · simp only [List.mem_cons, ih]
      exact or_left_comm

theorem existing_eq_ok {symbols : Array GrammarSymbol} {x : Nat} {s : GrammarSymbol}
    (h : existing symbols x = .ok s) : symbols[x]? = some s := by
  unfold existing at h
  split at h
  · rename_i hx
    cases h
    exact hx
  · cases h

/-- An action entry that loading let through: its symbol exists and the action is a goto exactly
when the symbol is a nonterminal. -/
def CheckedEntry (symbols : Array GrammarSymbol) (e : Nat × Action) : Prop :=
  ∃ s, symbols[e.1]? = some s ∧ (s.kind == .nonterminal) = e.2.isGoto

theorem loadActions_checked {symbols : Array GrammarSymbol} {states productions i : Nat}
    {rows : List ActionRow} {l : List (Nat × Action)}
    (h : loadActions symbols states productions i rows = .ok l) :
    ∀ e ∈ l, CheckedEntry symbols e := by
  refine foldlM_except_invariant (fun acc => ∀ e ∈ acc, CheckedEntry symbols e) ?_
    (by simp) h
  intro acc r acc' hacc hstep
  obtain ⟨on, hon, hstep⟩ := Except.bind_eq_ok.1 hstep
  obtain ⟨action, -, hstep⟩ := Except.bind_eq_ok.1 hstep
  -- the two checks that follow the decoding either throw or let the insertion through
  change (if ((on.kind == .nonterminal) != action.isGoto) = true then _ else _) = _ at hstep
  split at hstep
  · cases hstep
  · rename_i hkind
    split at hstep
    · cases hstep
    · cases hstep
      rintro ⟨y, b⟩ hy
      rcases mem_insertAction.1 hy with hy | hy
      · obtain ⟨rfl, rfl⟩ := Prod.mk.inj hy
        exact ⟨on, existing_eq_ok hon, by simpa using hkind⟩
      · exact hacc _ hy

theorem loadProductions_heads {symbols : Array GrammarSymbol} {rows : List ProductionRow}
    {productions : Array Production} (h : loadProductions symbols rows = .ok productions) :
    ∀ prod ∈ productions, ∃ s, symbols[prod.head]? = some s ∧ s.kind = .nonterminal := by
  refine foldlM_except_invariant
    (fun acc => ∀ prod ∈ acc, ∃ s, symbols[prod.head]? = some s ∧ s.kind = .nonterminal) ?_
    (by simp) h
  intro acc ri acc' hacc hstep
  obtain ⟨r, i⟩ := ri
  obtain ⟨-, -, hstep⟩ := Except.bind_eq_ok.1 hstep
  obtain ⟨head, hhead, hstep⟩ := Except.bind_eq_ok.1 hstep
  simp only at hstep
  split at hstep
  · cases hstep
  · rename_i hkind
    cases hstep
    intro prod hprod
    rcases Array.mem_push.1 hprod with hprod | rfl
    · exact hacc prod hprod
    · exact ⟨head, existing_eq_ok hhead, by simpa using hkind⟩

end TableDocument

open TableDocument in
/-- Every table a document loads to is well formed. -/
theorem Table.ofDocument_wellFormed {d : TableDocument} {t : Table} (h : Table.ofDocument d = .ok t) :
    t.WellFormed := by
  unfold Table.ofDocument at h
  obtain ⟨symbols, -, h⟩ := Except.bind_eq_ok.1 h
  obtain ⟨productions, hprods, h⟩ := Except.bind_eq_ok.1 h
  obtain ⟨states, hstates, h⟩ := Except.bind_eq_ok.1 h
  -- every state's actions went through `loadActions`
  have hchecked : ∀ l ∈ states, ∀ e ∈ l, CheckedEntry symbols e := by
    refine foldlM_except_invariant (fun acc => ∀ l ∈ acc, ∀ e ∈ l, CheckedEntry symbols e) ?_
      (by simp) hstates
    intro acc ri acc' hacc hstep
    obtain ⟨r, i⟩ := ri
    obtain ⟨-, -, hstep⟩ := Except.bind_eq_ok.1 hstep
    obtain ⟨actions, hactions, hstep⟩ := Except.bind_eq_ok.1 hstep
    cases hstep
    intro l hl
    rcases Array.mem_push.1 hl with hl | rfl
    · exact hacc l hl
    · exact loadActions_checked hactions
  split at h
  · cases h
  · cases h
    constructor
    · intro q x a ha
      obtain ⟨l, hl, hmem⟩ := Table.mem_of_action_eq_ok ha
      obtain ⟨s, hs, hkind⟩ := hchecked l (Array.mem_of_getElem? hl) (x, a) hmem
      rw [Table.isNonterminal_eq hs]
      exact hkind.symm
    · intro p prod hp
      obtain ⟨s, hs, hkind⟩ := loadProductions_heads hprods prod (Array.mem_of_getElem? hp)
      rw [Table.isNonterminal_eq hs, hkind]
      rfl

end LexLR.LR
