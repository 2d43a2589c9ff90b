import Mathlib
import LexLR.Proofs.RuleFileLines
import LexLR.Proofs.BuilderCalls
/-!
# What a rule file reads to

Reading a rule file runs three passes over a builder. The head pass mints the head state of each
grammar line, in order of first appearance, so that the builder afterwards is `Builder.ofHeads`
of the names of the head states. The body pass adds to each head state the meanings of its
alternatives, and the word pass hangs a chain of fresh states off the start state for each reserved
word. Each pass is described here as a whole (`heads_eq_ok_iff`, `bodies_eq_ok`,
`keywords_eq_ok`), and the three together give the main statement, `parse_ok_iff_wellWritten`:
a rule file reads exactly when it is well written, and then to the specification
`RuleFile.Describes` spells out from its text.
-/

namespace LexLR

namespace Builder

/-- The builder that has minted the head states `heads`, in order, and nothing else. -/
def ofHeads (heads : List (List Char)) : Builder where
  rules := Array.replicate heads.length {}
  names := (heads.map fun n => some (String.ofList n)).toArray
  byName := (heads.zipIdx 0).map fun e => (String.ofList e.1, e.2)

theorem ofHeads_nil : ofHeads [] = {} :=
  rfl

@[simp]
theorem size_ofHeads (heads : List (List Char)) : (ofHeads heads).size = heads.length := by
  simp [ofHeads, size]

/-- Looking up a name among numbered heads finds the first head of that name. -/
theorem lookup_map_zipIdx (heads : List (List Char)) (k : Nat) (n : List Char) :
    ((heads.zipIdx k).map fun e => (String.ofList e.1, e.2)).lookup (String.ofList n) =
      if n ∈ heads then some (k + heads.idxOf n) else none := by
  induction heads generalizing k with
  | nil => rfl
  | cons m heads ih =>
    rw [List.zipIdx_cons, List.map_cons, List.lookup_cons, ih]
    by_cases hm : m = n
    · subst hm
      simp
    · have hm' : (String.ofList n == String.ofList m) = false := by
        simpa using fun h => hm (String.ofList_injective h).symm
      have hmn : (m == n) = false := by simpa using hm
      simp only [hm', hmn, List.mem_cons, List.idxOf_cons, Ne.symm hm, false_or, cond_false]
      split <;> simp only [Option.some.injEq]
      omega

theorem lookup_ofHeads (heads : List (List Char)) (n : List Char) :
    (ofHeads heads).lookup (String.ofList n) =
      if n ∈ heads then some (heads.idxOf n) else none := by
  rw [lookup, ofHeads, lookup_map_zipIdx, Nat.zero_add]

theorem eraseDups_concat (names : List (List Char)) (n : List Char) :
    (names ++ [n]).eraseDups = if n ∈ names then names.eraseDups else names.eraseDups ++ [n] := by
  rw [List.eraseDups_append]
  by_cases hn : n ∈ names
  · simp [List.removeAll, hn]
  · simp [List.removeAll, hn, List.eraseDups_cons]

/-- Minting the head of a grammar line: a new name joins the end of the heads, and a known one
keeps its id. -/
theorem state_ofHeads (names : List (List Char)) (n : List Char) :
    (ofHeads names.eraseDups).state (String.ofList n) =
      (ofHeads (names ++ [n]).eraseDups, (names ++ [n]).eraseDups.idxOf n) := by
  unfold Builder.state
  rw [lookup_ofHeads, eraseDups_concat]
  by_cases hn : n ∈ names
  · simp [hn, List.mem_eraseDups]
  · have hn' : n ∉ names.eraseDups := by rwa [List.mem_eraseDups]
    simp [hn, hn', ofHeads, push, size, Array.replicate_succ, List.zipIdx_append, List.idxOf_append]

end Builder

namespace RuleFile

open Builder

/-! ## The head pass -/

/-- The body of a grammar line, blanks deleted: what follows `<name>::=`. -/
def bodyOf (compact : List Char) : List Char :=
  compact.drop ((headName compact).length + 5)

/-- A grammar line, blanks deleted, that starts with `<name>::=` for a state name. -/
def HeadForm (compact : List Char) : Prop :=
  ∃ name body, compact = '<' :: (name ++ '>' :: (ruleSeparator ++ body)) ∧ IsStateName name

theorem bodyOf_eq {compact name body : List Char}
    (h : compact = '<' :: (name ++ '>' :: (ruleSeparator ++ body))) (hn : IsStateName name) :
    bodyOf compact = body := by
  rw [bodyOf, headName_eq h hn, h]
  simp [ruleSeparator]

/-- A head already minted keeps its place when more names follow. -/
theorem idxOf_eraseDups_concat (names : List (List Char)) (n : List Char)
    (more : List (List Char)) :
    (names ++ [n]).eraseDups.idxOf n = (names ++ n :: more).eraseDups.idxOf n := by
  have h : (names ++ n :: more).eraseDups =
      (names ++ [n]).eraseDups ++ (more.removeAll (names ++ [n])).eraseDups := by
    rw [← List.eraseDups_append, List.append_assoc, List.singleton_append]
  rw [h, List.idxOf_append_of_mem (List.mem_eraseDups.2 (by simp))]

theorem heads_cons_eq_ok_iff {b : Builder} {line : Nat} {compact : List Char}
    {G : List (Nat × List Char)} {r : Builder × List (Nat × Nat × List Char)} :
    heads b ((line, compact) :: G) = .ok r ↔
      ∃ n body, compact = '<' :: (n ++ '>' :: (ruleSeparator ++ body)) ∧ IsStateName n ∧
        ∃ b' hs, heads (b.state (String.ofList n)).1 G = .ok (b', hs) ∧
          r = (b', (line, (b.state (String.ofList n)).2, body) :: hs) := by
  constructor
  · intro h
    simp only [heads] at h
    split at h
    · cases h
    · rename_i head body hsplit
      split at h
      · cases h
      · rename_i name hname
        obtain ⟨n, hc, hn, -, rfl⟩ := splitOnce_stateName?_eq_some_iff.1 ⟨hsplit, hname⟩
        split at h
        · rename_i b' hs hG
          cases h
          exact ⟨n, body, hc, hn, b', hs, hG, rfl⟩
        · cases h
  · rintro ⟨n, body, rfl, hn, b', hs, hG, rfl⟩
    have hh : splitOnce ruleSeparator ('<' :: (n ++ '>' :: (ruleSeparator ++ body))) =
          some ('<' :: (n ++ ['>']), body) ∧
        stateName? ('<' :: (n ++ ['>'])) = some (String.ofList n) :=
      splitOnce_stateName?_eq_some_iff.2 ⟨n, rfl, hn, rfl, rfl⟩
    simp only [heads, hh.1, hh.2, hG]

/-- The head pass succeeds exactly when every grammar line starts with `<name>::=`; the builder
then holds the heads in order of first appearance, and each line goes on with its head's id and
its body. -/
theorem heads_eq_ok_iff (names : List (List Char)) (G : List (Nat × List Char))
    (r : Builder × List (Nat × Nat × List Char)) :
    heads (ofHeads names.eraseDups) G = .ok r ↔
      (∀ e ∈ G, HeadForm e.2) ∧
        r = (ofHeads (names ++ G.map fun e => headName e.2).eraseDups,
          G.map fun e => (e.1, (names ++ G.map fun e => headName e.2).eraseDups.idxOf (headName e.2),
            bodyOf e.2)) := by
  induction G generalizing names r with
  | nil => simp [heads, eq_comm]
  | cons e G ih =>
    obtain ⟨line, compact⟩ := e
    rw [heads_cons_eq_ok_iff]
    constructor
    · rintro ⟨n, body, hc, hn, b', hs, hG, rfl⟩
      rw [state_ofHeads] at hG ⊢
      obtain ⟨hall, hr⟩ := (ih (names ++ [n]) (b', hs)).1 hG
      simp only [Prod.mk.injEq] at hr
      obtain ⟨rfl, rfl⟩ := hr
      refine ⟨List.forall_mem_cons.2 ⟨⟨n, body, hc, hn⟩, hall⟩, ?_⟩
      rw [idxOf_eraseDups_concat names n (G.map fun e => headName e.2)]
      simp only [List.map_cons, headName_eq hc hn, bodyOf_eq hc hn, List.append_assoc,
        List.singleton_append]
    · rintro ⟨hall, rfl⟩
      obtain ⟨⟨n, body, hc, hn⟩, hall⟩ := List.forall_mem_cons.1 hall
      refine ⟨n, body, hc, hn, ?_⟩
      rw [state_ofHeads]
      refine ⟨_, _, (ih (names ++ [n]) _).2 ⟨hall, rfl⟩, ?_⟩
      rw [idxOf_eraseDups_concat names n (G.map fun e => headName e.2)]
      simp only [List.map_cons, headName_eq hc hn, bodyOf_eq hc hn, List.append_assoc,
        List.singleton_append]

/-! ## The body pass -/

/-- An alternative has one meaning: reading it against the head states gives that meaning. -/
theorem AltMeans.unique {H : List (List Char)} {alt : List Char} {p p' : Production}
    (h : AltMeans H alt p) (h' : AltMeans H alt p') : p = p' := by
  have hp : production (ofHeads H) 0 alt = .ok p := production_of_altMeans (lookup_ofHeads H) h
  rw [production_of_altMeans (lookup_ofHeads H) h'] at hp
  cases hp
  rfl

theorem NamesHeads.of_byName_eq {b b' : Builder} {H : List (List Char)} (h : NamesHeads b H)
    (he : b'.byName = b.byName) : NamesHeads b' H := by
  intro n
  rw [← h n]
  unfold Builder.lookup
  rw [he]

/-- Reading an alternative of a grammar line of state `q`, and adding its production to `q`. -/
def addAlternative (q line : Nat) (b : Builder) (alt : List Char) : Except SpecError Builder := do
  let p ← production b line alt
  b.addProduction q p

theorem bodies_cons (b : Builder) (line q : Nat) (body : List Char)
    (hs : List (Nat × Nat × List Char)) :
    bodies b ((line, q, body) :: hs) =
      (body.splitOn '|').foldlM (addAlternative q line) b >>= fun b => bodies b hs :=
  rfl

theorem addAlternative_eq_ok_iff {H : List (List Char)} {b b' : Builder} (hb : NamesHeads b H)
    {q line : Nat} {alt : List Char} :
    addAlternative q line b alt = .ok b' ↔ ∃ p, AltMeans H alt p ∧ b.addProduction q p = .ok b' := by
  simp only [addAlternative, Except.bind_eq_ok, production_eq_ok_iff hb]

end RuleFile

namespace Builder

theorem names_addProduction {b b' : Builder} {q : Nat} {p : Production}
    (he : b.addProduction q p = .ok b') : b'.names = b.names := by
  unfold Builder.addProduction at he
  split at he
  · cases he
    split <;> rfl
  · cases he

/-- What adding productions did to `b`, giving `b'`: the productions that `R` gives each state
joined its rule, and a state became terminal when one of them is no transition; nothing else
changed. -/
structure RulesAdded (b b' : Builder) (R : Nat → Production → Prop) : Prop where
  size_eq : b'.size = b.size
  names_eq : b'.names = b.names
  byName_eq : b'.byName = b.byName
  keywords_eq : b'.keywords = b.keywords
  mem_rule : ∀ y p, p ∈ (b'.view.rule y).productions ↔ p ∈ (b.view.rule y).productions ∨ R y p
  isTerminal_iff : ∀ y, b'.view.isTerminal y = true ↔
    b.view.isTerminal y = true ∨ ∃ p, R y p ∧ ∀ c t, p ≠ .transition c t

theorem RulesAdded.refl (b : Builder) : RulesAdded b b fun _ _ => False :=
  ⟨rfl, rfl, rfl, rfl, fun _ _ => by simp, fun _ => by simp⟩

theorem RulesAdded.trans {b₁ b₂ b₃ : Builder} {R₁ R₂ : Nat → Production → Prop}
    (h₁ : RulesAdded b₁ b₂ R₁) (h₂ : RulesAdded b₂ b₃ R₂) :
    RulesAdded b₁ b₃ fun y p => R₁ y p ∨ R₂ y p where
  size_eq := h₂.size_eq.trans h₁.size_eq
  names_eq := h₂.names_eq.trans h₁.names_eq
  byName_eq := h₂.byName_eq.trans h₁.byName_eq
  keywords_eq := h₂.keywords_eq.trans h₁.keywords_eq
  mem_rule y p := by rw [h₂.mem_rule, h₁.mem_rule, or_assoc]
  isTerminal_iff y := by
    rw [h₂.isTerminal_iff, h₁.isTerminal_iff, or_assoc]
    simp only [or_and_right, exists_or]

theorem RulesAdded.congr {b b' : Builder} {R R' : Nat → Production → Prop} (h : RulesAdded b b' R)
    (hR : ∀ y p, R y p ↔ R' y p) : RulesAdded b b' R' := by
  have : R = R' := funext fun y => funext fun p => propext (hR y p)
  exact this ▸ h

theorem RulesAdded.of_addProduction {b b' : Builder} {q : Nat} {p : Production}
    (he : b.addProduction q p = .ok b') : RulesAdded b b' fun y p' => y = q ∧ p' = p := by
  have h := ProductionAdded.of_addProduction he
  refine ⟨h.size_eq, names_addProduction he, h.byName_eq, h.keywords_eq, h.mem_rule, fun y => ?_⟩
  rw [h.isTerminal_iff]
  simp

end Builder

namespace RuleFile

open Builder

/-- Adding the alternatives of a line of an existing state `q` succeeds exactly when each of them
means a production. -/
theorem foldlM_addAlternative_eq_ok_iff {H : List (List Char)} {q line : Nat}
    (alts : List (List Char)) {b : Builder} (hb : NamesHeads b H) (hq : q < b.size) :
    (∃ b', alts.foldlM (addAlternative q line) b = .ok b') ↔ ∀ alt ∈ alts, ∃ p, AltMeans H alt p := by
  induction alts generalizing b with
  | nil => exact ⟨fun _ _ h => absurd h List.not_mem_nil, fun _ => ⟨b, rfl⟩⟩
  | cons alt alts ih =>
    simp only [List.foldlM_cons, Except.bind_eq_ok, List.forall_mem_cons]
    constructor
    · rintro ⟨b', b₁, h₁, h⟩
      obtain ⟨p, hp, hadd⟩ := (addAlternative_eq_ok_iff hb).1 h₁
      have hA := RulesAdded.of_addProduction hadd
      exact ⟨⟨p, hp⟩, (ih (hb.of_byName_eq hA.byName_eq) (hA.size_eq ▸ hq)).1 ⟨b', h⟩⟩
    · rintro ⟨⟨p, hp⟩, hall⟩
      obtain ⟨b₁, hadd, -⟩ := addProduction_eq_ok hq p
      have hA := RulesAdded.of_addProduction hadd
      obtain ⟨b', h⟩ := (ih (hb.of_byName_eq hA.byName_eq) (hA.size_eq ▸ hq)).2 hall
      exact ⟨b', b₁, (addAlternative_eq_ok_iff hb).2 ⟨p, hp, hadd⟩, h⟩

/-- Adding the alternatives of a line of `q` adds their meanings to `q`. -/
theorem foldlM_addAlternative_eq_ok {H : List (List Char)} {q line : Nat}
    (alts : List (List Char)) {b b' : Builder} (hb : NamesHeads b H)
    (h : alts.foldlM (addAlternative q line) b = .ok b') :
    RulesAdded b b' fun y p => y = q ∧ ∃ alt ∈ alts, AltMeans H alt p := by
  induction alts generalizing b with
  | nil =>
    simp only [List.foldlM_nil] at h
    cases h
    exact (RulesAdded.refl _).congr (by simp)
  | cons alt alts ih =>
    rw [List.foldlM_cons] at h
    obtain ⟨b₁, h₁, h⟩ := Except.bind_eq_ok.1 h
    obtain ⟨p, hp, hadd⟩ := (addAlternative_eq_ok_iff hb).1 h₁
    have hA := RulesAdded.of_addProduction hadd
    refine (hA.trans (ih (hb.of_byName_eq hA.byName_eq) h)).congr fun y p' => ?_
    -- the alternative just read has one meaning, the production it was read as
    have hunique : AltMeans H alt p' ↔ p' = p := by
      constructor
      · intro h'
        exact (hp.unique h').symm
      · rintro rfl
        exact hp
    simp only [List.mem_cons, or_and_right, exists_or, exists_eq_left, hunique, and_or_left]

/-- The body pass, over lines of existing states, succeeds exactly when every alternative means a
production. -/
theorem bodies_eq_ok_iff {H : List (List Char)} {hs : List (Nat × Nat × List Char)} {b : Builder}
    (hb : NamesHeads b H) (hq : ∀ e ∈ hs, e.2.1 < b.size) :
    (∃ b', bodies b hs = .ok b') ↔ ∀ e ∈ hs, ∀ alt ∈ e.2.2.splitOn '|', ∃ p, AltMeans H alt p := by
  induction hs generalizing b with
  | nil => simp [bodies]
  | cons e hs ih =>
    obtain ⟨line, q, body⟩ := e
    simp only [bodies_cons, Except.bind_eq_ok, List.forall_mem_cons] at hq ⊢
    constructor
    · rintro ⟨b', b₁, h₁, h⟩
      have hA := foldlM_addAlternative_eq_ok _ hb h₁
      exact ⟨(foldlM_addAlternative_eq_ok_iff _ hb hq.1).1 ⟨b₁, h₁⟩,
        (ih (hb.of_byName_eq hA.byName_eq) fun e he => hA.size_eq ▸ hq.2 e he).1 ⟨b', h⟩⟩
    · rintro ⟨hfirst, hrest⟩
      obtain ⟨b₁, h₁⟩ := (foldlM_addAlternative_eq_ok_iff _ hb hq.1).2 hfirst
      have hA := foldlM_addAlternative_eq_ok _ hb h₁
      obtain ⟨b', h⟩ := (ih (hb.of_byName_eq hA.byName_eq) fun e he => hA.size_eq ▸ hq.2 e he).2 hrest
      exact ⟨b', b₁, h₁, h⟩

/-- The body pass adds to each line's state the meanings of its alternatives. -/
theorem bodies_eq_ok {H : List (List Char)} {hs : List (Nat × Nat × List Char)} {b b' : Builder}
    (hb : NamesHeads b H) (h : bodies b hs = .ok b') :
    RulesAdded b b' fun y p => ∃ e ∈ hs, y = e.2.1 ∧ ∃ alt ∈ e.2.2.splitOn '|', AltMeans H alt p := by
  induction hs generalizing b with
  | nil =>
    simp only [bodies, Except.ok.injEq] at h
    subst h
    exact (RulesAdded.refl b).congr (by simp)
  | cons e hs ih =>
    obtain ⟨line, q, body⟩ := e
    rw [bodies_cons] at h
    obtain ⟨b₁, h₁, h⟩ := Except.bind_eq_ok.1 h
    have hA := foldlM_addAlternative_eq_ok _ hb h₁
    exact (hA.trans (ih (hb.of_byName_eq hA.byName_eq) h)).congr fun y p => by
      simp only [List.mem_cons, or_and_right, exists_or, exists_eq_left]

end RuleFile

/-! ## The word pass -/

namespace Builder

theorem start_eq_self {b : Builder} (hb : 0 < b.size) : b.start.1 = b := by
  have hne : b.rules.isEmpty = false := by
    simpa [size, Array.isEmpty_iff_size_eq_zero, Nat.pos_iff_ne_zero] using hb
  simp [Builder.start, hne]

theorem rule_view_start (b : Builder) (y : Nat) : b.start.1.view.rule y = b.view.rule y := by
  unfold Builder.start
  split
  · exact rule_view_push none y
  · rfl

theorem name?_view_push_none (b : Builder) (y : Nat) :
    (b.push none).1.view.name? y = b.view.name? y := by
  simp only [view, RuleSpec.name?, push, Array.getElem?_push]
  split
  · rename_i hy
    subst hy
    simp
  · rfl

theorem name?_view_start (b : Builder) (y : Nat) : b.start.1.view.name? y = b.view.name? y := by
  unfold Builder.start
  split
  · exact name?_view_push_none b y
  · rfl

theorem isTerminal_view_start (b : Builder) (y : Nat) :
    b.start.1.view.isTerminal y = b.view.isTerminal y := by
  simp only [view, RuleSpec.isTerminal, terminals_start]

/-- Inserting a production into a rule leaves every other production where it was. -/
theorem mem_rule_view_insert_of_ne (b : Builder) (q : Nat) {p p' : Production} (hp : p ≠ p')
    (y : Nat) :
    p ∈ (({ b with rules := b.rules.modify q fun r => r.insert p' } : Builder).view.rule y).productions ↔
      p ∈ (b.view.rule y).productions := by
  simp only [view, RuleSpec.rule, Array.getD_eq_getD_getElem?, Array.getElem?_modify]
  split
  · cases b.rules[y]? <;> simp [Rule.mem_insert, hp]
  · rfl

/-- A chain adds transitions only. -/
theorem mem_rule_view_chain (b : Builder) (q : Nat) (cs : List Char) {p : Production}
    (hp : ∀ c t, p ≠ .transition c t) (y : Nat) :
    p ∈ ((b.chain q cs).1.view.rule y).productions ↔ p ∈ (b.view.rule y).productions := by
  induction cs generalizing b q with
  | nil => rfl
  | cons c cs ih =>
    show p ∈ (((({ (b.push none).1 with
      rules := (b.push none).1.rules.modify q fun r => r.insert (.transition c b.size) } :
        Builder).chain b.size cs).1.view.rule y).productions) ↔ _
    rw [ih, mem_rule_view_insert_of_ne _ _ (hp c b.size), rule_view_push]

theorem name?_view_chain (b : Builder) (q : Nat) (cs : List Char) (y : Nat) :
    (b.chain q cs).1.view.name? y = b.view.name? y := by
  induction cs generalizing b q with
  | nil => rfl
  | cons c cs ih =>
    show ((({ (b.push none).1 with
      rules := (b.push none).1.rules.modify q fun r => r.insert (.transition c b.size) } :
        Builder).chain b.size cs).1.view.name? y) = _
    rw [ih]
    exact name?_view_push_none b y

theorem name?_view_addKeyword {b b' : Builder} {w : String} {last : Nat}
    (he : b.addKeyword w = .ok (b', last)) (y : Nat) : b'.view.name? y = b.view.name? y := by
  unfold Builder.addKeyword at he
  split at he
  · cases he
  · simp only [Except.ok.injEq, Prod.mk.injEq] at he
    obtain ⟨rfl, rfl⟩ := he
    exact (name?_view_chain _ _ _ y).trans (name?_view_start b y)

/-- Reading a reserved word adds to the rules just the transitions of its chain, whose states
follow the start state. -/
theorem mem_rule_addKeyword {b b' : Builder} {w : String} {last : Nat}
    (he : b.addKeyword w = .ok (b', last)) (y : Nat) (p : Production) :
    p ∈ (b'.view.rule y).productions ↔ p ∈ (b.view.rule y).productions ∨
      ∃ k c, w.toList[k]? = some c ∧ p = .transition c (b.start.1.size + k) ∧
        y = if k = 0 then 0 else b.start.1.size + k - 1 := by
  have hK := KeywordAdded.of_addKeyword he
  cases p with
  | transition d x =>
    have hM : b'.size - w.length = b.start.1.size := by
      rw [hK.size_eq, size_start]
      omega
    change b'.view.Moves y d x ↔ b.view.Moves y d x ∨ _
    rw [hK.moves_iff, hM]
    apply or_congr_right
    constructor
    · rintro ⟨k, hk, rfl, rfl⟩
      exact ⟨k, d, hk, rfl, rfl⟩
    · rintro ⟨k, c, hk, h, rfl⟩
      simp only [Production.transition.injEq] at h
      obtain ⟨rfl, rfl⟩ := h
      exact ⟨k, hk, rfl, rfl⟩
  | literal c | epsilon =>
    -- the chain adds no literal and no epsilon, so the old rule is read through the start state
    obtain ⟨-, -, hrules, -⟩ := addKeyword_eq he
    have hframe : ∀ y, b'.view.rule y = (b.start.1.chain 0 w.toList).1.view.rule y := by
      intro y
      simp only [view, RuleSpec.rule, hrules]
    rw [hframe, mem_rule_view_chain _ _ _ (by simp), rule_view_start]
    simp

end Builder

namespace RuleFile

open Builder

/-- The transitions of the chains of the words `W`, hung off state 0 with fresh states from `M`
on, word after word: the `k`-th character of a word is read into the `k`-th state of its chain,
from state 0 for the first character and from the state before otherwise. -/
def ChainMove : Nat → List (List Char) → Nat → Production → Prop
  | _, [], _, _ => False
  | M, w :: W, y, p =>
    (∃ k c, w[k]? = some c ∧ p = .transition c (M + k) ∧ y = if k = 0 then 0 else M + k - 1) ∨
      ChainMove (M + w.length) W y p

/-- The last states of the chains of the words `W`, with fresh states from `M` on. -/
def ChainEnd : Nat → List (List Char) → Nat → Prop
  | _, [], _ => False
  | M, w :: W, y => y = M + w.length - 1 ∨ ChainEnd (M + w.length) W y

/-- The keyword states of the chains of the words `W`, each with its word, in order. -/
def chainKeywords : Nat → List (List Char) → List (Nat × String)
  | _, [] => []
  | M, w :: W => (M + w.length - 1, String.ofList w) :: chainKeywords (M + w.length) W

example : chainKeywords 1 [['i', 'f'], ['d', 'o']] = [(2, "if"), (4, "do")] := by
  decide

/-- What the word pass did to `b`, giving `b'`: the chains of the words `W` follow the states of
`b`, hung off state 0; their last states are terminal and carry the words; nothing else
changed. -/
structure ChainsAdded (b b' : Builder) (W : List (List Char)) : Prop where
  size_eq : b'.size = b.size + (W.map List.length).sum
  byName_eq : b'.byName = b.byName
  name?_eq : ∀ y, b'.view.name? y = b.view.name? y
  mem_rule : ∀ y p, p ∈ (b'.view.rule y).productions ↔
    p ∈ (b.view.rule y).productions ∨ ChainMove b.size W y p
  isTerminal_iff : ∀ y, b'.view.isTerminal y = true ↔
    b.view.isTerminal y = true ∨ ChainEnd b.size W y
  keywords_eq : b'.keywords = b.keywords ++ chainKeywords b.size W

theorem ChainsAdded.refl (b : Builder) : ChainsAdded b b [] :=
  ⟨by simp, rfl, fun _ => rfl, fun _ _ => by simp [ChainMove], fun _ => by simp [ChainEnd],
    by simp [chainKeywords]⟩

/-- Reading one more word after others: its chain follows theirs. -/
theorem ChainsAdded.addKeyword {b b₁ b' : Builder} (hs : b.Sound) {w : List Char}
    {last : Nat} (he : b.addKeyword (String.ofList w) = .ok (b₁, last)) {W : List (List Char)}
    (h : ChainsAdded b₁.start.1 b'.start.1 W) : ChainsAdded b.start.1 b'.start.1 (w :: W) := by
  have hK := KeywordAdded.of_addKeyword he
  have hlen : (String.ofList w).length = w.length := by
    rw [← String.length_toList, String.toList_ofList]
  have hpos : 0 < b₁.size := by
    rw [hK.size_eq]
    have := start_size_pos b
    rw [size_start] at this
    omega
  have h₁ : b₁.size = b.start.1.size + w.length := by
    rw [hK.size_eq, size_start, hlen]
  rw [start_eq_self hpos] at h
  refine ⟨?_, ?_, fun y => ?_, fun y p => ?_, fun y => ?_, ?_⟩
  · rw [h.size_eq, h₁, List.map_cons, List.sum_cons]
    omega
  · rw [h.byName_eq, hK.byName_eq, byName_start]
  · rw [h.name?_eq, name?_view_addKeyword he, name?_view_start]
  · rw [h.mem_rule, mem_rule_addKeyword he, rule_view_start, String.toList_ofList, h₁, ChainMove,
      or_assoc]
  · rw [h.isTerminal_iff, hK.isTerminal_iff, isTerminal_view_start, h₁, ChainEnd, or_assoc,
      hK.last_eq, h₁]
  · rw [h.keywords_eq, keywords_addKeyword hs he, keywords_start, chainKeywords, hK.last_eq, h₁,
      List.append_assoc, List.singleton_append]

/-- The word pass reads every non-empty word, hanging their chains off the start state in order. -/
theorem keywords_eq_ok {b : Builder} (hs : b.Sound) (W : List (List Char))
    (hW : ∀ w ∈ W, w ≠ []) :
    ∃ b', keywords b (W.map String.ofList) = .ok b' ∧ ChainsAdded b.start.1 b'.start.1 W := by
  induction W generalizing b with
  | nil => exact ⟨b, rfl, ChainsAdded.refl _⟩
  | cons w W ih =>
    have hw : String.ofList w ≠ "" := fun h => (hW w List.mem_cons_self) (by
      rw [← String.toList_ofList (l := w), h, String.toList_empty])
    obtain ⟨b₁, last, he, -⟩ := addKeyword_eq_ok (b := b) hw
    obtain ⟨b', hk, h⟩ := ih (hs.addKeyword he) fun w' hw' => hW w' (List.mem_cons_of_mem w hw')
    refine ⟨b', ?_, h.addKeyword hs he⟩
    simp only [List.map_cons, keywords, he]
    exact hk

/-! ## Reading a rule file -/

/-- Production `p` of state `q` is the meaning of an alternative of a grammar line whose head is
the `q`-th head state. -/
def HeadProduction (text : String) (q : Nat) (p : Production) : Prop :=
  ∃ compact ∈ grammarLines text, (headNames text).idxOf (headName compact) = q ∧
    ∃ alt ∈ (bodyOf compact).splitOn '|', AltMeans (headNames text) alt p

/-- The first state of the reserved words' chains: right after the head states, or after the
start state when there is none. -/
def chainsFrom (text : String) : Nat :=
  max (headNames text).length 1

/-- The specification a rule file describes. The head states come first, in order of first
appearance, with their names; then, from `chainsFrom text` on, the unnamed chains of the reserved
words, in file order. A state's productions are the meanings of the alternatives of its grammar
lines and the transitions of the chains; a state is terminal when one of those meanings is no
transition, or when it ends a chain; each chain's end carries its word. The alphabet lists, in
ascending order, the symbols that the alternatives read and the characters of the words. -/
structure Describes (text : String) (s : RuleSpec) : Prop where
  size_eq : s.size = chainsFrom text + ((wordLines text).map List.length).sum
  name?_eq : ∀ q, s.name? q = ((headNames text)[q]?).map String.ofList
  mem_rule_iff : ∀ q p, p ∈ (s.rule q).productions ↔
    HeadProduction text q p ∨ ChainMove (chainsFrom text) (wordLines text) q p
  isTerminal_iff : ∀ q, s.isTerminal q = true ↔
    (∃ p, HeadProduction text q p ∧ ∀ c t, p ≠ .transition c t) ∨
      ChainEnd (chainsFrom text) (wordLines text) q
  keywords_eq : s.keywords = chainKeywords (chainsFrom text) (wordLines text)
  alphabet_sorted : s.alphabet.Pairwise (· < ·)
  mem_alphabet_iff : ∀ c, c ∈ s.alphabet ↔
    (∃ q p, HeadProduction text q p ∧ p.symbol? = some c) ∨ ∃ w ∈ wordLines text, c ∈ w

theorem parse_eq_bind (text : String) :
    RuleSpec.parse text = entries text >>= fun es =>
      heads {} (es.filterMap Entry.grammar?) >>= fun r =>
        bodies r.1 r.2 >>= fun b => keywords b (es.filterMap Entry.word?) >>= Builder.build :=
  rfl

theorem grammarForm_iff {heads : List (List Char)} {compact : List Char} :
    GrammarForm heads compact ↔
      HeadForm compact ∧ ∀ alt ∈ (bodyOf compact).splitOn '|', ∃ p, AltMeans heads alt p := by
  constructor
  · rintro ⟨n, body, hc, hn, halts⟩
    exact ⟨⟨n, body, hc, hn⟩, bodyOf_eq hc hn ▸ halts⟩
  · rintro ⟨⟨n, body, hc, hn⟩, halts⟩
    exact ⟨n, body, hc, hn, bodyOf_eq hc hn ▸ halts⟩

theorem idxOf_headName_lt {text : String} {compact : List Char} (h : compact ∈ grammarLines text) :
    (headNames text).idxOf (headName compact) < (headNames text).length :=
  List.idxOf_lt_length_of_mem (List.mem_eraseDups.2 (List.mem_map_of_mem h))

section Passes

variable {text : String} {G : List (Nat × List Char)} (hG : G.map Prod.snd = grammarLines text)
include hG

/-- The head pass over the grammar lines of a rule file succeeds exactly when each starts with
`<name>::=`, and then mints its head states. -/
theorem heads_eq_ok_iff_headForm (r : Builder × List (Nat × Nat × List Char)) :
    heads {} G = .ok r ↔ (∀ compact ∈ grammarLines text, HeadForm compact) ∧
      r = (ofHeads (headNames text),
        G.map fun e => (e.1, (headNames text).idxOf (headName e.2), bodyOf e.2)) := by
  have hH : (([] : List (List Char)) ++ G.map fun e => headName e.2).eraseDups =
      headNames text := by
    rw [List.nil_append, headNames, ← hG, List.map_map]
    rfl
  have h := heads_eq_ok_iff [] G r
  rw [List.eraseDups_nil, ofHeads_nil, hH] at h
  rw [← hG, List.forall_mem_map]
  exact h

/-- The body pass after the head pass succeeds exactly when every alternative means a
production. -/
theorem bodies_headNames_eq_ok_iff :
    (∃ b, bodies (ofHeads (headNames text))
        (G.map fun e => (e.1, (headNames text).idxOf (headName e.2), bodyOf e.2)) = .ok b) ↔
      ∀ compact ∈ grammarLines text, ∀ alt ∈ (bodyOf compact).splitOn '|',
        ∃ p, AltMeans (headNames text) alt p := by
  have hq : ∀ e : Nat × Nat × List Char,
      e ∈ G.map (fun e => (e.1, (headNames text).idxOf (headName e.2), bodyOf e.2)) →
        e.2.1 < (ofHeads (headNames text)).size := by
    rw [List.forall_mem_map, size_ofHeads]
    intro e he
    exact idxOf_headName_lt (hG ▸ List.mem_map_of_mem he)
  rw [bodies_eq_ok_iff (lookup_ofHeads _) hq, List.forall_mem_map, ← hG, List.forall_mem_map]

/-- The body pass after the head pass adds to each head state the meanings of the alternatives of
its grammar lines. -/
theorem bodies_headNames_eq_ok {b : Builder}
    (h : bodies (ofHeads (headNames text))
      (G.map fun e => (e.1, (headNames text).idxOf (headName e.2), bodyOf e.2)) = .ok b) :
    RulesAdded (ofHeads (headNames text)) b (HeadProduction text) := by
  refine (bodies_eq_ok (lookup_ofHeads _) h).congr fun y p => ?_
  simp only [HeadProduction, ← hG, List.mem_map, exists_exists_and_eq_and]
  constructor
  · rintro ⟨e, he, rfl, halt⟩
    exact ⟨e, he, rfl, halt⟩
  · rintro ⟨e, he, rfl, halt⟩
    exact ⟨e, he, rfl, halt⟩

end Passes

theorem ne_nil_of_mem_wordLines {text : String} {w : List Char} (h : w ∈ wordLines text) :
    w ≠ [] := by
  simp only [wordLines, filledLines, List.mem_filter, decide_eq_true_eq] at h
  exact h.1.2

@[simp]
theorem rule_view_ofHeads (H : List (List Char)) (q : Nat) : (ofHeads H).view.rule q = {} := by
  simp only [view, RuleSpec.rule, ofHeads, Array.getD_eq_getD_getElem?, Array.getElem?_replicate]
  split <;> rfl

theorem name?_view_ofHeads (H : List (List Char)) (q : Nat) :
    (ofHeads H).view.name? q = H[q]?.map String.ofList := by
  simp only [view, RuleSpec.name?, ofHeads, List.getElem?_toArray, List.getElem?_map]
  cases H[q]? <;> rfl

/-- The symbols that the chains read are the characters of the words. -/
theorem exists_chainMove_symbol_iff (M : Nat) (W : List (List Char)) (c : Char) :
    (∃ y p, ChainMove M W y p ∧ p.symbol? = some c) ↔ ∃ w ∈ W, c ∈ w := by
  induction W generalizing M with
  | nil => simp [ChainMove]
  | cons w W ih =>
    have hcons : (∃ w' ∈ w :: W, c ∈ w') ↔ c ∈ w ∨ ∃ w' ∈ W, c ∈ w' := by simp
    rw [hcons, ← ih (M + w.length)]
    simp only [ChainMove, or_and_right, exists_or]
    apply or_congr_left
    constructor
    · rintro ⟨y, p, ⟨k, d, hk, rfl, -⟩, hs⟩
      simp only [Production.symbol?, Option.some.injEq] at hs
      subst hs
      exact List.mem_of_getElem? hk
    · intro hc
      obtain ⟨k, hk⟩ := List.mem_iff_getElem?.1 hc
      exact ⟨_, _, ⟨k, c, hk, rfl, rfl⟩, rfl⟩

/-- What the passes did gives the description: the body pass added the meanings of the
alternatives to the head states, and the word pass hung the chains after them. -/
theorem Describes.of_passes {text : String} {b₁ b₂ : Builder} {s : RuleSpec}
    (hA : RulesAdded (ofHeads (headNames text)) b₁ (HeadProduction text))
    (hC : ChainsAdded b₁.start.1 b₂.start.1 (wordLines text)) (h : b₂.build = .ok s) :
    Describes text s := by
  obtain ⟨rfl, hsorted, halpha⟩ := build_eq_ok h
  -- the chains start after the head states, or after the start state minted for them
  have hM : b₁.start.1.size = chainsFrom text := by
    rw [size_start, hA.size_eq, size_ofHeads, chainsFrom]
    split <;> omega
  have hrule : ∀ q p, p ∈ (b₂.start.1.view.rule q).productions ↔
      HeadProduction text q p ∨ ChainMove (chainsFrom text) (wordLines text) q p := by
    intro q p
    rw [hC.mem_rule, rule_view_start, hA.mem_rule, rule_view_ofHeads, hM]
    simp
  refine ⟨?_, fun q => ?_, hrule, fun q => ?_, ?_, hsorted, fun c => ?_⟩
  · show b₂.start.1.size = _
    rw [hC.size_eq, hM]
  · rw [hC.name?_eq, name?_view_start]
    show (b₁.names[q]?).getD none = _
    rw [hA.names_eq]
    exact name?_view_ofHeads _ q
  · rw [hC.isTerminal_iff, isTerminal_view_start, hA.isTerminal_iff, hM]
    simp [view, RuleSpec.isTerminal, ofHeads]
  · show b₂.start.1.keywords = _
    rw [hC.keywords_eq, keywords_start, hA.keywords_eq, hM]
    rfl
  · rw [halpha]
    simp only [hrule, or_and_right, exists_or, exists_chainMove_symbol_iff]

/-- A rule file that reads is well written, and reads to the specification it describes. -/
theorem parse_eq_ok_spec {text : String} {s : RuleSpec} (h : RuleSpec.parse text = .ok s) :
    WellWritten text ∧ Describes text s := by
  rw [parse_eq_bind] at h
  obtain ⟨es, hes, h⟩ := Except.bind_eq_ok.1 h
  obtain ⟨hG, hW⟩ := entries_eq_ok hes
  obtain ⟨r, hr, h⟩ := Except.bind_eq_ok.1 h
  obtain ⟨hhead, rfl⟩ := (heads_eq_ok_iff_headForm hG r).1 hr
  obtain ⟨b₁, hb₁, h⟩ := Except.bind_eq_ok.1 h
  obtain ⟨b₂, hb₂, h⟩ := Except.bind_eq_ok.1 h
  have halts := (bodies_headNames_eq_ok_iff hG).1 ⟨b₁, hb₁⟩
  refine ⟨⟨fun compact hc => grammarForm_iff.2 ⟨hhead compact hc, halts compact hc⟩,
    (entries_eq_ok_iff text).1 ⟨es, hes⟩⟩, ?_⟩
  -- the word pass reads the reserved words of the text
  have hp₁ := parsing_bodies (parsing_heads parsing_empty hr) hb₁
  rw [hW] at hb₂
  obtain ⟨b₂', hb₂', hC⟩ := keywords_eq_ok hp₁.sound (wordLines text)
    fun w hw => ne_nil_of_mem_wordLines hw
  rw [hb₂] at hb₂'
  cases hb₂'
  exact Describes.of_passes (bodies_headNames_eq_ok hG hb₁) hC h

/-- A well-written rule file reads: the word pass cannot fail, and every transition leads to a
state, so building succeeds. -/
theorem parse_ok_of_wellWritten {text : String} (h : WellWritten text) :
    ∃ s, RuleSpec.parse text = .ok s := by
  obtain ⟨hgram, hwords⟩ := h
  obtain ⟨es, hes⟩ := (entries_eq_ok_iff text).2 hwords
  obtain ⟨hG, hW⟩ := entries_eq_ok hes
  have hr := (heads_eq_ok_iff_headForm hG _).2
    ⟨fun c hc => (grammarForm_iff.1 (hgram c hc)).1, rfl⟩
  obtain ⟨b₁, hb₁⟩ := (bodies_headNames_eq_ok_iff hG).2
    fun c hc => (grammarForm_iff.1 (hgram c hc)).2
  have hp₁ := parsing_bodies (parsing_heads parsing_empty hr) hb₁
  obtain ⟨b₂, hb₂, -⟩ := keywords_eq_ok hp₁.sound (wordLines text)
    fun w hw => ne_nil_of_mem_wordLines hw
  obtain ⟨hc, hk⟩ := chained_heads chained_empty rfl hr
  obtain ⟨hc₁, -⟩ := chained_bodies hc hk hb₁
  obtain ⟨hc₂, -⟩ := chained_keywords hp₁ hc₁ hb₂
  cases hs : b₂.build with
  | error e =>
    obtain ⟨y, d, x, hm, hx⟩ := build_eq_error_iff.1 ⟨e, hs⟩
    exact absurd (hc₂.target_lt hm) (Nat.not_lt.2 hx)
  | ok s =>
    refine ⟨s, ?_⟩
    rw [parse_eq_bind]
    exact Except.bind_eq_ok.2 ⟨es, hes, Except.bind_eq_ok.2 ⟨_, hr, Except.bind_eq_ok.2
      ⟨b₁, hb₁, Except.bind_eq_ok.2 ⟨b₂, by rw [hW]; exact hb₂, hs⟩⟩⟩⟩

end RuleFile

/-- A rule file reads exactly when it is well written: its grammar lines, blanks deleted, have the
form `<name>::=alt|…|alt` with a meaning for every alternative, and its other non-blank lines are
single words. It then reads to the specification its text describes: the head states in order of
first appearance, then a chain for each reserved word in file order. -/
theorem RuleSpec.parse_ok_iff_wellWritten (text : String) :
    ((∃ s, RuleSpec.parse text = .ok s) ↔ RuleFile.WellWritten text) ∧
      ∀ s, RuleSpec.parse text = .ok s → RuleFile.Describes text s :=
  ⟨⟨fun ⟨_, h⟩ => (RuleFile.parse_eq_ok_spec h).1, RuleFile.parse_ok_of_wellWritten⟩,
    fun _ h => (RuleFile.parse_eq_ok_spec h).2⟩

end LexLR
