import Mathlib.Data.List.Forall2
import LexLR.Proofs.JsonTokens
import LexLR.Json.Read
/-!
# Written JSON reads back to its document

The tokens of a value, read from any place where a value may stand, complete that value; an
array's or an object's tokens complete the container of the items' values. Together with the
scanner this says what a written text is read as: `Writes bytes d` holds when the bytes scan to
tokens that read to `d`. Quoted texts, numerals, and brackets around written values are read back
as the text, the number and the container (`writesIdle_quote`, `writes_nat`, `writesIdle_array`,
`writesIdle_object`), and a whole text so written is read as its document (`read_eq_some`).
The typed field readers take such documents back to the values written.
-/

namespace LexLR.Json

namespace Reader

/-- The tokens `ts` complete the value `d` wherever a value may start. -/
def ReadsTo (ts : List Token) (d : Doc) : Prop :=
  ∀ stack e, (e = .value ∨ e = .valueOrClose) →
    ts.foldlM push ⟨stack, e⟩ = complete stack d

/-- The tokens `ts` add the member `k : d` to the innermost object wherever a key may start. -/
def MemberReadsTo (ts : List Token) (k : String) (d : Doc) : Prop :=
  ∀ members stack e, (e = .keyOrClose ∨ e = .key) →
    ts.foldlM push ⟨.object members none :: stack, e⟩ =
      some ⟨.object ((some k, d) :: members) none :: stack, .commaOrClose⟩

theorem readsTo_scalar (d : Doc) : ReadsTo [.scalar d] d := by
  rintro stack e (rfl | rfl) <;> simp [push, value]

theorem ReadsTo.member {ts : List Token} {d : Doc} (h : ReadsTo ts d) (k : String) :
    MemberReadsTo (.scalar (.str (some k)) :: .colon :: ts) k d := by
  rintro members stack e (rfl | rfl) <;>
    simp [push, h _ .value (.inl rfl), complete]

/-- Values separated by commas, read into an open array that holds `items`, last first. -/
theorem foldlM_items {tss : List (List Token)} {ds : List Doc} (h : List.Forall₂ ReadsTo tss ds)
    (hne : tss ≠ []) (items : List Doc) (stack : List Frame) {e : Expect}
    (he : e = .value ∨ e = .valueOrClose) :
    (List.intercalate [Token.comma] tss ++ [Token.closeArray]).foldlM push
        ⟨.array items :: stack, e⟩ =
      complete stack (.arr (items.reverse ++ ds)) := by
  induction h generalizing items e with
  | nil => exact absurd rfl hne
  | @cons ts d tss ds hx hrest ih =>
    cases hrest with
    | nil =>
      rw [List.intercalate_singleton, List.foldlM_append, hx _ _ he]
      simp [complete, push, close]
    | @cons ts' d' tss' ds' hy hrest' =>
      -- the first value joins the array, and the comma asks for the next
      have hc : complete (.array items :: stack) d =
          some ⟨.array (d :: items) :: stack, .commaOrClose⟩ := rfl
      have hcomma : push ⟨.array (d :: items) :: stack, .commaOrClose⟩ .comma =
          some ⟨.array (d :: items) :: stack, .value⟩ := rfl
      rw [List.intercalate_cons_cons, List.append_assoc, List.append_assoc, List.foldlM_append,
        hx _ _ he]
      simp only [hc, hcomma, Option.bind_eq_bind, Option.bind_some, List.cons_append,
        List.nil_append, List.foldlM_cons]
      rw [ih (List.cons_ne_nil _ _) (d :: items) (.inl rfl)]
      simp

theorem readsTo_array {tss : List (List Token)} {ds : List Doc}
    (h : List.Forall₂ ReadsTo tss ds) :
    ReadsTo (.openArray :: List.intercalate [.comma] tss ++ [.closeArray]) (.arr ds) := by
  intro stack e he
  have hopen : push ⟨stack, e⟩ .openArray = some ⟨.array [] :: stack, .valueOrClose⟩ := by
    rcases he with rfl | rfl <;> rfl
  rw [List.cons_append, List.foldlM_cons, hopen]
  cases h with
  | nil => simp [push, close]
  | cons hx hrest =>
    simpa using foldlM_items (.cons hx hrest) (List.cons_ne_nil _ _) [] stack (.inr rfl)

/-- Members separated by commas, read into an open object that holds `members`, last first. -/
theorem foldlM_members {tss : List (List Token)} {kds : List (String × Doc)}
    (h : List.Forall₂ (fun ts kd => MemberReadsTo ts kd.1 kd.2) tss kds) (hne : tss ≠ [])
    (members : List (Option String × Doc)) (stack : List Frame) {e : Expect}
    (he : e = .keyOrClose ∨ e = .key) :
    (List.intercalate [Token.comma] tss ++ [Token.closeObject]).foldlM push
        ⟨.object members none :: stack, e⟩ =
      complete stack (.obj (members.reverse ++ kds.map fun kd => (some kd.1, kd.2))) := by
  induction h generalizing members e with
  | nil => exact absurd rfl hne
  | @cons ts kd tss kds hx hrest ih =>
    cases hrest with
    | nil =>
      rw [List.intercalate_singleton, List.foldlM_append, hx _ _ _ he]
      simp [push, close]
    | @cons ts' kd' tss' kds' hy hrest' =>
      -- the first member joins the object, and the comma asks for the next key
      have hcomma :
          push ⟨.object ((some kd.1, kd.2) :: members) none :: stack, .commaOrClose⟩ .comma =
            some ⟨.object ((some kd.1, kd.2) :: members) none :: stack, .key⟩ := rfl
      rw [List.intercalate_cons_cons, List.append_assoc, List.append_assoc, List.foldlM_append,
        hx _ _ _ he]
      simp only [hcomma, Option.bind_eq_bind, Option.bind_some, List.cons_append,
        List.nil_append, List.foldlM_cons]
      rw [ih (List.cons_ne_nil _ _) ((some kd.1, kd.2) :: members) (.inr rfl)]
      simp

theorem readsTo_object {tss : List (List Token)} {kds : List (String × Doc)}
    (h : List.Forall₂ (fun ts kd => MemberReadsTo ts kd.1 kd.2) tss kds) :
    ReadsTo (.openObject :: List.intercalate [.comma] tss ++ [.closeObject])
      (.obj (kds.map fun kd => (some kd.1, kd.2))) := by
  intro stack e he
  have hopen :
      push ⟨stack, e⟩ .openObject = some ⟨.object [] none :: stack, .keyOrClose⟩ := by
    rcases he with rfl | rfl <;> rfl
  rw [List.cons_append, List.foldlM_cons, hopen]
  cases h with
  | nil => simp [push, close]
  | cons hx hrest =>
    simpa using foldlM_members (.cons hx hrest) (List.cons_ne_nil _ _) [] stack (.inl rfl)

end Reader

/-! ### Written values -/

/-- Relating each item to the next through a middle value relates the lists through a middle
list. -/
theorem forall₂_exists {α β γ : Type} {P : α → γ → Prop} {Q : γ → β → Prop}
    {xs : List α}
    {ys : List β} (h : List.Forall₂ (fun x y => ∃ z, P x z ∧ Q z y) xs ys) :
    ∃ zs, List.Forall₂ P xs zs ∧ List.Forall₂ Q zs ys := by
  induction h with
  | nil => exact ⟨[], .nil, .nil⟩
  | cons hxy _ ih =>
    obtain ⟨z, hp, hq⟩ := hxy
    obtain ⟨zs, hps, hqs⟩ := ih
    exact ⟨z :: zs, .cons hp hps, .cons hq hqs⟩

/-- Bytes written for the value `d`: followed by a delimiter, they scan to tokens that read
to `d`. -/
def Writes (bytes : List UInt8) (d : Doc) : Prop :=
  ∃ ts, ScansTo bytes ts ∧ Reader.ReadsTo ts d

/-- Bytes written for the value `d` that end between tokens, as a string or a container does. -/
def WritesIdle (bytes : List UInt8) (d : Doc) : Prop :=
  ∃ ts, ScansIdle bytes ts ∧ Reader.ReadsTo ts d

/-- Bytes written for the member `kd.1 : kd.2` of an object. -/
def WritesMember (bytes : List UInt8) (kd : String × Doc) : Prop :=
  ∃ ts, ScansTo bytes ts ∧ Reader.MemberReadsTo ts kd.1 kd.2

variable {bytes : List UInt8} {d : Doc}

theorem WritesIdle.writes (h : WritesIdle bytes d) : Writes bytes d := by
  obtain ⟨ts, hs, hr⟩ := h
  exact ⟨ts, hs.scansTo, hr⟩

theorem writesIdle_quote (w : String) : WritesIdle (Utf8.encode (quote w)) (.str (some w)) :=
  ⟨_, scansIdle_quote w, Reader.readsTo_scalar _⟩

theorem writes_nat (n : Nat) : Writes (Utf8.encode (toString n)) (.num (some n)) :=
  ⟨_, scansTo_nat n, Reader.readsTo_scalar _⟩

theorem Writes.member (k : String) (h : Writes bytes d) :
    WritesMember (Utf8.encode (quote k) ++ [0x3A] ++ bytes) (k, d) := by
  obtain ⟨ts, hs, hr⟩ := h
  exact ⟨_, hs.member k, hr.member k⟩

theorem writesIdle_array {bytess : List (List UInt8)} {ds : List Doc}
    (h : List.Forall₂ Writes bytess ds) :
    WritesIdle ([0x5B] ++ List.intercalate [0x2C] bytess ++ [0x5D]) (.arr ds) := by
  obtain ⟨tss, hs, hr⟩ := forall₂_exists h
  exact ⟨_, scansIdle_container (fun _ => rfl) (fun _ => rfl) (.inr (.inl rfl)) hs,
    Reader.readsTo_array hr⟩

theorem writesIdle_object {bytess : List (List UInt8)} {kds : List (String × Doc)}
    (h : List.Forall₂ WritesMember bytess kds) :
    WritesIdle ([0x7B] ++ List.intercalate [0x2C] bytess ++ [0x7D])
      (.obj (kds.map fun kd => (some kd.1, kd.2))) := by
  obtain ⟨tss, hs, hr⟩ := forall₂_exists h
  exact ⟨_, scansIdle_container (fun _ => rfl) (fun _ => rfl) (.inr (.inr rfl)) hs,
    Reader.readsTo_object hr⟩

/-- A whole text written for a document is read as that document. -/
theorem read_eq_some (h : WritesIdle bytes d) : Doc.read bytes = some d := by
  obtain ⟨ts, hs, hr⟩ := h
  have htokens : tokens bytes = some ts := by
    simp [tokens, hs [], Scanner.finish]
  have hread : ts.foldlM Reader.push {} = some ⟨[], .finished d⟩ :=
    hr [] .value (.inl rfl)
  simp [Doc.read, htokens, hread, Reader.finish]

/-! ### Written texts -/

theorem encode_array (items : List String) :
    Utf8.encode (array items) =
      [0x5B] ++ List.intercalate [0x2C] (items.map Utf8.encode) ++ [0x5D] := by
  have hopen : Utf8.encode "[" = [0x5B] := by decide
  have hcomma : Utf8.encode "," = [0x2C] := by decide
  have hclose : Utf8.encode "]" = [0x5D] := by decide
  rw [array, encode_append, encode_append, encode_intercalate, hopen, hcomma, hclose]

theorem encode_object (fields : List (String × String)) :
    Utf8.encode (object fields) = [0x7B] ++ List.intercalate [0x2C]
      (fields.map fun f => Utf8.encode (quote f.1) ++ [0x3A] ++ Utf8.encode f.2) ++ [0x7D] := by
  have hopen : Utf8.encode "\x7b" = [0x7B] := by decide
  have hcomma : Utf8.encode "," = [0x2C] := by decide
  have hclose : Utf8.encode "\x7d" = [0x7D] := by decide
  have hcolon : Utf8.encode ":" = [0x3A] := by decide
  rw [object, encode_append, encode_append, encode_intercalate, List.map_map, hopen, hcomma, hclose]
  refine congrArg (fun l => [0x7B] ++ List.intercalate [0x2C] l ++ [0x7D]) ?_
  apply List.map_congr_left
  intro f _
  obtain ⟨k, v⟩ := f
  simp only [Function.comp_apply, encode_append, hcolon]

/-- An array of written values is read as the array of their documents. -/
theorem writesIdle_arrayText {items : List String} {ds : List Doc}
    (h : List.Forall₂ (fun v d => Writes (Utf8.encode v) d) items ds) :
    WritesIdle (Utf8.encode (array items)) (.arr ds) := by
  rw [encode_array]
  exact writesIdle_array (List.forall₂_map_left_iff.2 h)

/-- An object of written values is read as the object of their documents, keys in order. -/
theorem writesIdle_objectText {fields : List (String × String)} {kds : List (String × Doc)}
    (h : List.Forall₂ (fun f kd => f.1 = kd.1 ∧ Writes (Utf8.encode f.2) kd.2) fields kds) :
    WritesIdle (Utf8.encode (object fields)) (.obj (kds.map fun kd => (some kd.1, kd.2))) := by
  rw [encode_object]
  refine writesIdle_object (List.forall₂_map_left_iff.2 (h.imp fun f kd hfk => ?_))
  obtain ⟨hk, hw⟩ := hfk
  obtain ⟨k, d⟩ := kd
  simp only at hk
  subst hk
  exact hw.member f.1

/-- An array of values written one per item is read as the array of their documents. -/
theorem writesIdle_arrayText_map {α : Type} {f : α → String} {g : α → Doc} (l : List α)
    (h : ∀ x ∈ l, Writes (Utf8.encode (f x)) (g x)) :
    WritesIdle (Utf8.encode (array (l.map f))) (.arr (l.map g)) :=
  writesIdle_arrayText (List.forall₂_map_left_iff.2 (List.forall₂_map_right_iff.2
    (List.forall₂_same.2 h)))

/-! ### Typed fields -/

/-- Reading back what was written item by item gives the items. -/
theorem mapM_map_eq_some {α β : Type} {f : α → β} {g : β → Option α} {l : List α}
    (h : ∀ x ∈ l, g (f x) = some x) : (l.map f).mapM g = some l := by
  induction l with
  | nil => rfl
  | cons x l ih =>
    rw [List.map_cons, List.mapM_cons, h x List.mem_cons_self,
      ih fun y hy => h y (List.mem_cons_of_mem _ hy)]
    rfl

namespace Doc

theorem u64?_num {n : Nat} (h : n < 2 ^ 64) : u64? (.num (some n)) = some n := by
  simp only [u64?, natBelow?]
  rw [if_pos (by omega)]

theorem lt_of_u64? {d : Doc} {n : Nat} (h : d.u64? = some n) : n < 2 ^ 64 := by
  unfold u64? natBelow? at h
  split at h
  · split at h
    · cases h
      omega
    · cases h
  · cases h

theorem lt_of_mapM_u64? {ds : List Doc} {ns : List Nat} (h : ds.mapM u64? = some ns) :
    ∀ n ∈ ns, n < 2 ^ 64 := by
  induction ds generalizing ns with
  | nil =>
    cases h
    simp
  | cons d ds ih =>
    simp only [List.mapM_cons, Option.bind_eq_bind, Option.bind_eq_some_iff, Option.pure_def,
      Option.some.injEq] at h
    obtain ⟨n, hn, ns', hns', rfl⟩ := h
    intro x hx
    rcases List.mem_cons.1 hx with rfl | hx
    · exact lt_of_u64? hn
    · exact ih hns' x hx

theorem char?_singleton (c : Char) : char? (.str (some (String.singleton c))) = some c := by
  simp [char?, text?]

end Doc

end LexLR.Json
