import Mathlib.Tactic.IntervalCases
import LexLR.Json.Read
import LexLR.Json.Encoding
/-!
# Written JSON scans back to its tokens

The UTF-8 bytes of every character decode back to it, and every character, escaped as the writer
escapes it, is read back by the string scanner. So a quoted text scans to one string token holding
the text, a decimal numeral to one number token holding its value, and a bracketed list of written
values to its brackets, the values' tokens and the commas between them. Main statements:
`scansIdle_quote`, `scansTo_nat` and `scansIdle_container`.
-/

namespace LexLR

namespace Utf8

/-- Every character is a scalar value. -/
theorem isScalar_toNat (c : Char) : isScalar c.toNat = true := by
  have hv : c.toNat < 0xD800 ∨ (0xDFFF < c.toNat ∧ c.toNat < 0x110000) := by
    simpa [UInt32.isValidChar, Nat.isValidChar] using c.valid
  simp only [isScalar, Bool.or_eq_true, Bool.and_eq_true, decide_eq_true_eq]
  omega

theorem toNat_lt (c : Char) : c.toNat < 0x110000 := by
  have := isScalar_toNat c
  simp only [isScalar, Bool.or_eq_true, Bool.and_eq_true, decide_eq_true_eq] at this
  omega

namespace Decoder

variable {d : Decoder} {cs : List Char}

/-- A decoder between two characters: it holds `cs`, last first, and has seen nothing ill-formed
or unfinished. -/
structure Between (d : Decoder) (cs : List Char) : Prop where
  chars_eq : d.chars = cs
  need_eq : d.need = 0
  high_eq : d.high = none
  valid_eq : d.valid = true

theorem between_empty : ({} : Decoder).Between [] :=
  ⟨rfl, rfl, rfl, rfl⟩

@[simp]
theorem emit_toNat (d : Decoder) (c : Char) :
    d.emit c.toNat = { d with chars := c :: d.chars } := by
  simp [Decoder.emit, isScalar_toNat]

theorem Between.emit (h : d.Between cs) (c : Char) : (d.emit c.toNat).Between (c :: cs) := by
  obtain ⟨hc, hn, hh, hv⟩ := h
  simp only [Decoder.emit, isScalar_toNat, if_true, Char.ofNat_toNat]
  exact ⟨by rw [hc], hn, hh, hv⟩

/-- A UTF-16 unit below the surrogates is its character. -/
theorem Between.pushUnit (h : d.Between cs) {c : Char} (hc : c.toNat < 0xD800) :
    (d.pushUnit c.toNat).Between (c :: cs) := by
  have he := h.emit c
  obtain ⟨-, hn, hh, -⟩ := h
  simp only [Decoder.pushUnit, hn, hh, Nat.lt_irrefl, if_false, decide_eq_true_eq,
    Bool.and_eq_true]
  rw [if_neg (by omega), if_neg (by omega)]
  exact he

/-- A decoder in the middle of a character: `k` continuation bytes are still expected for a code
point whose leading bits are `v` and which must be at least `least`. -/
structure Pending (d : Decoder) (cs : List Char) (k v least : Nat) : Prop where
  chars_eq : d.chars = cs
  need_eq : d.need = k
  value_eq : d.value = v
  least_eq : d.least = least
  high_eq : d.high = none
  valid_eq : d.valid = true

variable {n : Nat}

/-- A byte below 0x80 is its character. -/
theorem Between.pushByte_ascii (h : d.Between cs) (hn : n < 0x80) :
    (d.pushByte n.toUInt8).Between (Char.ofNat n :: cs) := by
  have hb : n.toUInt8.toNat = n := UInt8.toNat_ofNat_of_lt' (show n < 256 by omega)
  obtain ⟨hc, hneed, hh, hv⟩ := h
  have hs : isScalar n = true := by simp [isScalar]; omega
  simp only [pushByte, hb, hh, hneed, Option.isSome_none, Nat.lt_irrefl, if_false, hn, if_true,
    Bool.false_eq_true, Decoder.emit, hs]
  exact ⟨by rw [hc], rfl, rfl, hv⟩

/-- A lead byte of a sequence of `k + 1` bytes, from `m` on, opens a character. -/
theorem Between.pushByte_lead (h : d.Between cs) {k m : Nat}
    (hk : (k = 1 ∧ m = 0xC0) ∨ (k = 2 ∧ m = 0xE0) ∨ (k = 3 ∧ m = 0xF0))
    (hn1 : m ≤ n) (hn2 : n < m + 0x20 / 2 ^ (k - 1)) :
    (d.pushByte n.toUInt8).Pending cs k (n - m)
      (if k = 1 then 0x80 else if k = 2 then 0x800 else 0x10000) := by
  have hb : n.toUInt8.toNat = n :=
    UInt8.toNat_ofNat_of_lt' (show n < 256 by
      rcases hk with ⟨rfl, rfl⟩ | ⟨rfl, rfl⟩ | ⟨rfl, rfl⟩ <;> omega)
  obtain ⟨hc, hneed, hh, hv⟩ := h
  simp only [pushByte, hb, hh, hneed, Option.isSome_none, Nat.lt_irrefl, if_false,
    Bool.false_eq_true, Bool.and_eq_true, decide_eq_true_eq]
  rcases hk with ⟨rfl, rfl⟩ | ⟨rfl, rfl⟩ | ⟨rfl, rfl⟩
  · rw [if_neg (by omega), if_pos (by omega)]
    exact ⟨hc, rfl, rfl, rfl, rfl, hv⟩
  · rw [if_neg (by omega), if_neg (by omega), if_pos (by omega)]
    exact ⟨hc, rfl, rfl, rfl, rfl, hv⟩
  · rw [if_neg (by omega), if_neg (by omega), if_neg (by omega), if_pos (by omega)]
    exact ⟨hc, rfl, rfl, rfl, rfl, hv⟩

/-- A continuation byte that is not the last adds six bits. -/
theorem Pending.pushByte_more {k v least : Nat} (h : d.Pending cs (k + 2) v least)
    (hn1 : 0x80 ≤ n) (hn2 : n < 0xC0) :
    (d.pushByte n.toUInt8).Pending cs (k + 1) (v * 64 + (n - 0x80)) least := by
  have hb : n.toUInt8.toNat = n := UInt8.toNat_ofNat_of_lt' (show n < 256 by omega)
  obtain ⟨hc, hneed, hv, hl, hh, hval⟩ := h
  simp only [pushByte, hb, hh, hneed, hv, Option.isSome_none, Bool.false_eq_true, if_false,
    Bool.and_eq_true, decide_eq_true_eq]
  rw [if_pos (by omega), if_pos ⟨hn1, hn2⟩, if_neg (by omega)]
  exact ⟨hc, show k + 2 - 1 = k + 1 by omega, rfl, hl, rfl, hval⟩

/-- The last continuation byte ends the character, which is no overlong form. -/
theorem Pending.pushByte_last {v least : Nat} (h : d.Pending cs 1 v least)
    (hn1 : 0x80 ≤ n) (hn2 : n < 0xC0) {c : Char}
    (hc : v * 64 + (n - 0x80) = c.toNat) (hle : least ≤ c.toNat) :
    (d.pushByte n.toUInt8).Between (c :: cs) := by
  have hb : n.toUInt8.toNat = n := UInt8.toNat_ofNat_of_lt' (show n < 256 by omega)
  obtain ⟨hcs, hneed, hv, hl, hh, hval⟩ := h
  simp only [pushByte, hb, hh, hneed, hv, hl, Option.isSome_none, Bool.false_eq_true, if_false,
    Bool.and_eq_true, decide_eq_true_eq]
  rw [if_pos (by omega), if_pos ⟨hn1, hn2⟩, if_pos trivial, hc, if_neg (by omega)]
  simp only [emit_toNat]
  exact ⟨by rw [hcs], rfl, hh, hval⟩

/-- The UTF-8 bytes of a character decode to it. -/
theorem Between.encodeChar (h : d.Between cs) (c : Char) :
    ((Utf8.encodeChar c).foldl pushByte d).Between (c :: cs) := by
  have hlt := toNat_lt c
  unfold Utf8.encodeChar
  by_cases h1 : c.toNat < 0x80
  · simp only [h1, if_true, List.foldl_cons, List.foldl_nil]
    simpa only [Char.ofNat_toNat] using h.pushByte_ascii h1
  -- a lead byte carrying the top bits, then continuation bytes of six bits each
  by_cases h2 : c.toNat < 0x800
  · simp only [h1, h2, if_true, if_false, List.foldl_cons, List.foldl_nil]
    have h₁ := h.pushByte_lead (n := 0xC0 + c.toNat / 64) (.inl ⟨rfl, rfl⟩) (by omega)
      (by omega)
    exact h₁.pushByte_last (by omega) (by omega) (by omega) (by simp; omega)
  by_cases h3 : c.toNat < 0x10000
  · simp only [h1, h2, h3, if_true, if_false, List.foldl_cons, List.foldl_nil]
    have h₁ := h.pushByte_lead (n := 0xE0 + c.toNat / 4096) (.inr (.inl ⟨rfl, rfl⟩))
      (by omega) (by omega)
    have h₂ := h₁.pushByte_more (k := 0) (n := 0x80 + c.toNat / 64 % 64) (by omega) (by omega)
    exact h₂.pushByte_last (by omega) (by omega) (by omega) (by simp; omega)
  · simp only [h1, h2, h3, if_false, List.foldl_cons, List.foldl_nil]
    have h₁ := h.pushByte_lead (n := 0xF0 + c.toNat / 262144) (.inr (.inr ⟨rfl, rfl⟩))
      (by omega) (by omega)
    have h₂ := h₁.pushByte_more (k := 1) (n := 0x80 + c.toNat / 4096 % 64) (by omega) (by omega)
    have h₃ := h₂.pushByte_more (k := 0) (n := 0x80 + c.toNat / 64 % 64) (by omega) (by omega)
    exact h₃.pushByte_last (by omega) (by omega) (by omega) (by simp; omega)

end Decoder

/-- Every byte of a character from U+0080 on is at least 0x80. -/
theorem le_of_mem_encodeChar {c : Char} (hc : 0x80 ≤ c.toNat) {b : UInt8}
    (hb : b ∈ Utf8.encodeChar c) : 0x80 ≤ b.toNat := by
  have hlt := toNat_lt c
  unfold Utf8.encodeChar at hb
  simp only [Nat.not_lt.2 hc, if_false] at hb
  split at hb
  · simp only [List.mem_cons, List.not_mem_nil, or_false] at hb
    rcases hb with rfl | rfl <;> simp <;> omega
  · split at hb
    · simp only [List.mem_cons, List.not_mem_nil, or_false] at hb
      rcases hb with rfl | rfl | rfl <;> simp <;> omega
    · simp only [List.mem_cons, List.not_mem_nil, or_false] at hb
      rcases hb with rfl | rfl | rfl | rfl <;> simp <;> omega

theorem encodeChar_of_lt {c : Char} (hc : c.toNat < 0x80) :
    Utf8.encodeChar c = [c.toNat.toUInt8] := by
  simp [Utf8.encodeChar, hc]

end Utf8

namespace Json

open Utf8

/-! ### Strings -/

/-- The bytes a string holds for one character. -/
def escapeBytes (c : Char) : List UInt8 :=
  (escapeChar c).flatMap Utf8.encodeChar

/-- The byte of a hexadecimal digit. -/
def hexByte (n : Nat) : UInt8 :=
  (hexDigit n).toNat.toUInt8

theorem hexValue_hexByte {n : Nat} (hn : n < 16) : hexValue (hexByte n) = some n := by
  interval_cases n <;> rfl

theorem simpleEscape_ne {b : UInt8} {u : Nat} (h : simpleEscape b = some u) : b.toNat ≠ 0x75 := by
  intro hb
  simp [simpleEscape, hb] at h

/-- A character stands in a string as its own bytes, none of them a quote, a backslash or a
control byte; as a backslash and a one-byte escape; or as a backslash, `u00` and two
hexadecimal digits. -/
theorem escapeBytes_cases (c : Char) :
    (escapeBytes c = Utf8.encodeChar c ∧
      ∀ b ∈ escapeBytes c, 0x20 ≤ b.toNat ∧ b.toNat ≠ 0x22 ∧ b.toNat ≠ 0x5C) ∨
    (∃ e, escapeBytes c = [0x5C, e] ∧ simpleEscape e = some c.toNat) ∨
    (c.toNat < 0x20 ∧
      escapeBytes c =
        [0x5C, 0x75, 0x30, 0x30, hexByte (c.toNat / 16), hexByte (c.toNat % 16)]) := by
  unfold escapeBytes escapeChar
  -- the seven characters with a one-byte escape
  by_cases h1 : c = '"'
  · subst h1; exact .inr (.inl ⟨_, rfl, rfl⟩)
  by_cases h2 : c = '\\'
  · subst h2; exact .inr (.inl ⟨_, rfl, rfl⟩)
  by_cases h3 : c = '\n'
  · subst h3; exact .inr (.inl ⟨_, rfl, rfl⟩)
  by_cases h4 : c = '\r'
  · subst h4; exact .inr (.inl ⟨_, rfl, rfl⟩)
  by_cases h5 : c = '\t'
  · subst h5; exact .inr (.inl ⟨_, rfl, rfl⟩)
  by_cases h6 : c = '\x08'
  · subst h6; exact .inr (.inl ⟨_, rfl, rfl⟩)
  by_cases h7 : c = '\x0c'
  · subst h7; exact .inr (.inl ⟨_, rfl, rfl⟩)
  rw [if_neg h1, if_neg h2, if_neg h3, if_neg h4, if_neg h5, if_neg h6, if_neg h7]
  by_cases h8 : c.toNat < 0x20
  · -- a control character: its two digits are ASCII
    rw [if_pos h8]
    have hd : ∀ n, n < 16 → Utf8.encodeChar (hexDigit n) = [hexByte n] := fun n hn => by
      interval_cases n <;> rfl
    refine .inr (.inr ⟨h8, ?_⟩)
    simp only [List.flatMap_cons, List.flatMap_nil, List.append_nil,
      hd _ (show c.toNat / 16 < 16 by omega), hd _ (show c.toNat % 16 < 16 by omega)]
    rfl
  · rw [if_neg h8]
    refine .inl ⟨by simp, fun b hb => ?_⟩
    simp only [List.flatMap_cons, List.flatMap_nil, List.append_nil] at hb
    have hq : c.toNat ≠ 0x22 := fun h => h1 (Char.toNat_inj.1 h)
    have hs : c.toNat ≠ 0x5C := fun h => h2 (Char.toNat_inj.1 h)
    by_cases ha : c.toNat < 0x80
    · rw [encodeChar_of_lt ha, List.mem_singleton] at hb
      subst hb
      rw [UInt8.toNat_ofNat_of_lt' (show c.toNat < 256 by omega)]
      omega
    · have := le_of_mem_encodeChar (Nat.le_of_not_lt ha) hb
      omega

namespace Scanner

/-- The scanner inside a string, between characters, with the characters `cs` read so far (last
first) and the tokens `ts` before the string. -/
def InText (s : Scanner) (cs : List Char) (ts : List Token) : Prop :=
  ∃ d : Decoder, s = ⟨.text d .none, ts⟩ ∧ d.Between cs

variable {s : Scanner} {cs : List Char} {ts : List Token}

/-- A byte inside a string that is no quote, backslash or control byte goes to the decoder. -/
theorem push_text_plain (d : Decoder) {b : UInt8}
    (h : 0x20 ≤ b.toNat ∧ b.toNat ≠ 0x22 ∧ b.toNat ≠ 0x5C) :
    push ⟨.text d .none, ts⟩ b = ⟨.text (d.pushByte b) .none, ts⟩ := by
  obtain ⟨h1, h2, h3⟩ := h
  simp only [push, h2, h3, if_false]
  rw [if_neg (by omega)]

theorem foldl_push_text_plain (d : Decoder) {bytes : List UInt8}
    (h : ∀ b ∈ bytes, 0x20 ≤ b.toNat ∧ b.toNat ≠ 0x22 ∧ b.toNat ≠ 0x5C) :
    bytes.foldl push ⟨.text d .none, ts⟩ =
      ⟨.text (bytes.foldl Decoder.pushByte d) .none, ts⟩ := by
  induction bytes generalizing d with
  | nil => rfl
  | cons b bs ih =>
    rw [List.foldl_cons, push_text_plain d (h b List.mem_cons_self),
      ih _ fun b hb => h b (List.mem_cons_of_mem _ hb)]
    rfl

/-- The bytes the writer puts in a string for a character read it back. -/
theorem InText.escapeBytes (h : InText s cs ts) (c : Char) :
    InText ((escapeBytes c).foldl push s) (c :: cs) ts := by
  obtain ⟨d, rfl, hd⟩ := h
  rcases escapeBytes_cases c with ⟨he, hplain⟩ | ⟨e, he, hesc⟩ | ⟨hc, he⟩
  · refine ⟨_, foldl_push_text_plain d hplain, ?_⟩
    rw [he]
    exact hd.encodeChar c
  · have hu := simpleEscape_ne hesc
    refine ⟨d.pushUnit c.toNat, ?_, hd.pushUnit (by
      simp only [simpleEscape] at hesc
      split at hesc <;> simp at hesc <;> omega)⟩
    rw [he]
    simp [push, hu, hesc]
  · have h16 : c.toNat / 16 < 16 := by omega
    have hl16 : c.toNat % 16 < 16 := by omega
    refine ⟨d.pushUnit c.toNat, ?_, hd.pushUnit (by omega)⟩
    rw [he]
    simp only [List.foldl_cons, List.foldl_nil]
    have h0 : hexValue 0x30 = some 0 := rfl
    simp [push, hexValue_hexByte h16, hexValue_hexByte hl16, h0, Nat.div_add_mod']

theorem InText.escaped (h : InText s cs ts) (l : List Char) :
    InText ((l.flatMap Json.escapeBytes).foldl push s) (l.reverse ++ cs) ts := by
  induction l generalizing s cs with
  | nil => exact h
  | cons c l ih =>
    rw [List.flatMap_cons, List.foldl_append, List.reverse_cons, List.append_assoc]
    exact ih (h.escapeBytes c)

end Scanner

/-- From between tokens, the bytes scan to the tokens `ts` and leave the scanner between tokens. -/
def ScansIdle (bytes : List UInt8) (ts : List Token) : Prop :=
  ∀ acc, bytes.foldl Scanner.push ⟨.idle, acc⟩ = ⟨.idle, ts.reverse ++ acc⟩

/-- A byte that may follow a value inside a container: a comma or a closing bracket. -/
def IsDelimiter (b : UInt8) : Prop :=
  b = 0x2C ∨ b = 0x5D ∨ b = 0x7D

/-- From between tokens, the bytes followed by a delimiter scan to the tokens `ts` and then the
delimiter. A number needs the byte after it to end. -/
def ScansTo (bytes : List UInt8) (ts : List Token) : Prop :=
  ∀ acc b, IsDelimiter b →
    (bytes ++ [b]).foldl Scanner.push ⟨.idle, acc⟩ =
      Scanner.idle ⟨.idle, ts.reverse ++ acc⟩ b

theorem ScansIdle.scansTo {bytes : List UInt8} {ts : List Token} (h : ScansIdle bytes ts) :
    ScansTo bytes ts := by
  intro acc b _
  rw [List.foldl_append, h acc]
  rfl

theorem encode_append (s t : String) : Utf8.encode (s ++ t) = Utf8.encode s ++ Utf8.encode t := by
  simp [Utf8.encode, String.toList_append]

/-- A quoted text scans to one string token holding the text. -/
theorem scansIdle_quote (w : String) :
    ScansIdle (Utf8.encode (quote w)) [.scalar (.str (some w))] := by
  intro acc
  have hbytes : Utf8.encode (quote w) = [0x22] ++ w.toList.flatMap escapeBytes ++ [0x22] := by
    rw [Utf8.encode, quote, String.toList_ofList, List.cons_append, List.flatMap_cons,
      List.flatMap_append, List.flatMap_assoc]
    rfl
  rw [hbytes, List.foldl_append, List.foldl_append]
  have hopen : [(0x22 : UInt8)].foldl Scanner.push ⟨.idle, acc⟩ = ⟨.text {} .none, acc⟩ :=
    rfl
  obtain ⟨d, hd, hb⟩ := (show Scanner.InText ⟨.text {} .none, acc⟩ [] acc from
    ⟨{}, rfl, Decoder.between_empty⟩).escaped w.toList
  rw [hopen, hd]
  obtain ⟨hc, hn, hh, hv⟩ := hb
  simp [Scanner.push, Scanner.emit, Decoder.finish, hc, hn, hh, hv]

/-! ### Numbers -/

theorem digitChar_toNat {d : Nat} (hd : d < 10) : (Nat.digitChar d).toNat = 48 + d := by
  interval_cases d <;> rfl

/-- The digits of a positive number leave the scanner in a plain number holding its value. -/
theorem foldl_push_digits {n : Nat} (hn : 0 < n) (acc : List Token) :
    ((Nat.toDigits 10 n).flatMap Utf8.encodeChar).foldl Scanner.push ⟨.idle, acc⟩ =
      ⟨.number .int n true, acc⟩ := by
  induction n using Nat.strong_induction_on with
  | _ n ih =>
    rw [Nat.toDigits_eq_if (by decide)]
    split
    · rename_i h10
      interval_cases n <;> rfl
    · -- the last digit extends the number read from the others
      rename_i h10
      have hd := digitChar_toNat (show n % 10 < 10 by omega)
      have hb : ((Nat.digitChar (n % 10)).toNat.toUInt8).toNat = 48 + n % 10 := by
        rw [hd]
        simp [Nat.mod_eq_of_lt (show 48 + n % 10 < 256 by omega)]
      rw [List.flatMap_append, List.foldl_append, ih (n / 10) (by omega) (by omega),
        List.flatMap_singleton, encodeChar_of_lt (by omega)]
      simp only [List.foldl_cons, List.foldl_nil, Scanner.push, Scanner.numberNext, isDigit, hb]
      simp only [show 48 ≤ 48 + n % 10 by omega, show 48 + n % 10 ≤ 57 by omega, decide_true,
        Bool.and_self, if_true, Bool.true_and, Nat.add_sub_cancel_left]
      rw [Nat.div_add_mod']
      rfl

/-- A decimal numeral scans to one number token holding its value. -/
theorem scansTo_nat (n : Nat) : ScansTo (Utf8.encode (toString n)) [.scalar (.num (some n))] := by
  intro acc b hb
  rw [List.foldl_append]
  have hbytes : Utf8.encode (toString n) = (Nat.toDigits 10 n).flatMap Utf8.encodeChar := by
    rw [Utf8.encode]
    exact congrArg (List.flatMap Utf8.encodeChar) String.toList_ofList
  rw [hbytes]
  rcases Nat.eq_zero_or_pos n with rfl | hn
  · rcases hb with rfl | rfl | rfl <;> rfl
  · rw [foldl_push_digits hn]
    rcases hb with rfl | rfl | rfl <;> rfl

/-! ### Containers -/

/-- Values each followed by a delimiter scan, with commas between them, to their tokens. -/
theorem foldl_push_items {bytess : List (List UInt8)} {tss : List (List Token)}
    (h : List.Forall₂ ScansTo bytess tss) (hne : bytess ≠ []) {c : UInt8} (hc : IsDelimiter c)
    (acc : List Token) :
    (List.intercalate [0x2C] bytess ++ [c]).foldl Scanner.push ⟨.idle, acc⟩ =
      Scanner.idle ⟨.idle, (List.intercalate [.comma] tss).reverse ++ acc⟩ c := by
  induction h generalizing acc with
  | nil => exact absurd rfl hne
  | @cons bytes ts bytess tss hx hrest ih =>
    cases hrest with
    | nil =>
      rw [List.intercalate_singleton, List.intercalate_singleton]
      exact hx acc c hc
    | @cons bytes' ts' bytess' tss' hy hrest' =>
      rw [List.intercalate_cons_cons, List.intercalate_cons_cons,
        List.append_assoc (bytes ++ [44]), List.foldl_append, hx acc 0x2C (.inl rfl)]
      rw [show Scanner.idle ⟨.idle, ts.reverse ++ acc⟩ 0x2C =
          ⟨.idle, .comma :: (ts.reverse ++ acc)⟩ from rfl,
        ih (List.cons_ne_nil _ _) (.comma :: (ts.reverse ++ acc))]
      simp

/-- A bracketed list of values separated by commas scans to its brackets, the values' tokens and
the commas. -/
theorem scansIdle_container {o c : UInt8} {topen tclose : Token}
    (ho : ∀ acc, Scanner.idle ⟨.idle, acc⟩ o = ⟨.idle, topen :: acc⟩)
    (hc : ∀ acc, Scanner.idle ⟨.idle, acc⟩ c = ⟨.idle, tclose :: acc⟩)
    (hcd : IsDelimiter c)
    {bytess : List (List UInt8)} {tss : List (List Token)} (h : List.Forall₂ ScansTo bytess tss) :
    ScansIdle ([o] ++ List.intercalate [0x2C] bytess ++ [c])
      (topen :: List.intercalate [.comma] tss ++ [tclose]) := by
  intro acc
  have hopen : [o].foldl Scanner.push ⟨.idle, acc⟩ = ⟨.idle, topen :: acc⟩ := ho acc
  rw [List.append_assoc, List.foldl_append, hopen]
  cases h with
  | nil => simpa [Scanner.push] using hc (topen :: acc)
  | cons hx hrest =>
    rw [foldl_push_items (.cons hx hrest) (List.cons_ne_nil _ _) hcd, hc]
    simp

/-- A member of an object: its quoted key, a colon and its value. -/
theorem ScansTo.member (k : String) {bytes : List UInt8} {ts : List Token} (h : ScansTo bytes ts) :
    ScansTo (Utf8.encode (quote k) ++ [0x3A] ++ bytes)
      (.scalar (.str (some k)) :: .colon :: ts) := by
  intro acc b hb
  rw [List.append_assoc, List.append_assoc, List.foldl_append, scansIdle_quote k acc,
    List.foldl_append]
  rw [show [(0x3A : UInt8)].foldl Scanner.push
      ⟨.idle, [Token.scalar (.str (some k))].reverse ++ acc⟩ =
    ⟨.idle, .colon :: .scalar (.str (some k)) :: acc⟩ from rfl, h _ b hb]
  simp

theorem flatMap_intercalate {α β : Type} (f : α → List β) (sep : List α)
    (ls : List (List α)) :
    (sep.intercalate ls).flatMap f = (sep.flatMap f).intercalate (ls.map (·.flatMap f)) := by
  induction ls with
  | nil => rfl
  | cons l ls ih =>
    cases ls with
    | nil => simp
    | cons l' ls' =>
      rw [List.intercalate_cons_cons, List.map_cons, List.map_cons, List.intercalate_cons_cons,
        List.flatMap_append, List.flatMap_append, ← List.map_cons, ih]

theorem encode_intercalate (sep : String) (ls : List String) :
    Utf8.encode (sep.intercalate ls) = (Utf8.encode sep).intercalate (ls.map Utf8.encode) := by
  rw [Utf8.encode, String.toList_intercalate, flatMap_intercalate, List.map_map]
  rfl

end Json

end LexLR
