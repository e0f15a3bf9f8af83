import Mathlib.Data.List.TakeWhile
import Dts.Json.Dumps

/-!
# cJSON reads what `json.dump` writes

`cJSON_Parse` of the text that `json.dump(p, f, indent=4)` writes, for every value. A number keeps its
text, a text comes back as its UTF-8 bytes. `NaN`, `Infinity`, a lone surrogate and a nesting deeper
than `CJSON_NESTING_LIMIT` are written, and not read back.

* `unescape_encode` — a text, through its escapes
* `parseNumber_numberText` — a number is taken whole
* `parseValue_dumps` — a value, in front of whatever can follow it
* `cJsonParse_dumps` — the whole text
-/

namespace Dts.Json

open Infra

/-! ## Escapes of a code unit -/

theorem hexValue_hexDigit : ∀ d : Fin 16, hexValue (hexDigit d.val) = some d.val := by decide

theorem parseHex4_hexDigits (a b c d : Fin 16) :
    parseHex4 [hexDigit a.val, hexDigit b.val, hexDigit c.val, hexDigit d.val] =
      ((a.val * 16 + b.val) * 16 + c.val) * 16 + d.val := by
  simp only [parseHex4, List.foldlM_cons, List.foldlM_nil, hexValue_hexDigit, Option.map_some,
    Option.bind_eq_bind, Option.bind_some, Option.pure_def, Option.getD_some, Nat.zero_mul,
    Nat.zero_add]

/-- The four digits of a code unit give it back. -/
theorem parseHex4_unicodeEscape {n : ℕ} (hn : n < 0x10000) :
    parseHex4 [hexDigit (n / 4096 % 16), hexDigit (n / 256 % 16), hexDigit (n / 16 % 16),
      hexDigit (n % 16)] = n := by
  have hlt : ∀ k : ℕ, k % 16 < 16 := fun k => Nat.mod_lt k (by decide)
  have h := parseHex4_hexDigits ⟨_, hlt (n / 4096)⟩ ⟨_, hlt (n / 256)⟩ ⟨_, hlt (n / 16)⟩ ⟨_, hlt n⟩
  rw [h]
  show ((n / 4096 % 16 * 16 + n / 256 % 16) * 16 + n / 16 % 16) * 16 + n % 16 = n
  omega

/-- **The encoder of `utf16_literal_to_utf8` writes UTF-8.** -/
theorem encodeUtf8_eq {n : ℕ} (hn : n < 0x110000) : encodeUtf8 n = some (utf8Bytes n) := by
  unfold encodeUtf8 utf8Bytes
  simp only
  by_cases h1 : n < 0x80
  · rw [if_pos h1, if_pos (Nat.le_of_lt_succ h1)]
    have hbits : n &&& 0x7F = n := by
      rw [Nat.and_two_pow_sub_one_eq_mod n 7]
      exact Nat.mod_eq_of_lt h1
    show some [UInt8.ofNat (n &&& 0x7F)] = _
    rw [hbits]
  · rw [if_neg h1, if_neg (show ¬n ≤ 0x7F by omega)]
    by_cases h2 : n < 0x800
    · rw [if_pos h2, if_pos (show n ≤ 0x7FF by omega)]
      show some [headByte 0xC0 (n >>> 6), tailByte n] = _
      rw [tailByte_eq, Nat.shiftRight_eq_div_pow, show (0xC0 : ℕ) = 2 ^ 5 * 6 from rfl,
        headByte_eq (by omega) (by omega), Nat.mod_eq_of_lt (show n / 64 < 0x20 by omega)]
    · rw [if_neg h2, if_neg (show ¬n ≤ 0x7FF by omega)]
      by_cases h3 : n < 0x10000
      · rw [if_pos h3, if_pos (show n ≤ 0xFFFF by omega)]
        show some [headByte 0xE0 (n >>> 6 >>> 6), tailByte (n >>> 6), tailByte n] = _
        rw [tailByte_eq, tailByte_eq, ← Nat.shiftRight_add, Nat.shiftRight_eq_div_pow,
          Nat.shiftRight_eq_div_pow, show (0xE0 : ℕ) = 2 ^ 4 * 14 from rfl,
          headByte_eq (by omega) (by omega), Nat.mod_eq_of_lt (show n / 4096 < 0x10 by omega)]
      · rw [if_neg h3, if_pos (show n ≤ 0x10FFFF by omega), if_neg (show ¬n ≤ 0xFFFF by omega)]
        show some [headByte 0xF0 (n >>> 6 >>> 6 >>> 6), tailByte (n >>> 6 >>> 6),
          tailByte (n >>> 6), tailByte n] = _
        rw [tailByte_eq, tailByte_eq, tailByte_eq, ← Nat.shiftRight_add, ← Nat.shiftRight_add,
          Nat.shiftRight_eq_div_pow, Nat.shiftRight_eq_div_pow, Nat.shiftRight_eq_div_pow,
          Nat.div_div_eq_div_mul, show (0xF0 : ℕ) = 2 ^ 3 * 30 from rfl, headByte_eq (by omega) (by omega),
          Nat.mod_eq_of_lt (show n / 262144 < 0x08 by omega)]

/-! ## One character -/

/-- What `encodeChar` writes for a code point. -/
inductive Encoded : ℕ → Bytes → Prop
  /-- The character itself. -/
  | plain (b : UInt8) (quote : b ≠ 34) (backslash : b ≠ 92) (printable : b ≠ 0 ∧ b < 128) :
    Encoded b.toNat [b]
  /-- A backslash and a letter. -/
  | short (e b : UInt8) (escape : escaped e = some b) (letter : e ≠ 0 ∧ e < 128) (ascii : b < 128) :
    Encoded b.toNat [92, e]
  /-- One code unit. -/
  | unit (n : ℕ) (hn : n < 0x10000) : Encoded n (unicodeEscape n)
  /-- Two code units. -/
  | pair (n : ℕ) (hn : 0x10000 ≤ n) (hlt : n < 0x110000) :
    Encoded n (unicodeEscape (highSurrogate n) ++ unicodeEscape (lowSurrogate n))

theorem encoded_encodeChar (c : CodePoint) : Encoded c.val (encodeChar c) := by
  obtain ⟨n, hn⟩ := c
  show Encoded n (encodeChar ⟨n, hn⟩)
  unfold encodeChar
  simp only
  split
  · rename_i h
    exact h ▸ Encoded.short 34 34 rfl (by decide) (by decide)
  split
  · rename_i h
    exact h ▸ Encoded.short 92 92 rfl (by decide) (by decide)
  split
  · rename_i h
    exact h ▸ Encoded.short 110 10 rfl (by decide) (by decide)
  split
  · rename_i h
    exact h ▸ Encoded.short 114 13 rfl (by decide) (by decide)
  split
  · rename_i h
    exact h ▸ Encoded.short 116 9 rfl (by decide) (by decide)
  split
  · rename_i h
    exact h ▸ Encoded.short 102 12 rfl (by decide) (by decide)
  split
  · rename_i h
    exact h ▸ Encoded.short 98 8 rfl (by decide) (by decide)
  split
  · rename_i h34 h92 _ _ _ _ _ h
    have hval : (UInt8.ofNat n).toNat = n := Nat.mod_eq_of_lt (by omega)
    have hne : ∀ b : UInt8, n ≠ b.toNat → UInt8.ofNat n ≠ b := by
      intro b hb heq
      exact hb (hval ▸ congrArg UInt8.toNat heq)
    have hlt : UInt8.ofNat n < 128 := by
      rw [UInt8.lt_iff_toNat_lt, hval]
      exact Nat.lt_of_le_of_lt h.2 (by decide)
    have hzero : n ≠ 0 := fun hn => absurd (hn ▸ h.1) (by decide)
    have hplain := Encoded.plain (UInt8.ofNat n) (hne 34 h34) (hne 92 h92) ⟨hne 0 hzero, hlt⟩
    rwa [hval] at hplain
  split
  · rename_i h
    exact Encoded.unit n h
  · rename_i h
    exact Encoded.pair n (Nat.le_of_not_lt h) hn

/-! ## Texts -/

/-- The search for the closing quote goes over these bytes whole. -/
def Scanned (xs : Bytes) : Prop :=
  ∀ tail, scanString (xs ++ tail) = (scanString tail).map fun r => (xs ++ r.1, r.2)

theorem scanned_nil : Scanned [] := by
  intro tail
  exact Option.map_id'.symm

theorem scanned_append {xs ys : Bytes} (hxs : Scanned xs) (hys : Scanned ys) :
    Scanned (xs ++ ys) := by
  intro tail
  rw [List.append_assoc, hxs, hys, Option.map_map]
  refine Option.map_congr fun r _ => ?_
  show (xs ++ (ys ++ r.1), r.2) = (xs ++ ys ++ r.1, r.2)
  rw [List.append_assoc]

theorem scanned_plain {b : UInt8} (hquote : b ≠ 34) (hbackslash : b ≠ 92) : Scanned [b] := by
  intro tail
  show scanString (b :: tail) = _
  rw [scanString.eq_def]
  simp only
  rw [if_neg hquote, if_neg hbackslash]
  rfl

theorem scanned_escape (e : UInt8) : Scanned [92, e] := by
  intro tail
  rfl

/-- A digit is no quote and no backslash. -/
theorem hexDigit_ne : ∀ d : Fin 16, hexDigit d.val ≠ 34 ∧ hexDigit d.val ≠ 92 := by decide

theorem scanned_unicodeEscape (n : ℕ) : Scanned (unicodeEscape n) := by
  have hdigit : ∀ k : ℕ, Scanned [hexDigit (k % 16)] := by
    intro k
    have hne := hexDigit_ne ⟨k % 16, Nat.mod_lt k (by decide)⟩
    exact scanned_plain hne.1 hne.2
  exact scanned_append (scanned_escape 117) (scanned_append (hdigit _) (scanned_append (hdigit _)
    (scanned_append (hdigit _) (hdigit _))))

theorem scanned_encode (s : PyStr) : Scanned (encode s) := by
  induction s with
  | nil => exact scanned_nil
  | cons c cs ih =>
    refine scanned_append ?_ ih
    have hc := encoded_encodeChar c
    generalize c.val = n at hc
    generalize encodeChar c = xs at hc
    cases hc with
    | plain b hquote hbackslash _ => exact scanned_plain hquote hbackslash
    | short e b _ _ _ => exact scanned_escape e
    | unit n _ => exact scanned_unicodeEscape _
    | pair n _ _ => exact scanned_append (scanned_unicodeEscape _) (scanned_unicodeEscape _)

/-- The closing quote of a text is found. -/
theorem scanString_encode (s : PyStr) (rest : Bytes) :
    scanString (encode s ++ 34 :: rest) = some (encode s, rest) := by
  have hquote : scanString (34 :: rest) = some ([], rest) := by
    rw [scanString.eq_def]
    exact if_pos rfl
  rw [scanned_encode, hquote, Option.map_some, List.append_nil]

theorem unescape_plain {b : UInt8} (hbackslash : b ≠ 92) (tail : Bytes) :
    unescape (b :: tail) = (unescape tail).map fun out => b :: out := by
  rw [unescape.eq_def]
  simp only
  rw [if_pos hbackslash]

theorem unescape_short {e b : UInt8} (h : escaped e = some b) (tail : Bytes) :
    unescape (92 :: e :: tail) = (unescape tail).map fun out => b :: out := by
  have hne : e ≠ 117 := by
    rintro rfl
    cases h
  rw [unescape.eq_def]
  simp only
  rw [if_neg (not_not_intro rfl), if_pos hne, h, Option.bind_some]

theorem unescape_unit {n : ℕ} (hn : n < 0x10000) (hlow : isLowSurrogate n = false)
    (hhigh : isHighSurrogate n = false) (tail : Bytes) :
    unescape (unicodeEscape n ++ tail) = (unescape tail).map fun out => utf8Bytes n ++ out := by
  show unescape (92 :: 117 :: hexDigit _ :: hexDigit _ :: hexDigit _ :: hexDigit _ :: tail) = _
  rw [unescape.eq_def]
  simp only
  rw [if_neg (not_not_intro rfl), if_neg (not_not_intro rfl), parseHex4_unicodeEscape hn, hlow,
    hhigh, if_neg Bool.false_ne_true, if_neg Bool.false_ne_true,
    encodeUtf8_eq (Nat.lt_trans hn (by decide)), Option.bind_some]

theorem unescape_low {n : ℕ} (hn : n < 0x10000) (hlow : isLowSurrogate n = true) (tail : Bytes) :
    unescape (unicodeEscape n ++ tail) = none := by
  show unescape (92 :: 117 :: hexDigit _ :: hexDigit _ :: hexDigit _ :: hexDigit _ :: tail) = _
  rw [unescape.eq_def]
  simp only
  rw [if_neg (not_not_intro rfl), if_neg (not_not_intro rfl), parseHex4_unicodeEscape hn,
    if_pos hlow]

/-- Behind a high surrogate only a low one is taken. -/
theorem unescape_high {n : ℕ} (hn : n < 0x10000) (hhigh : isHighSurrogate n = true)
    {tail : Bytes} (h : ∀ a b c d rest, tail = 92 :: 117 :: a :: b :: c :: d :: rest →
      isLowSurrogate (parseHex4 [a, b, c, d]) = false) :
    unescape (unicodeEscape n ++ tail) = none := by
  show unescape (92 :: 117 :: hexDigit _ :: hexDigit _ :: hexDigit _ :: hexDigit _ :: tail) = _
  rw [unescape.eq_def]
  simp only
  rw [if_neg (not_not_intro rfl), if_neg (not_not_intro rfl), parseHex4_unicodeEscape hn,
    not_isLow_of_isHigh hhigh, if_neg Bool.false_ne_true, if_pos hhigh]
  split
  · rename_i s u a b c d rest
    split
    · rfl
    · rename_i hescape
      rw [not_or, not_not, not_not] at hescape
      rw [h a b c d rest (by rw [hescape.1, hescape.2])]
      rfl
  · rfl

theorem unescape_pair {high low : ℕ} (hn : high < 0x10000) (hlt : low < 0x10000)
    (hhigh : isHighSurrogate high = true) (hlow : isLowSurrogate low = true) (tail : Bytes) :
    unescape (unicodeEscape high ++ (unicodeEscape low ++ tail)) =
      (unescape tail).map fun out => utf8Bytes (joinSurrogates high low) ++ out := by
  show unescape (92 :: 117 :: hexDigit _ :: hexDigit _ :: hexDigit _ :: hexDigit _ :: 92 :: 117 ::
    hexDigit _ :: hexDigit _ :: hexDigit _ :: hexDigit _ :: tail) = _
  rw [unescape.eq_def]
  simp only
  rw [if_neg (not_not_intro rfl), if_neg (not_not_intro rfl), parseHex4_unicodeEscape hn,
    parseHex4_unicodeEscape hlt, not_isLow_of_isHigh hhigh, if_neg Bool.false_ne_true,
    if_pos hhigh, hlow, encodeUtf8_eq (joinSurrogates_lt high low), Option.bind_some]
  rfl

theorem utf8Bytes_ascii {b : UInt8} (h : b < 128) : utf8Bytes b.toNat = [b] := by
  have hle : b.toNat ≤ 0x7F := Nat.le_of_lt_succ (UInt8.lt_iff_toNat_lt.mp h)
  rw [utf8Bytes, if_pos hle, UInt8.ofNat_toNat]

/-- A surrogate is written as one escape. -/
theorem encodeChar_surrogate {c : CodePoint}
    (h : isLowSurrogate c.val = true ∨ isHighSurrogate c.val = true) :
    c.val < 0x10000 ∧ encodeChar c = unicodeEscape c.val := by
  have hrange : 0xD800 ≤ c.val ∧ c.val ≤ 0xDFFF := by
    simp only [isLowSurrogate, isHighSurrogate, Bool.and_eq_true, decide_eq_true_eq] at h
    omega
  have hc := encoded_encodeChar c
  generalize c.val = n at hc hrange ⊢
  generalize encodeChar c = xs at hc ⊢
  cases hc with
  | plain b _ _ hprintable =>
    have hlt := UInt8.lt_iff_toNat_lt.mp hprintable.2
    exact absurd hrange.1 (Nat.not_le_of_lt (Nat.lt_trans hlt (by decide)))
  | short e b _ _ hascii =>
    have hlt := UInt8.lt_iff_toNat_lt.mp hascii
    exact absurd hrange.1 (Nat.not_le_of_lt (Nat.lt_trans hlt (by decide)))
  | unit n hn => exact ⟨hn, rfl⟩
  | pair n hn _ => omega

/-- Any other character comes back whatever follows it. -/
theorem unescape_encodeChar {c : CodePoint} (hlow : isLowSurrogate c.val = false)
    (hhigh : isHighSurrogate c.val = false) (tail : Bytes) :
    unescape (encodeChar c ++ tail) = (unescape tail).map fun out => utf8Bytes c.val ++ out := by
  have hc := encoded_encodeChar c
  generalize c.val = n at hc hlow hhigh ⊢
  generalize encodeChar c = xs at hc ⊢
  cases hc with
  | plain b _ hbackslash hprintable =>
    rw [utf8Bytes_ascii hprintable.2]
    exact unescape_plain hbackslash tail
  | short e b hescape _ hascii =>
    rw [utf8Bytes_ascii hascii]
    exact unescape_short hescape tail
  | unit n hn => exact unescape_unit hn hlow hhigh tail
  | pair n hn hlt =>
    have hhigh : highSurrogate n < 0x10000 := by
      rw [highSurrogate_eq]
      omega
    have hlow : lowSurrogate n < 0x10000 := by
      rw [lowSurrogate_eq]
      omega
    rw [List.append_assoc, unescape_pair hhigh hlow isHighSurrogate_highSurrogate
      isLowSurrogate_lowSurrogate, joinSurrogates_split hn hlt]

/-- No escape of a low surrogate stands in front of any other character. -/
theorem not_low_of_encodeChar {c : CodePoint} (hlow : isLowSurrogate c.val = false)
    {tail rest : Bytes} {x y z w : UInt8}
    (h : encodeChar c ++ tail = 92 :: 117 :: x :: y :: z :: w :: rest) :
    isLowSurrogate (parseHex4 [x, y, z, w]) = false := by
  have hc := encoded_encodeChar c
  generalize c.val = n at hc hlow
  generalize encodeChar c = xs at hc h
  cases hc with
  | plain b _ hbackslash _ => exact absurd (List.cons.inj h).1 hbackslash
  | short e b hescape _ _ =>
    cases h
    cases hescape
  | unit n hn =>
    cases h
    rw [parseHex4_unicodeEscape hn]
    exact hlow
  | pair n hn hlt =>
    cases h
    rw [parseHex4_unicodeEscape (by rw [highSurrogate_eq]; omega)]
    exact not_isLow_of_isHigh isHighSurrogate_highSurrogate

/-- **A text through its escapes**: its UTF-8 bytes, or nothing when a surrogate stands alone. -/
theorem unescape_encode (s : PyStr) : unescape (encode s) = decodeStr s := by
  induction s using decodeStr.induct with
  | case1 => rfl
  | case2 c cs hlow =>
    obtain ⟨hn, henc⟩ := encodeChar_surrogate (.inl hlow)
    rw [decodeStr.eq_def]
    simp only
    rw [if_pos hlow]
    show unescape (encodeChar c ++ encode cs) = none
    rw [henc, unescape_low hn hlow]
  | case3 c hlow hhigh d ds hd ih =>
    obtain ⟨hn, henc⟩ := encodeChar_surrogate (.inr hhigh)
    obtain ⟨hlt, hencD⟩ := encodeChar_surrogate (.inl hd)
    rw [decodeStr, if_neg hlow, if_pos hhigh, if_pos hd, ← ih]
    show unescape (encodeChar c ++ (encodeChar d ++ encode ds)) = _
    rw [henc, hencD, unescape_pair hn hlt hhigh hd]
  | case4 c hlow hhigh d ds hd =>
    obtain ⟨hn, henc⟩ := encodeChar_surrogate (.inr hhigh)
    rw [decodeStr, if_neg hlow, if_pos hhigh, if_neg hd]
    show unescape (encodeChar c ++ (encodeChar d ++ encode ds)) = none
    rw [henc]
    refine unescape_high hn hhigh ?_
    intro x y z w rest heq
    exact not_low_of_encodeChar (Bool.eq_false_iff.mpr hd) heq
  | case5 c hlow hhigh =>
    obtain ⟨hn, henc⟩ := encodeChar_surrogate (.inr hhigh)
    rw [decodeStr, if_neg hlow, if_pos hhigh]
    show unescape (encodeChar c ++ []) = none
    rw [henc]
    refine unescape_high hn hhigh ?_
    intro x y z w rest heq
    cases heq
  | case6 c cs hlow hhigh ih =>
    rw [decodeStr.eq_def]
    simp only
    rw [if_neg hlow, if_neg hhigh, ← ih]
    exact unescape_encodeChar (Bool.eq_false_iff.mpr hlow) (Bool.eq_false_iff.mpr hhigh) _

/-- **A text in quotes**, in front of anything. -/
theorem parseString_dumpStr (s : PyStr) (rest : Bytes) :
    parseString (dumpStr s ++ rest) = (itemStr s).map fun name => (name, rest) := by
  have happ : dumpStr s ++ rest = 34 :: (encode s ++ 34 :: rest) := by
    rw [dumpStr, List.cons_append, List.append_assoc, List.singleton_append]
  rw [happ, parseString, if_neg (not_not_intro rfl), scanString_encode, Option.bind_some,
    unescape_encode, itemStr, Option.map_map]
  rfl

/-! ## Numbers -/

/-- What can follow a number. -/
def Delimited (rest : Bytes) : Prop := ∀ b ∈ rest.head?, isNumberByte b = false

theorem takeWhile_append_of_head {p : UInt8 → Bool} {xs rest : Bytes} (hxs : ∀ b ∈ xs, p b = true)
    (hrest : ∀ b ∈ rest.head?, p b = false) : (xs ++ rest).takeWhile p = xs := by
  have hnil : rest.takeWhile p = [] := by
    cases rest with
    | nil => rfl
    | cons b rest => exact List.takeWhile_cons_of_neg (Bool.eq_false_iff.mp (hrest b rfl))
  rw [List.takeWhile_append_of_pos hxs, hnil, List.append_nil]

theorem Digits.head_isDigit (d : Digits) (tail : Bytes) :
    ∃ b rest, d.bytes ++ tail = b :: rest ∧ isDigit b = true := by
  cases hb : d.bytes with
  | nil => exact absurd hb d.nonempty
  | cons b rest => exact ⟨b, rest ++ tail, rfl, d.digits b (hb ▸ List.mem_cons_self)⟩

theorem not_isSign_of_isDigit {b : UInt8} (h : isDigit b = true) : isSign b = false := by
  simp only [isDigit, Bool.and_eq_true, decide_eq_true_eq, UInt8.le_iff_toNat_le] at h
  rw [isSign, Bool.or_eq_false_iff, beq_eq_false_iff_ne, beq_eq_false_iff_ne]
  refine ⟨?_, ?_⟩ <;> rintro rfl <;> exact absurd h.1 (by decide)

theorem isNumberByte_of_isDigit {b : UInt8} (h : isDigit b = true) : isNumberByte b = true := by
  rw [isNumberByte, h]
  rfl

section Repr

variable (negative : Bool) (digits : Digits) (fraction : Option Digits)
  (exponent : Option (Bool × Digits))

theorem signLength_numberText :
    signLength (numberText negative digits fraction exponent) = (minus negative).length := by
  rw [numberText, List.append_assoc, List.append_assoc]
  cases negative with
  | true => rfl
  | false =>
    obtain ⟨b, rest, hbytes, hb⟩ :=
      digits.head_isDigit (fractionText fraction ++ exponentText exponent)
    show signLength (digits.bytes ++ (fractionText fraction ++ exponentText exponent)) = 0
    rw [hbytes, signLength, not_isSign_of_isDigit hb]
    rfl

/-- No digit comes behind the integral part. -/
theorem head_fractionText (b : UInt8) (h : b ∈ (fractionText fraction ++ exponentText exponent).head?) :
    isDigit b = false := by
  cases fraction with
  | some d =>
    cases h
    rfl
  | none =>
    cases exponent with
    | none => cases h
    | some e =>
      cases h
      rfl

theorem fractionLength_fractionText :
    fractionLength (fractionText fraction ++ exponentText exponent) =
      (fractionText fraction).length := by
  cases fraction with
  | none =>
    cases exponent with
    | none => rfl
    | some e => rfl
  | some d =>
    have htake : (d.bytes ++ exponentText exponent).takeWhile isDigit = d.bytes :=
      takeWhile_append_of_head d.digits (head_fractionText none exponent)
    show (if (46 : UInt8) = 46 then 1 + ((d.bytes ++ exponentText exponent).takeWhile isDigit).length
      else 0) = d.bytes.length + 1
    rw [if_pos rfl, htake, Nat.add_comm]

theorem exponentLength_exponentText :
    exponentLength (exponentText exponent) = (exponentText exponent).length := by
  cases exponent with
  | none => rfl
  | some e =>
    obtain ⟨negative, d⟩ := e
    have hsign : signLength ((if negative then 45 else 43) :: d.bytes) = 1 := by
      cases negative <;> rfl
    have htake : d.bytes.takeWhile isDigit = d.bytes := List.takeWhile_eq_self_iff.mpr d.digits
    have hpos : 0 < d.bytes.length := List.length_pos_iff.mpr d.nonempty
    show exponentLength (101 :: (if negative then 45 else 43) :: d.bytes) = d.bytes.length + 1 + 1
    rw [exponentLength, hsign, List.drop_one, List.tail_cons, htake, decide_eq_true hpos]
    show 1 + 1 + d.bytes.length = d.bytes.length + 1 + 1
    omega

/-- `strtod` takes the whole text of a number. -/
theorem strtodLength_numberText :
    strtodLength (numberText negative digits fraction exponent) =
      (numberText negative digits fraction exponent).length := by
  have hsign := signLength_numberText negative digits fraction exponent
  have hdigits : (digits.bytes ++ (fractionText fraction ++ exponentText exponent)).takeWhile
      isDigit = digits.bytes :=
    takeWhile_append_of_head digits.digits (head_fractionText fraction exponent)
  have hpos : digits.bytes.length ≠ 0 := fun h => digits.nonempty (List.length_eq_zero_iff.mp h)
  have htext : numberText negative digits fraction exponent =
      minus negative ++ (digits.bytes ++ (fractionText fraction ++ exponentText exponent)) := by
    rw [numberText, List.append_assoc, List.append_assoc]
  unfold strtodLength
  simp only
  rw [hsign, htext, List.drop_left, hdigits, ← List.drop_drop, List.drop_left, List.drop_left,
    fractionLength_fractionText, if_neg (fun h => hpos h.1), ← List.drop_drop, ← List.drop_drop,
    List.drop_left, List.drop_left, List.drop_left, exponentLength_exponentText]
  simp only [List.length_append]
  omega

theorem isNumberByte_numberText :
    ∀ b ∈ numberText negative digits fraction exponent, isNumberByte b = true := by
  have hdigits : ∀ (d : Digits), ∀ b ∈ d.bytes, isNumberByte b = true :=
    fun d b hb => isNumberByte_of_isDigit (d.digits b hb)
  intro b hb
  rw [numberText, List.mem_append, List.mem_append, List.mem_append] at hb
  rcases hb with ((hminus | hdigit) | hfraction) | hexponent
  · cases negative with
    | true =>
      rw [List.mem_singleton.mp hminus]
      rfl
    | false => cases hminus
  · exact hdigits digits b hdigit
  · cases fraction with
    | none => cases hfraction
    | some d =>
      rcases List.mem_cons.mp hfraction with rfl | hmem
      · rfl
      · exact hdigits d b hmem
  · cases exponent with
    | none => cases hexponent
    | some e =>
      obtain ⟨negative, d⟩ := e
      rcases List.mem_cons.mp hexponent with rfl | hrest
      · rfl
      · rcases List.mem_cons.mp hrest with rfl | hmem
        · cases negative <;> rfl
        · exact hdigits d b hmem

/-- **A number is taken whole.** -/
theorem parseNumber_numberText {rest : Bytes} (hrest : Delimited rest) :
    parseNumber (numberText negative digits fraction exponent ++ rest) =
      some (.number (numberText negative digits fraction exponent), rest) := by
  have htake := takeWhile_append_of_head
    (isNumberByte_numberText negative digits fraction exponent) hrest
  have hlen := strtodLength_numberText negative digits fraction exponent
  have hpos : (numberText negative digits fraction exponent).length ≠ 0 := by
    have hne := List.length_pos_iff.mpr digits.nonempty
    simp only [numberText, List.length_append]
    omega
  unfold parseNumber
  simp only
  rw [htake, hlen, if_neg hpos, List.take_length, List.drop_left]

end Repr

/-! ## Words -/

theorem startsWith_append (word rest : Bytes) : startsWith word (word ++ rest) = some rest := by
  rw [startsWith, if_pos (List.prefix_append word rest), List.drop_left]

theorem startsWith_cons_of_ne {b c : UInt8} (h : c ≠ b) (word rest : Bytes) :
    startsWith (c :: word) (b :: rest) = none :=
  if_neg fun hprefix => h (List.cons_prefix_cons.mp hprefix).1

theorem parseWord_null (rest : Bytes) : parseWord (wordNull ++ rest) = some (.null, rest) := by
  rw [parseWord, startsWith_append]
  rfl

theorem parseWord_false (rest : Bytes) : parseWord (wordFalse ++ rest) = some (.false_, rest) := by
  have hnull : startsWith wordNull (wordFalse ++ rest) = none :=
    startsWith_cons_of_ne (by decide) _ _
  rw [parseWord, hnull, startsWith_append]
  rfl

theorem parseWord_true (rest : Bytes) : parseWord (wordTrue ++ rest) = some (.true_, rest) := by
  have hnull : startsWith wordNull (wordTrue ++ rest) = none :=
    startsWith_cons_of_ne (by decide) _ _
  have hfalse : startsWith wordFalse (wordTrue ++ rest) = none :=
    startsWith_cons_of_ne (by decide) _ _
  rw [parseWord, hnull, hfalse, startsWith_append]
  rfl

/-- The first byte of a word. -/
def startsWord (b : UInt8) : Bool := b == 110 || b == 102 || b == 116

theorem parseWord_eq_none {b : UInt8} (h : startsWord b = false) (rest : Bytes) :
    parseWord (b :: rest) = none := by
  simp only [startsWord, Bool.or_eq_false_iff, beq_eq_false_iff_ne] at h
  rw [parseWord, wordNull, wordFalse, wordTrue, startsWith_cons_of_ne (Ne.symm h.1.1),
    startsWith_cons_of_ne (Ne.symm h.1.2), startsWith_cons_of_ne (Ne.symm h.2)]
  rfl

theorem parseScalar_word {buffer : Bytes} {r : Item × Bytes} (h : parseWord buffer = some r) :
    parseScalar buffer = some r := by
  rw [parseScalar.eq_def, h]

theorem parseScalar_string (rest : Bytes) :
    parseScalar (34 :: rest) = (parseString (34 :: rest)).map fun r => (.string r.1, r.2) := by
  rw [parseScalar, parseWord_eq_none rfl]
  exact if_pos rfl

theorem parseScalar_number {b : UInt8} (h : b = 45 ∨ isDigit b = true) (rest : Bytes) :
    parseScalar (b :: rest) = parseNumber (b :: rest) := by
  have hdigit : 45 ≤ b.toNat ∧ b.toNat ≤ 57 := by
    rcases h with rfl | h
    · exact ⟨Nat.le_refl _, by decide⟩
    · simp only [isDigit, Bool.and_eq_true, decide_eq_true_eq, UInt8.le_iff_toNat_le] at h
      exact ⟨Nat.le_trans (by decide) h.1, h.2⟩
  have hword : startsWord b = false := by
    rw [startsWord, Bool.or_eq_false_iff, Bool.or_eq_false_iff, beq_eq_false_iff_ne,
      beq_eq_false_iff_ne, beq_eq_false_iff_ne]
    refine ⟨⟨?_, ?_⟩, ?_⟩ <;> rintro rfl <;> exact absurd hdigit.2 (by decide)
  have hquote : b ≠ 34 := by
    rintro rfl
    exact absurd hdigit.1 (by decide)
  rw [parseScalar, parseWord_eq_none hword]
  simp only
  rw [if_neg hquote, if_pos h]

theorem parseScalar_eq_none {b : UInt8} (hword : startsWord b = false) (hquote : b ≠ 34)
    (hnumber : ¬(b = 45 ∨ isDigit b = true)) (rest : Bytes) : parseScalar (b :: rest) = none := by
  rw [parseScalar, parseWord_eq_none hword]
  simp only
  rw [if_neg hquote, if_neg hnumber]

theorem parseValue_of_ne {b : UInt8} (harray : b ≠ 91) (hobject : b ≠ 123) (depth : ℕ)
    (rest : Bytes) : parseValue depth (b :: rest) = parseScalar (b :: rest) := by
  cases depth with
  | zero => rfl
  | succ depth =>
    rw [parseValue, if_neg harray, if_neg hobject]

/-! ## Lines -/

theorem skipWhitespace_cons {b : UInt8} (hb : 32 < b) (rest : Bytes) :
    skipWhitespace (b :: rest) = b :: rest := by
  have hdrop : (b :: rest).dropWhile (· ≤ 32) = b :: rest :=
    List.dropWhile_cons_of_neg (by rw [decide_eq_true_eq]; exact UInt8.not_le.mpr hb)
  rw [skipWhitespace, hdrop]

theorem skipWhitespace_newlineIndent {b : UInt8} (hb : 32 < b) (level : ℕ) (rest : Bytes) :
    skipWhitespace (newlineIndent level ++ b :: rest) = b :: rest := by
  have hdrop : (newlineIndent level ++ b :: rest).dropWhile (· ≤ 32) = b :: rest := by
    rw [List.dropWhile_append_of_pos]
    · exact List.dropWhile_cons_of_neg (by rw [decide_eq_true_eq]; exact UInt8.not_le.mpr hb)
    · intro c hc
      rcases List.mem_cons.mp hc with rfl | hmem
      · rfl
      · rw [List.eq_of_mem_replicate hmem]
        rfl
  rw [skipWhitespace, hdrop]

section Lines

variable {α β : Type} {element : Bytes → Option (α × Bytes)} {close : UInt8} {text : β → Bytes}
  {item : β → Option α}

/-- The further elements, each behind its comma and on its line. -/
def lines (level : ℕ) (text : β → Bytes) (ys : List β) : Bytes :=
  ys.flatMap fun y => 44 :: (newlineIndent level ++ text y)

theorem length_le_lines (level : ℕ) (text : β → Bytes) (ys : List β) :
    ys.length ≤ (lines level text ys).length := by
  induction ys with
  | nil => exact Nat.le_refl _
  | cons y ys ih =>
    show ys.length + 1 ≤ (44 :: (newlineIndent level ++ text y) ++ lines level text ys).length
    rw [List.length_append, List.length_cons]
    omega

theorem delimited_lines (level outer : ℕ) (ys : List β) (rest : Bytes) :
    Delimited (lines level text ys ++ (newlineIndent outer ++ rest)) := by
  intro b hb
  cases ys with
  | nil =>
    cases hb
    rfl
  | cons y ys =>
    cases hb
    rfl

variable (hclose : 32 < close ∧ close ≠ 44)
  (htext : ∀ y, ∃ b tail, text y = b :: tail ∧ 32 < b ∧ b ≠ close)

include hclose htext

/-- The loop takes one line after the other. -/
theorem afterElement_lines (level outer : ℕ) (rest : Bytes) : ∀ {ys : List β} {fuel : ℕ} (x : α),
    ys.length ≤ fuel →
    (∀ y ∈ ys, ∀ buffer rest, Delimited rest → skipWhitespace buffer = text y ++ rest →
      element buffer = (item y).map fun i => (i, rest)) →
    afterElement close (parseSeq element close fuel) x
        (lines level text ys ++ (newlineIndent outer ++ close :: rest)) =
      (ys.mapM item).map fun items => (x :: items, rest)
  | [], fuel, x, _, _ => by
    show afterElement close (parseSeq element close fuel) x (newlineIndent outer ++ close :: rest) = _
    rw [afterElement, skipWhitespace_newlineIndent hclose.1]
    simp only
    rw [if_neg hclose.2, if_pos trivial]
    rfl
  | y :: ys, 0, x, hfuel, _ => absurd hfuel (Nat.not_succ_le_zero _)
  | y :: ys, fuel + 1, x, hfuel, helement => by
    obtain ⟨b, tail, hy, hb, -⟩ := htext y
    have hline : lines level text (y :: ys) ++ (newlineIndent outer ++ close :: rest) =
        44 :: (newlineIndent level ++
          (text y ++ (lines level text ys ++ (newlineIndent outer ++ close :: rest)))) := by
      simp only [lines, List.flatMap_cons, List.cons_append, List.append_assoc]
    have hskip : skipWhitespace (newlineIndent level ++
          (text y ++ (lines level text ys ++ (newlineIndent outer ++ close :: rest)))) =
        text y ++ (lines level text ys ++ (newlineIndent outer ++ close :: rest)) := by
      rw [hy, List.cons_append, skipWhitespace_newlineIndent hb]
    have hloop : parseSeq element close (fuel + 1) (newlineIndent level ++
          (text y ++ (lines level text ys ++ (newlineIndent outer ++ close :: rest)))) =
        (item y).bind fun i => (ys.mapM item).map fun items => (i :: items, rest) := by
      rw [parseSeq, helement y List.mem_cons_self _ _ (delimited_lines level outer ys _) hskip]
      cases item y with
      | none => rfl
      | some i =>
        exact afterElement_lines level outer rest i (Nat.le_of_succ_le_succ hfuel)
          fun z hz => helement z (List.mem_cons_of_mem _ hz)
    rw [hline, afterElement, skipWhitespace_cons (by decide)]
    simp only
    rw [if_pos trivial, hloop, List.mapM_cons]
    cases item y with
    | none => rfl
    | some i => cases ys.mapM item <;> rfl

/-- **The elements of a list or a dictionary.** -/
theorem parseElements_lines (level outer : ℕ) (rest : Bytes) {y : β} {ys : List β}
    (helement : ∀ z ∈ y :: ys, ∀ buffer rest, Delimited rest → skipWhitespace buffer = text z ++ rest →
      element buffer = (item z).map fun i => (i, rest)) :
    parseElements element close (newlineIndent level ++
        (text y ++ (lines level text ys ++ (newlineIndent outer ++ close :: rest)))) =
      ((y :: ys).mapM item).map fun items => (items, rest) := by
  obtain ⟨b, tail, hy, hb, hne⟩ := htext y
  have hlines := length_le_lines level text ys
  have hself := helement y List.mem_cons_self
    (text y ++ (lines level text ys ++ (newlineIndent outer ++ close :: rest))) _
    (delimited_lines level outer ys _) (by rw [hy, List.cons_append, skipWhitespace_cons hb])
  have hfuel : ys.length ≤
      (tail ++ (lines level text ys ++ (newlineIndent outer ++ close :: rest))).length := by
    rw [List.length_append, List.length_append]
    omega
  have htail := fun i => afterElement_lines hclose htext level outer rest i hfuel
    fun z hz => helement z (List.mem_cons_of_mem _ hz)
  rw [hy, List.cons_append] at hself ⊢
  rw [parseElements, skipWhitespace_newlineIndent hb]
  simp only
  rw [if_neg hne, List.length_cons, parseSeq, hself, List.mapM_cons]
  cases item y with
  | none => rfl
  | some i =>
    rw [Option.map_some, Option.bind_some, htail i]
    cases ys.mapM item <;> rfl

end Lines

/-! ## Values -/

theorem dumpsTail_eq (level : ℕ) (xs : List PyValue) :
    dumpsTail level xs = lines level (dumps level) xs := by
  induction xs with
  | nil => rfl
  | cons x xs ih =>
    rw [dumpsTail, ih]
    simp only [lines, List.flatMap_cons, List.cons_append, List.append_assoc]

/-- The line of a member. -/
def memberText (level : ℕ) (kv : PyStr × PyValue) : Bytes :=
  dumpStr kv.1 ++ [58, 32] ++ dumps level kv.2

def toMember (depth : ℕ) (kv : PyStr × PyValue) : Option (Bytes × Item) :=
  (itemStr kv.1).bind fun name => (toItem depth kv.2).map fun item => (name, item)

theorem dumpsMembers_eq (level : ℕ) (kvs : List (PyStr × PyValue)) :
    dumpsMembers level kvs = lines level (memberText level) kvs := by
  induction kvs with
  | nil => rfl
  | cons kv kvs ih =>
    rw [dumpsMembers, ih]
    simp only [lines, memberText, List.flatMap_cons, List.cons_append, List.append_assoc]

theorem toItems_eq (depth : ℕ) (xs : List PyValue) : toItems depth xs = xs.mapM (toItem depth) := by
  induction xs with
  | nil => rfl
  | cons x xs ih =>
    rw [toItems, ih, List.mapM_cons]
    cases toItem depth x with
    | none => rfl
    | some item => cases xs.mapM (toItem depth) <;> rfl

theorem toMembers_eq (depth : ℕ) (kvs : List (PyStr × PyValue)) :
    toMembers depth kvs = kvs.mapM (toMember depth) := by
  induction kvs with
  | nil => rfl
  | cons kv kvs ih =>
    rw [toMembers, ih, List.mapM_cons, toMember]
    cases itemStr kv.1 with
    | none => rfl
    | some name =>
      cases toItem depth kv.2 with
      | none => rfl
      | some item => cases kvs.mapM (toMember depth) <;> rfl

/-- The first byte of a number. -/
theorem head_numberText (negative : Bool) (digits : Digits) (fraction : Option Digits)
    (exponent : Option (Bool × Digits)) : ∃ b tail,
    numberText negative digits fraction exponent = b :: tail ∧ (b = 45 ∨ isDigit b = true) := by
  cases negative with
  | true => exact ⟨45, _, rfl, .inl rfl⟩
  | false =>
    obtain ⟨b, rest, hbytes, hb⟩ :=
      digits.head_isDigit (fractionText fraction ++ exponentText exponent)
    refine ⟨b, rest, ?_, .inr hb⟩
    rw [← hbytes, numberText, List.append_assoc, List.append_assoc]
    rfl

theorem lt_of_number {b : UInt8} (h : b = 45 ∨ isDigit b = true) : 32 < b ∧ b ≤ 57 := by
  rcases h with rfl | h
  · exact ⟨by decide, by decide⟩
  · simp only [isDigit, Bool.and_eq_true, decide_eq_true_eq] at h
    exact ⟨UInt8.lt_of_lt_of_le (by decide) h.1, h.2⟩

/-- A value begins with a byte that is no white space and closes nothing. -/
theorem head_dumps (level : ℕ) (v : PyValue) :
    ∃ b tail, dumps level v = b :: tail ∧ 32 < b ∧ b ≠ 93 ∧ b < 128 := by
  have hnumber : ∀ negative digits fraction exponent, ∃ b tail,
      numberText negative digits fraction exponent = b :: tail ∧ 32 < b ∧ b ≠ 93 ∧ b < 128 := by
    intro negative digits fraction exponent
    obtain ⟨b, tail, htext, hb⟩ := head_numberText negative digits fraction exponent
    obtain ⟨hlt, hle⟩ := lt_of_number hb
    refine ⟨b, tail, htext, hlt, ?_, UInt8.lt_of_le_of_lt hle (by decide)⟩
    rintro rfl
    exact absurd hle (by decide)
  cases v with
  | none => exact ⟨_, _, rfl, by decide, by decide, by decide⟩
  | bool b => cases b <;> exact ⟨_, _, rfl, by decide, by decide, by decide⟩
  | int negative digits => exact hnumber negative digits none none
  | float f =>
    cases f with
    | nan => exact ⟨_, _, rfl, by decide, by decide, by decide⟩
    | infinity negative => cases negative <;> exact ⟨_, _, rfl, by decide, by decide, by decide⟩
    | finite negative digits fraction exponent _ => exact hnumber negative digits fraction exponent
  | str s => exact ⟨_, _, rfl, by decide, by decide, by decide⟩
  | list xs => cases xs <;> exact ⟨_, _, rfl, by decide, by decide, by decide⟩
  | dict kvs => cases kvs <;> exact ⟨_, _, rfl, by decide, by decide, by decide⟩

theorem parseValue_numberText (depth : ℕ) (negative : Bool) (digits : Digits)
    (fraction : Option Digits) (exponent : Option (Bool × Digits)) {rest : Bytes}
    (hrest : Delimited rest) :
    parseValue depth (numberText negative digits fraction exponent ++ rest) =
      some (.number (numberText negative digits fraction exponent), rest) := by
  have hnumber := parseNumber_numberText negative digits fraction exponent hrest
  obtain ⟨b, tail, htext, hb⟩ := head_numberText negative digits fraction exponent
  obtain ⟨hlt, hle⟩ := lt_of_number hb
  rw [htext, List.cons_append] at hnumber ⊢
  rw [parseValue_of_ne _ _, parseScalar_number hb, hnumber]
  · rintro rfl
    exact absurd hle (by decide)
  · rintro rfl
    exact absurd hle (by decide)

/-- `NaN` and `Infinity` are no JSON, and the sign of `-Infinity` is no number. -/
theorem parseValue_dumpFloat (depth : ℕ) (f : PyFloat) {rest : Bytes} (hrest : Delimited rest) :
    parseValue depth (dumpFloat f ++ rest) = (floatItem f).map fun item => (item, rest) := by
  cases f with
  | nan =>
    show parseValue depth (78 :: _) = none
    rw [parseValue_of_ne (by decide) (by decide),
      parseScalar_eq_none rfl (by decide) (by decide)]
  | infinity negative =>
    cases negative with
    | false =>
      show parseValue depth (73 :: _) = none
      rw [parseValue_of_ne (by decide) (by decide),
        parseScalar_eq_none rfl (by decide) (by decide)]
    | true =>
      show parseValue depth (45 :: _) = none
      rw [parseValue_of_ne (by decide) (by decide), parseScalar_number (.inl rfl)]
      rfl
  | finite negative digits fraction exponent _ =>
    exact parseValue_numberText depth negative digits fraction exponent hrest

theorem parseMember_memberText {depth level : ℕ} {kv : PyStr × PyValue}
    (hvalue : ∀ {rest}, Delimited rest →
      parseValue depth (dumps level kv.2 ++ rest) =
        (toItem depth kv.2).map fun item => (item, rest))
    {buffer rest : Bytes} (hrest : Delimited rest)
    (hskip : skipWhitespace buffer = memberText level kv ++ rest) :
    parseMember (parseValue depth) buffer = (toMember depth kv).map fun m => (m, rest) := by
  have htext : memberText level kv ++ rest =
      dumpStr kv.1 ++ (58 :: 32 :: (dumps level kv.2 ++ rest)) := by
    simp only [memberText, List.append_assoc, List.cons_append, List.nil_append]
  have hblank : skipWhitespace (32 :: (dumps level kv.2 ++ rest)) = dumps level kv.2 ++ rest := by
    obtain ⟨b, tail, hdumps, hb, -⟩ := head_dumps level kv.2
    have hdrop : (32 :: (b :: (tail ++ rest))).dropWhile (· ≤ 32) = b :: (tail ++ rest) := by
      rw [List.dropWhile_cons_of_pos (by decide)]
      exact List.dropWhile_cons_of_neg (by rw [decide_eq_true_eq]; exact UInt8.not_le.mpr hb)
    rw [hdumps, List.cons_append, skipWhitespace, hdrop]
  rw [parseMember, hskip, htext, parseString_dumpStr, toMember]
  cases itemStr kv.1 with
  | none => rfl
  | some name =>
    rw [Option.map_some, Option.bind_some, Option.bind_some, skipWhitespace_cons (by decide)]
    simp only
    rw [if_pos trivial, hblank, hvalue hrest, Option.map_map, Option.map_map]
    rfl

theorem parseValue_array (depth : ℕ) (rest : Bytes) : parseValue (depth + 1) (91 :: rest) =
    (parseElements (fun buffer => parseValue depth (skipWhitespace buffer)) 93 rest).map
      fun r => (.array r.1, r.2) := by
  rw [parseValue, if_pos rfl]

theorem parseValue_object (depth : ℕ) (rest : Bytes) : parseValue (depth + 1) (123 :: rest) =
    (parseElements (parseMember (parseValue depth)) 125 rest).map
      fun r => (.object r.1, r.2) := by
  rw [parseValue, if_neg (by decide), if_pos rfl]

/-- A level too deep. -/
theorem parseValue_zero {b : UInt8} (h : b = 91 ∨ b = 123) (rest : Bytes) :
    parseValue 0 (b :: rest) = none := by
  rcases h with rfl | rfl <;> exact parseScalar_eq_none rfl (by decide) (by decide) rest

theorem parseElements_close {α : Type} {element : Bytes → Option (α × Bytes)} {close : UInt8}
    (hclose : 32 < close) (rest : Bytes) :
    parseElements element close (close :: rest) = some ([], rest) := by
  rw [parseElements, skipWhitespace_cons hclose]
  exact if_pos rfl

/-- **The value in front of what follows it**, at any depth. -/
theorem parseValue_dumps : ∀ (v : PyValue) (depth level : ℕ) {rest : Bytes}, Delimited rest →
    parseValue depth (dumps level v ++ rest) = (toItem depth v).map fun item => (item, rest)
  | .none, depth, level, rest, _ => by
    rw [dumps, toItem]
    show parseValue depth (110 :: _) = _
    rw [parseValue_of_ne (by decide) (by decide)]
    exact parseScalar_word (parseWord_null rest)
  | .bool false, depth, level, rest, _ => by
    rw [dumps, toItem]
    show parseValue depth (102 :: _) = _
    rw [parseValue_of_ne (by decide) (by decide)]
    exact parseScalar_word (parseWord_false rest)
  | .bool true, depth, level, rest, _ => by
    rw [dumps, toItem]
    show parseValue depth (116 :: _) = _
    rw [parseValue_of_ne (by decide) (by decide)]
    exact parseScalar_word (parseWord_true rest)
  | .int negative digits, depth, level, rest, hrest => by
    rw [dumps, toItem]
    exact parseValue_numberText depth negative digits none none hrest
  | .float f, depth, level, rest, hrest => by
    rw [dumps, toItem]
    exact parseValue_dumpFloat depth f hrest
  | .str s, depth, level, rest, _ => by
    have hstring := parseString_dumpStr s rest
    rw [dumps, toItem]
    rw [dumpStr, List.cons_append] at hstring ⊢
    rw [parseValue_of_ne (by decide) (by decide), parseScalar_string, hstring, Option.map_map,
      Option.map_map]
    rfl
  | .list [], 0, level, rest, _ => by
    rw [dumps, toItem]
    exact parseValue_zero (.inl rfl) _
  | .list (x :: xs), 0, level, rest, _ => by
    rw [dumps, toItem]
    exact parseValue_zero (.inl rfl) _
  | .dict [], 0, level, rest, _ => by
    rw [dumps, toItem]
    exact parseValue_zero (.inr rfl) _
  | .dict ((k, v) :: kvs), 0, level, rest, _ => by
    rw [dumps, toItem]
    exact parseValue_zero (.inr rfl) _
  | .list [], depth + 1, level, rest, _ => by
    rw [dumps, toItem, toItems]
    show parseValue (depth + 1) (91 :: 93 :: rest) = _
    rw [parseValue_array, parseElements_close (by decide)]
    rfl
  | .dict [], depth + 1, level, rest, _ => by
    rw [dumps, toItem, toMembers]
    show parseValue (depth + 1) (123 :: 125 :: rest) = _
    rw [parseValue_object, parseElements_close (by decide)]
    rfl
  | .list (x :: xs), depth + 1, level, rest, _ => by
    have helement : ∀ z ∈ x :: xs, ∀ buffer rest, Delimited rest →
        skipWhitespace buffer = dumps (level + 1) z ++ rest →
        parseValue depth (skipWhitespace buffer) =
          (toItem depth z).map fun item => (item, rest) := by
      intro z hz buffer rest hrest hskip
      rw [hskip]
      exact parseValue_dumps z depth (level + 1) hrest
    have htext : ∀ y, ∃ b tail, dumps (level + 1) y = b :: tail ∧ 32 < b ∧ b ≠ 93 := by
      intro y
      obtain ⟨b, tail, hdumps, hlt, hne, -⟩ := head_dumps (level + 1) y
      exact ⟨b, tail, hdumps, hlt, hne⟩
    have helements := parseElements_lines (show 32 < (93 : UInt8) ∧ (93 : UInt8) ≠ 44 by decide)
      htext (level + 1) level rest helement
    rw [dumps, toItem, toItems_eq, dumpsTail_eq]
    simp only [List.cons_append, List.append_assoc, List.nil_append]
    rw [parseValue_array, helements, Option.map_map, Option.map_map]
    rfl
  | .dict ((k, v) :: kvs), depth + 1, level, rest, _ => by
    have helement : ∀ z ∈ (k, v) :: kvs, ∀ buffer rest, Delimited rest →
        skipWhitespace buffer = memberText (level + 1) z ++ rest →
        parseMember (parseValue depth) buffer =
          (toMember depth z).map fun item => (item, rest) := by
      intro z hz buffer rest hrest hskip
      exact parseMember_memberText (fun hrest => parseValue_dumps z.2 depth (level + 1) hrest)
        hrest hskip
    have htext : ∀ y, ∃ b tail, memberText (level + 1) y = b :: tail ∧ 32 < b ∧ b ≠ 125 := by
      intro y
      exact ⟨34, _, rfl, by decide, by decide⟩
    have helements := parseElements_lines (show 32 < (125 : UInt8) ∧ (125 : UInt8) ≠ 44 by decide)
      htext (level + 1) level rest helement
    rw [dumps, toItem, toMembers_eq, dumpsMembers_eq]
    show parseValue (depth + 1) (123 :: (newlineIndent (level + 1) ++ memberText (level + 1) (k, v)
      ++ lines (level + 1) (memberText (level + 1)) kvs ++ newlineIndent level ++ [125] ++ rest)) = _
    simp only [List.append_assoc, List.cons_append, List.nil_append] at helements ⊢
    rw [parseValue_object, helements, Option.map_map, Option.map_map]
    rfl
termination_by v => sizeOf v
decreasing_by
  · have hlt := List.sizeOf_lt_of_mem hz
    simp only [PyValue.list.sizeOf_spec]
    omega
  · have hlt := List.sizeOf_lt_of_mem hz
    have hpair : sizeOf z.2 < sizeOf z := by
      obtain ⟨name, value⟩ := z
      simp only [Prod.mk.sizeOf_spec]
      omega
    simp only [PyValue.dict.sizeOf_spec]
    omega

/-! ## The whole text -/

/-- Every byte of the text is ASCII, and none is a NUL. -/
def IsAscii (text : Bytes) : Prop := ∀ b ∈ text, b ≠ 0 ∧ b < 128

theorem isAscii_of_all {text : Bytes} (h : (text.all fun b => b != 0 && b < 128) = true) :
    IsAscii text := by
  intro b hb
  have hb' := List.all_eq_true.mp h b hb
  rwa [Bool.and_eq_true, bne_iff_ne, decide_eq_true_eq] at hb'

theorem isAscii_append {xs ys : Bytes} (hxs : IsAscii xs) (hys : IsAscii ys) :
    IsAscii (xs ++ ys) := by
  intro b hb
  rcases List.mem_append.mp hb with h | h
  · exact hxs b h
  · exact hys b h

theorem isAscii_unicodeEscape (n : ℕ) : IsAscii (unicodeEscape n) := by
  have hdigit : ∀ d : Fin 16, hexDigit d.val ≠ 0 ∧ hexDigit d.val < 128 := by decide
  have hmod : ∀ k : ℕ, hexDigit (k % 16) ≠ 0 ∧ hexDigit (k % 16) < 128 :=
    fun k => hdigit ⟨k % 16, Nat.mod_lt k (by decide)⟩
  intro b hb
  simp only [unicodeEscape, List.mem_cons, List.not_mem_nil, or_false] at hb
  rcases hb with rfl | rfl | rfl | rfl | rfl | rfl
  · decide
  · decide
  all_goals exact hmod _

theorem isAscii_cons {b : UInt8} {xs : Bytes} (hb : b ≠ 0 ∧ b < 128) (hxs : IsAscii xs) :
    IsAscii (b :: xs) :=
  List.forall_mem_cons.mpr ⟨hb, hxs⟩

theorem isAscii_encode (s : PyStr) : IsAscii (encode s) := by
  intro b hb
  obtain ⟨c, -, hmem⟩ := List.mem_flatMap.mp hb
  have hc := encoded_encodeChar c
  generalize c.val = n at hc
  generalize encodeChar c = xs at hc hmem
  cases hc with
  | plain b' _ _ hprintable =>
    rw [List.mem_singleton.mp hmem]
    exact hprintable
  | short e b' _ hletter _ =>
    rcases List.mem_cons.mp hmem with rfl | hmem
    · decide
    · rw [List.mem_singleton.mp hmem]
      exact hletter
  | unit n _ => exact isAscii_unicodeEscape n b hmem
  | pair n _ _ =>
    exact isAscii_append (isAscii_unicodeEscape _) (isAscii_unicodeEscape _) b hmem

theorem isAscii_dumpStr (s : PyStr) : IsAscii (dumpStr s) :=
  isAscii_cons (by decide) (isAscii_append (isAscii_encode s) (isAscii_cons (by decide)
    (List.forall_mem_nil _)))

theorem isAscii_numberText (negative : Bool) (digits : Digits) (fraction : Option Digits)
    (exponent : Option (Bool × Digits)) :
    IsAscii (numberText negative digits fraction exponent) := by
  intro b hb
  have hnumber := isNumberByte_numberText negative digits fraction exponent b hb
  simp only [isNumberByte, isDigit, isSign, Bool.or_eq_true, Bool.and_eq_true, decide_eq_true_eq,
    beq_iff_eq] at hnumber
  rcases hnumber with (((hdigit | rfl | rfl) | rfl) | rfl) | rfl
  · refine ⟨?_, UInt8.lt_of_le_of_lt hdigit.2 (by decide)⟩
    rintro rfl
    exact absurd hdigit.1 (by decide)
  all_goals decide

theorem isAscii_newlineIndent (level : ℕ) : IsAscii (newlineIndent level) := by
  refine isAscii_cons (by decide) ?_
  intro b hb
  rw [List.eq_of_mem_replicate hb]
  decide

theorem isAscii_lines {β : Type} {text : β → Bytes} (level : ℕ) {ys : List β}
    (h : ∀ y ∈ ys, IsAscii (text y)) : IsAscii (lines level text ys) := by
  intro b hb
  obtain ⟨y, hy, hmem⟩ := List.mem_flatMap.mp hb
  exact isAscii_cons (by decide) (isAscii_append (isAscii_newlineIndent level) (h y hy)) b hmem

theorem isAscii_memberText {level : ℕ} (kv : PyStr × PyValue)
    (h : IsAscii (dumps level kv.2)) : IsAscii (memberText level kv) :=
  isAscii_append (isAscii_append (isAscii_dumpStr kv.1) (isAscii_of_all rfl)) h

/-- **The text is ASCII** without a NUL, whatever the value. -/
theorem isAscii_dumps : ∀ (v : PyValue) (level : ℕ), IsAscii (dumps level v)
  | .none, level => by
    rw [dumps]
    exact isAscii_of_all rfl
  | .bool false, level => by
    rw [dumps]
    exact isAscii_of_all rfl
  | .bool true, level => by
    rw [dumps]
    exact isAscii_of_all rfl
  | .int negative digits, level => by
    rw [dumps]
    exact isAscii_numberText negative digits none none
  | .float .nan, level => by
    rw [dumps, dumpFloat]
    exact isAscii_of_all rfl
  | .float (.infinity negative), level => by
    rw [dumps, dumpFloat]
    cases negative <;> exact isAscii_of_all rfl
  | .float (.finite negative digits fraction exponent _), level => by
    rw [dumps]
    exact isAscii_numberText negative digits fraction exponent
  | .str s, level => by
    rw [dumps]
    exact isAscii_dumpStr s
  | .list [], level => by
    rw [dumps]
    exact isAscii_of_all rfl
  | .dict [], level => by
    rw [dumps]
    exact isAscii_of_all rfl
  | .list (x :: xs), level => by
    rw [dumps, dumpsTail_eq]
    refine isAscii_cons (by decide) (isAscii_append (isAscii_append (isAscii_append (isAscii_append
      (isAscii_newlineIndent _) (isAscii_dumps x (level + 1))) (isAscii_lines _ ?_))
      (isAscii_newlineIndent _)) (isAscii_cons (by decide) (List.forall_mem_nil _)))
    intro y hy
    exact isAscii_dumps y (level + 1)
  | .dict ((k, v) :: kvs), level => by
    rw [dumps, dumpsMembers_eq]
    refine isAscii_cons (by decide) (isAscii_append (isAscii_append (isAscii_append (isAscii_append
      (isAscii_newlineIndent _) (isAscii_memberText (k, v) (isAscii_dumps v (level + 1))))
      (isAscii_lines _ ?_)) (isAscii_newlineIndent _))
      (isAscii_cons (by decide) (List.forall_mem_nil _)))
    intro kv hkv
    exact isAscii_memberText kv (isAscii_dumps kv.2 (level + 1))
termination_by v => sizeOf v
decreasing_by
  · simp only [PyValue.list.sizeOf_spec, List.cons.sizeOf_spec]
    omega
  · have hlt := List.sizeOf_lt_of_mem hy
    simp only [PyValue.list.sizeOf_spec, List.cons.sizeOf_spec]
    omega
  · simp only [PyValue.dict.sizeOf_spec, List.cons.sizeOf_spec, Prod.mk.sizeOf_spec]
    omega
  · have hlt := List.sizeOf_lt_of_mem hkv
    have hpair : sizeOf kv.2 < sizeOf kv := by
      obtain ⟨name, value⟩ := kv
      simp only [Prod.mk.sizeOf_spec]
      omega
    simp only [PyValue.dict.sizeOf_spec, List.cons.sizeOf_spec]
    omega

theorem cStr_of_isAscii {text : Bytes} (h : IsAscii text) : cStr text = text :=
  List.takeWhile_eq_self_iff.mpr fun b hb => bne_iff_ne.mpr (h b hb).1

/-- **cJSON reads what `json.dump` writes.** -/
theorem cJsonParse_dumps (v : PyValue) : cJsonParse (dumps 0 v) = toItem nestingLimit v := by
  obtain ⟨b, tail, hdumps, hlt, -, hascii⟩ := head_dumps 0 v
  have hend : Delimited [0] := by
    intro c hc
    cases hc
    rfl
  have hbom : skipBom (dumps 0 v ++ [0]) = dumps 0 v ++ [0] := by
    rw [skipBom, if_neg]
    rintro ⟨-, hprefix⟩
    rw [hdumps, List.cons_append] at hprefix
    rw [← (List.cons_prefix_cons.mp hprefix).1] at hascii
    exact absurd hascii (by decide)
  have hskip : skipWhitespace (dumps 0 v ++ [0]) = dumps 0 v ++ [0] := by
    rw [hdumps, List.cons_append, skipWhitespace_cons hlt]
  rw [cJsonParse, cStr_of_isAscii (isAscii_dumps v 0), hbom, hskip,
    parseValue_dumps v nestingLimit 0 hend, Option.map_map]
  exact Option.map_id'

end Dts.Json
