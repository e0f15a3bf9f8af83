import Mathlib.Algebra.Ring.Nat
import Dts.Infra.Bytes

/-!
# Code points in UTF-16 and UTF-8

A code point from `0x10000` on is two code units in UTF-16, a high surrogate and a low one. Code
points that are surrogates themselves have no place in UTF-8, but an encoder that does not look gives
them three bytes, as any other code point of that size.

* `joinSurrogates_split` — the two surrogates of a code point give it back
* `utf8Bytes_char` — the bytes are those of Lean's own encoder, for a character
* `tailByte_eq`, `headByte_eq` — the bytes as an encoder computes them bit by bit
* `map_tolower_charBytes`, `takeWhile_charBytes` — what a program that works on the bytes of a text
  sees of it
-/

namespace Infra

/-- A code point; a surrogate is one too. -/
abbrev CodePoint := Fin 0x110000

def isHighSurrogate (n : ℕ) : Bool := 0xD800 ≤ n && n ≤ 0xDBFF

def isLowSurrogate (n : ℕ) : Bool := 0xDC00 ≤ n && n ≤ 0xDFFF

theorem not_isLow_of_isHigh {n : ℕ} (h : isHighSurrogate n = true) : isLowSurrogate n = false := by
  simp only [isHighSurrogate, isLowSurrogate, Bool.and_eq_true, decide_eq_true_eq,
    Bool.and_eq_false_iff, decide_eq_false_iff_not] at h ⊢
  omega

/-! ## UTF-16 -/

/-- The high surrogate of a code point from `0x10000` on. -/
def highSurrogate (n : ℕ) : ℕ := 0xD800 ||| (((n - 0x10000) >>> 10) &&& 0x3FF)

def lowSurrogate (n : ℕ) : ℕ := 0xDC00 ||| ((n - 0x10000) &&& 0x3FF)

def joinSurrogates (high low : ℕ) : ℕ := 0x10000 + (((high &&& 0x3FF) <<< 10) ||| (low &&& 0x3FF))

theorem highSurrogate_eq (n : ℕ) : highSurrogate n = 0xD800 + (n - 0x10000) / 1024 % 1024 := by
  have hlt : (n - 0x10000) / 1024 % 1024 < 2 ^ 10 := Nat.mod_lt _ (by decide)
  rw [highSurrogate, Nat.and_two_pow_sub_one_eq_mod _ 10, Nat.shiftRight_eq_div_pow]
  exact (Nat.two_pow_add_eq_or_of_lt hlt 54).symm

theorem lowSurrogate_eq (n : ℕ) : lowSurrogate n = 0xDC00 + (n - 0x10000) % 1024 := by
  have hlt : (n - 0x10000) % 1024 < 2 ^ 10 := Nat.mod_lt _ (by decide)
  rw [lowSurrogate, Nat.and_two_pow_sub_one_eq_mod _ 10]
  exact (Nat.two_pow_add_eq_or_of_lt hlt 55).symm

theorem joinSurrogates_eq (high low : ℕ) :
    joinSurrogates high low = 0x10000 + (high % 1024 * 1024 + low % 1024) := by
  have hlt : low % 1024 < 2 ^ 10 := Nat.mod_lt _ (by decide)
  rw [joinSurrogates, Nat.and_two_pow_sub_one_eq_mod _ 10, Nat.and_two_pow_sub_one_eq_mod _ 10,
    Nat.shiftLeft_eq, Nat.mul_comm _ (2 ^ 10), ← Nat.two_pow_add_eq_or_of_lt hlt,
    Nat.mul_comm (2 ^ 10)]

/-- **The two halves of a code point.** -/
theorem joinSurrogates_split {n : ℕ} (hn : 0x10000 ≤ n) (hlt : n < 0x110000) :
    joinSurrogates (highSurrogate n) (lowSurrogate n) = n := by
  rw [joinSurrogates_eq, highSurrogate_eq, lowSurrogate_eq]
  omega

theorem isHighSurrogate_highSurrogate {n : ℕ} : isHighSurrogate (highSurrogate n) = true := by
  rw [highSurrogate_eq]
  simp only [isHighSurrogate, Bool.and_eq_true, decide_eq_true_eq]
  omega

theorem isLowSurrogate_lowSurrogate {n : ℕ} : isLowSurrogate (lowSurrogate n) = true := by
  rw [lowSurrogate_eq]
  simp only [isLowSurrogate, Bool.and_eq_true, decide_eq_true_eq]
  omega

theorem joinSurrogates_lt (high low : ℕ) : joinSurrogates high low < 0x110000 := by
  rw [joinSurrogates_eq]
  omega

/-! ## UTF-8 -/

/-- The bytes of a code point. -/
def utf8Bytes (n : ℕ) : Bytes :=
  if n ≤ 0x7F then [UInt8.ofNat n]
  else if n ≤ 0x7FF then [UInt8.ofNat (n / 64 % 0x20 + 0xC0), UInt8.ofNat (n % 0x40 + 0x80)]
  else if n ≤ 0xFFFF then
    [UInt8.ofNat (n / 4096 % 0x10 + 0xE0), UInt8.ofNat (n / 64 % 0x40 + 0x80),
      UInt8.ofNat (n % 0x40 + 0x80)]
  else
    [UInt8.ofNat (n / 262144 % 0x08 + 0xF0), UInt8.ofNat (n / 4096 % 0x40 + 0x80),
      UInt8.ofNat (n / 64 % 0x40 + 0x80), UInt8.ofNat (n % 0x40 + 0x80)]

/-- The bytes are those of Lean's encoder. -/
theorem utf8Bytes_char (c : Char) : utf8Bytes c.toNat = String.utf8EncodeChar c := rfl

/-- Every byte of a longer sequence has its top bit. -/
theorem le_of_mem_utf8Bytes {n : ℕ} (hn : n < 0x110000) (h : 128 ≤ n) :
    ∀ b ∈ utf8Bytes n, 128 ≤ b := by
  have hbyte : ∀ k : ℕ, 128 ≤ k → k < 256 → 128 ≤ UInt8.ofNat k := by
    intro k hk hlt
    rw [UInt8.le_iff_toNat_le, UInt8.toNat_ofNat', Nat.mod_eq_of_lt hlt]
    exact hk
  unfold utf8Bytes
  rw [if_neg (show ¬n ≤ 0x7F by omega)]
  split
  · simp only [List.forall_mem_cons]
    exact ⟨hbyte _ (by omega) (by omega), hbyte _ (by omega) (by omega), List.forall_mem_nil _⟩
  · split
    · simp only [List.forall_mem_cons]
      exact ⟨hbyte _ (by omega) (by omega), hbyte _ (by omega) (by omega),
        hbyte _ (by omega) (by omega), List.forall_mem_nil _⟩
    · simp only [List.forall_mem_cons]
      exact ⟨hbyte _ (by omega) (by omega), hbyte _ (by omega) (by omega),
        hbyte _ (by omega) (by omega), hbyte _ (by omega) (by omega), List.forall_mem_nil _⟩

/-- A byte that goes on a sequence, as an encoder takes it from the rest of the code point. -/
def tailByte (n : ℕ) : UInt8 := UInt8.ofNat ((n ||| 0x80) &&& 0xBF)

/-- The first byte of a sequence with the mark of its length. -/
def headByte (mark n : ℕ) : UInt8 := UInt8.ofNat ((n ||| mark) &&& 0xFF)

theorem tailByte_eq (n : ℕ) : tailByte n = UInt8.ofNat (n % 0x40 + 0x80) := by
  have habsorb : n &&& 0x80 ||| 0x80 = 0x80 := by
    refine Nat.eq_of_testBit_eq fun i => ?_
    rw [Nat.testBit_or, Nat.testBit_and]
    cases n.testBit i <;> cases Nat.testBit 0x80 i <;> rfl
  have hlt : n % 0x40 < 2 ^ 6 := Nat.mod_lt _ (by decide)
  have hbits : (n ||| 0x80) &&& 0xBF = n % 0x40 + 0x80 :=
    calc (n ||| 0x80) &&& 0xBF
        = n &&& (0x3F ||| 0x80) ||| 0x80 := by rw [Nat.and_or_distrib_right]; rfl
      _ = n &&& 0x3F ||| (n &&& 0x80 ||| 0x80) := by rw [Nat.and_or_distrib_left, Nat.or_assoc]
      _ = 2 ^ 6 * 2 ||| n % 0x40 := by
        rw [habsorb, Nat.and_two_pow_sub_one_eq_mod n 6, Nat.or_comm]
        rfl
      _ = n % 0x40 + 0x80 := by rw [← Nat.two_pow_add_eq_or_of_lt hlt, Nat.add_comm]
  rw [tailByte, hbits]

theorem headByte_eq {i a n : ℕ} (h : n < 2 ^ i) (ha : 2 ^ i * a + n < 256) :
    headByte (2 ^ i * a) n = UInt8.ofNat (n + 2 ^ i * a) := by
  rw [headByte, Nat.or_comm, ← Nat.two_pow_add_eq_or_of_lt h,
    Nat.and_two_pow_sub_one_eq_mod _ 8, Nat.mod_eq_of_lt ha, Nat.add_comm]

/-! ## Texts -/

/-- The bytes of a text. -/
def charBytes (s : List Char) : Bytes := s.flatMap String.utf8EncodeChar

theorem charBytes_inj {s t : List Char} : charBytes s = charBytes t ↔ s = t := by
  constructor
  · intro h
    have hbytes : s.utf8Encode = t.utf8Encode := congrArg List.toByteArray h
    rw [← String.toByteArray_ofList, ← String.toByteArray_ofList, String.toByteArray_inj] at hbytes
    exact String.ofList_injective hbytes
  · rintro rfl
    rfl

/-- `tolower` of the C locale. -/
def tolower (b : UInt8) : UInt8 := if 65 ≤ b ∧ b ≤ 90 then b + 32 else b

theorem charCode_lt (c : Char) : c.toNat < 0x110000 := by
  rcases c.valid with h | h
  · exact Nat.lt_trans h (by decide)
  · exact h.2

/-- A character as a code point. -/
def codePoint (c : Char) : CodePoint := ⟨c.toNat, charCode_lt c⟩

theorem tolower_of_le {b : UInt8} (h : 128 ≤ b) : tolower b = b := by
  refine if_neg fun hupper => ?_
  exact absurd (UInt8.le_trans h hupper.2) (by decide)

theorem toLower_of_le {c : Char} (h : 128 ≤ c.toNat) : c.toLower = c := by
  refine dif_neg fun hupper => ?_
  have hle : c.toNat ≤ 90 := hupper.2
  omega

theorem map_tolower_ascii : ∀ n : Fin 128,
    (String.utf8EncodeChar (Char.ofNat n)).map tolower =
      String.utf8EncodeChar (Char.ofNat n).toLower := by
  decide +kernel

/-- Lower case, byte by byte or character by character. -/
theorem map_tolower_charBytes (s : List Char) :
    (charBytes s).map tolower = charBytes (s.map Char.toLower) := by
  induction s with
  | nil => rfl
  | cons c s ih =>
    have hchar : (String.utf8EncodeChar c).map tolower = String.utf8EncodeChar c.toLower := by
      by_cases hc : c.toNat < 128
      · have hascii := map_tolower_ascii ⟨c.toNat, hc⟩
        rwa [Char.ofNat_toNat] at hascii
      · have hhigh := le_of_mem_utf8Bytes (charCode_lt c) (Nat.le_of_not_lt hc)
        rw [toLower_of_le (Nat.le_of_not_lt hc)]
        exact (List.map_congr_left fun b hb => tolower_of_le (hhigh b hb)).trans (List.map_id _)
    show (String.utf8EncodeChar c ++ charBytes s).map tolower =
      String.utf8EncodeChar c.toLower ++ charBytes (s.map Char.toLower)
    rw [List.map_append, hchar, ih]

theorem eq_zero_of_mem_ascii : ∀ n : Fin 128,
    0 ∈ String.utf8EncodeChar (Char.ofNat n) → n.val = 0 := by
  decide +kernel

/-- The bytes in front of the first NUL. -/
theorem takeWhile_charBytes (s : List Char) : (charBytes s).takeWhile (fun b => b != 0) =
    charBytes (s.takeWhile fun c => c ≠ '\x00') := by
  induction s with
  | nil => rfl
  | cons c s ih =>
    show (String.utf8EncodeChar c ++ charBytes s).takeWhile (fun b => b != 0) = _
    by_cases hc : c = '\x00'
    · rw [hc, List.takeWhile_cons_of_neg (by simp)]
      rfl
    · have hne : ∀ b ∈ String.utf8EncodeChar c, (b != 0) = true := by
        intro b hb
        rw [bne_iff_ne]
        rintro rfl
        by_cases hlt : c.toNat < 128
        · have hzero := eq_zero_of_mem_ascii ⟨c.toNat, hlt⟩
          rw [Char.ofNat_toNat] at hzero
          exact hc (Char.toNat_inj.mp (hzero hb))
        · have hhigh := le_of_mem_utf8Bytes (charCode_lt c) (Nat.le_of_not_lt hlt)
          exact absurd (hhigh 0 hb) (by decide)
      rw [List.takeWhile_append_of_pos hne, ih, List.takeWhile_cons_of_pos (by simp [hc])]
      rfl

end Infra
