import Dts.Infra.Utf

/-!
# The parser of cJSON

The parser of the vendored cJSON, on the bytes that are left: `offset` moves on where a byte is taken
off the list. The buffer holds the text and its NUL. `buffer_skip_whitespace` takes every byte up to
32, the NUL as well, and steps back on to the last byte when nothing else is left.

* `cJsonParse` — `cJSON_Parse`
* `parseSeq_eq_of_length_le` — the loop over the elements of an array or an object never ends for
  lack of fuel: each element takes a byte at least
-/

namespace Dts.Json

open Infra

/-! ## Items -/

/--
A parsed item. A number has the text that `strtod` takes; `valuestring` and `string` end at their
first NUL, as C reads them.
-/
inductive Item where
  | null
  | false_
  | true_
  | number (text : Bytes)
  | string (valuestring : Bytes)
  | array (child : List Item)
  | object (child : List (Bytes × Item))

/-- `CJSON_NESTING_LIMIT`. -/
def nestingLimit : ℕ := 1000

/-- `buffer_skip_whitespace`. -/
def skipWhitespace (buffer : Bytes) : Bytes :=
  match buffer.dropWhile (· ≤ 32) with
  | [] => buffer.getLast?.toList
  | rest => rest

/-- The bytes that come first, taken off. -/
def startsWith (word buffer : Bytes) : Option Bytes :=
  if word <+: buffer then some (buffer.drop word.length) else none

/-! ## Strings -/

/-- One digit of `parse_hex4`. -/
def hexValue (b : UInt8) : Option ℕ :=
  if 48 ≤ b ∧ b ≤ 57 then some (b.toNat - 48)
  else if 65 ≤ b ∧ b ≤ 70 then some (10 + b.toNat - 65)
  else if 97 ≤ b ∧ b ≤ 102 then some (10 + b.toNat - 97)
  else none

/-- `parse_hex4`: 0 when a digit is invalid. -/
def parseHex4 (input : Bytes) : ℕ :=
  ((input.foldlM fun h b => (hexValue b).map fun d => h * 16 + d) 0).getD 0

/-- The loop that encodes a code point, from the last byte to the second. -/
def utf8Tail : ℕ → ℕ → Bytes → ℕ × Bytes
  | 0, codepoint, bytes => (codepoint, bytes)
  | n + 1, codepoint, bytes => utf8Tail n (codepoint >>> 6) (tailByte codepoint :: bytes)

/-- The end of `utf16_literal_to_utf8`. -/
def encodeUtf8 (codepoint : ℕ) : Option Bytes :=
  let encode (length mark : ℕ) :=
    let (rest, bytes) := utf8Tail (length - 1) codepoint []
    (if 1 < length then headByte mark rest else UInt8.ofNat (rest &&& 0x7F)) :: bytes
  if codepoint < 0x80 then some (encode 1 0)
  else if codepoint < 0x800 then some (encode 2 0xC0)
  else if codepoint < 0x10000 then some (encode 3 0xE0)
  else if codepoint ≤ 0x10FFFF then some (encode 4 0xF0)
  else none

/-- The escapes of one character. -/
def escaped (b : UInt8) : Option UInt8 :=
  if b = 98 then some 8
  else if b = 102 then some 12
  else if b = 110 then some 10
  else if b = 114 then some 13
  else if b = 116 then some 9
  else if b = 34 ∨ b = 92 ∨ b = 47 then some b
  else none

/-- The search for the closing quote: the literal, and what comes behind the quote. -/
def scanString : Bytes → Option (Bytes × Bytes)
  | [] => none
  | b :: rest =>
    if b = 34 then some ([], rest)
    else if b = 92 then
      match rest with
      | [] => none
      | e :: more => (scanString more).map fun r => (b :: e :: r.1, r.2)
    else (scanString rest).map fun r => (b :: r.1, r.2)

/-- The loop through the literal, which the closing quote follows. -/
def unescape : Bytes → Option Bytes
  | [] => some []
  | b :: rest =>
    if b ≠ 92 then (unescape rest).map fun out => b :: out
    else
      match rest with
      -- an escape that takes the closing quote, behind a literal of invalid digits
      | [] => some [34]
      | e :: more =>
        if e ≠ 117 then (escaped e).bind fun c => (unescape more).map fun out => c :: out
        else
          match more with
          | a :: b :: c :: d :: tail =>
            let first := parseHex4 [a, b, c, d]
            if isLowSurrogate first then none
            else if isHighSurrogate first then
              match tail with
              | s :: u :: a :: b :: c :: d :: tail =>
                let second := parseHex4 [a, b, c, d]
                if s ≠ 92 ∨ u ≠ 117 then none
                else if !isLowSurrogate second then none
                else (encodeUtf8 (joinSurrogates first second)).bind fun bytes =>
                  (unescape tail).map fun out => bytes ++ out
              | _ => none
            else (encodeUtf8 first).bind fun bytes => (unescape tail).map fun out => bytes ++ out
          | _ => none

def parseString (buffer : Bytes) : Option (Bytes × Bytes) :=
  match buffer with
  | b :: body =>
    if b ≠ 34 then none
    else (scanString body).bind fun r => (unescape r.1).map fun out => (cStr out, r.2)
  | [] => none

/-! ## Numbers -/

def isDigit (b : UInt8) : Bool := 48 ≤ b && b ≤ 57

def isSign (b : UInt8) : Bool := b == 43 || b == 45

/-- The bytes that `parse_number` copies. -/
def isNumberByte (b : UInt8) : Bool :=
  isDigit b || isSign b || b == 101 || b == 69 || b == 46

/-- The length of the sign, if there is one. -/
def signLength : Bytes → ℕ
  | b :: _ => if isSign b then 1 else 0
  | [] => 0

/-- The length of the exponent behind a number, if there is one. -/
def exponentLength : Bytes → ℕ
  | e :: rest =>
    let sign := signLength rest
    let digits := ((rest.drop sign).takeWhile isDigit).length
    if (e == 101 || e == 69) && 0 < digits then 1 + sign + digits else 0
  | [] => 0

/-- The digits of the fraction with the point, if there is one. -/
def fractionLength : Bytes → ℕ
  | b :: rest => if b = 46 then 1 + (rest.takeWhile isDigit).length else 0
  | [] => 0

/-- How much of the text `strtod` takes, of bytes that can be part of a decimal number. -/
def strtodLength (text : Bytes) : ℕ :=
  let sign := signLength text
  let digits := ((text.drop sign).takeWhile isDigit).length
  let fraction := fractionLength (text.drop (sign + digits))
  if digits = 0 ∧ fraction ≤ 1 then 0
  else sign + digits + fraction + exponentLength (text.drop (sign + digits + fraction))

def parseNumber (buffer : Bytes) : Option (Item × Bytes) :=
  let text := buffer.takeWhile isNumberByte
  let n := strtodLength text
  if n = 0 then none else some (.number (text.take n), buffer.drop n)

/-! ## Values -/

/-- What follows an element: a comma and the rest of the loop, or the byte `close`. -/
def afterElement {α : Type} (close : UInt8) (loop : Bytes → Option (List α × Bytes)) (x : α)
    (buffer : Bytes) : Option (List α × Bytes) :=
  match skipWhitespace buffer with
  | b :: rest =>
    if b = 44 then (loop rest).map fun r => (x :: r.1, r.2)
    else if b = close then some ([x], rest)
    else none
  | [] => none

/-- The loop over the elements that a comma separates. -/
def parseSeq {α : Type} (element : Bytes → Option (α × Bytes)) (close : UInt8) :
    ℕ → Bytes → Option (List α × Bytes)
  | 0, _ => none
  | fuel + 1, buffer =>
    (element buffer).bind fun r => afterElement close (parseSeq element close fuel) r.1 r.2

/-- The elements between `open` and `close`, behind `open`. -/
def parseElements {α : Type} (element : Bytes → Option (α × Bytes)) (close : UInt8)
    (buffer : Bytes) : Option (List α × Bytes) :=
  match skipWhitespace buffer with
  | [] => none
  | b :: rest =>
    if b = close then some ([], rest) else parseSeq element close (b :: rest).length (b :: rest)

/-- The name and the value of a child of an object. -/
def parseMember (value : Bytes → Option (Item × Bytes)) (buffer : Bytes) :
    Option ((Bytes × Item) × Bytes) :=
  (parseString (skipWhitespace buffer)).bind fun r =>
    match skipWhitespace r.2 with
    | b :: rest =>
      if b = 58 then (value (skipWhitespace rest)).map fun v => ((r.1, v.1), v.2) else none
    | [] => none

def wordNull : Bytes := [110, 117, 108, 108]

def wordFalse : Bytes := [102, 97, 108, 115, 101]

def wordTrue : Bytes := [116, 114, 117, 101]

def parseWord (buffer : Bytes) : Option (Item × Bytes) :=
  ((startsWith wordNull buffer).map fun rest => (.null, rest)).or
    (((startsWith wordFalse buffer).map fun rest => (.false_, rest)).or
      ((startsWith wordTrue buffer).map fun rest => (.true_, rest)))

/-- `parse_value` of anything but an array and an object. -/
def parseScalar (buffer : Bytes) : Option (Item × Bytes) :=
  match parseWord buffer with
  | some r => some r
  | none =>
    match buffer with
    | b :: _ =>
      if b = 34 then (parseString buffer).map fun r => (.string r.1, r.2)
      else if b = 45 ∨ isDigit b then parseNumber buffer
      else none
    | [] => none

/-- `parse_value`, `parse_array` and `parse_object`, with `depth` levels left. -/
def parseValue : ℕ → Bytes → Option (Item × Bytes)
  | 0, buffer => parseScalar buffer
  | depth + 1, buffer =>
    match buffer with
    | b :: rest =>
      if b = 91 then
        (parseElements (fun buffer => parseValue depth (skipWhitespace buffer)) 93 rest).map
          fun r => (.array r.1, r.2)
      else if b = 123 then
        (parseElements (parseMember (parseValue depth)) 125 rest).map fun r => (.object r.1, r.2)
      else parseScalar buffer
    | [] => none

/-- `skip_utf8_bom`. -/
def skipBom (buffer : Bytes) : Bytes :=
  if 5 ≤ buffer.length ∧ [0xEF, 0xBB, 0xBF] <+: buffer then buffer.drop 3 else buffer

/-- `cJSON_Parse`. What stands behind the value is not looked at. -/
def cJsonParse (value : Bytes) : Option Item :=
  (parseValue nestingLimit (skipWhitespace (skipBom (cStr value ++ [0])))).map Prod.fst

/-! ## Every step takes a byte -/

/-- What is parsed is taken off the buffer. -/
def Consumes {α : Type} (parse : Bytes → Option (α × Bytes)) : Prop :=
  ∀ buffer x rest, parse buffer = some (x, rest) → rest.length < buffer.length

theorem length_skipWhitespace_le (buffer : Bytes) :
    (skipWhitespace buffer).length ≤ buffer.length := by
  unfold skipWhitespace
  split
  · cases buffer with
    | nil => exact Nat.le_refl _
    | cons b rest =>
      rw [List.getLast?_cons]
      exact Nat.succ_le_succ (Nat.zero_le _)
  · exact (List.dropWhile_suffix _).length_le

theorem length_startsWith {word buffer rest : Bytes} (hword : word ≠ [])
    (h : startsWith word buffer = some rest) : rest.length < buffer.length := by
  unfold startsWith at h
  split at h
  · rename_i hprefix
    cases h
    have hpos := List.length_pos_iff.mpr hword
    have hle := hprefix.length_le
    rw [List.length_drop]
    omega
  · cases h

theorem length_scanString : ∀ {body raw rest : Bytes}, scanString body = some (raw, rest) →
    rest.length < body.length
  | [], raw, rest, h => by cases h
  | b :: body, raw, rest, h => by
    unfold scanString at h
    split at h
    · cases h
      exact Nat.lt_succ_self _
    · split at h
      · split at h
        · cases h
        · rename_i e more
          obtain ⟨⟨raw', tail⟩, hscan, heq⟩ := Option.map_eq_some_iff.mp h
          cases heq
          have hlt := length_scanString hscan
          simp only [List.length_cons]
          omega
      · obtain ⟨⟨raw', tail⟩, hscan, heq⟩ := Option.map_eq_some_iff.mp h
        cases heq
        exact Nat.lt_succ_of_lt (length_scanString hscan)

theorem consumes_parseString : Consumes parseString := by
  intro buffer x rest h
  unfold parseString at h
  split at h
  · rename_i b body
    split at h
    · cases h
    · obtain ⟨⟨raw, tail⟩, hscan, hrest⟩ := Option.bind_eq_some_iff.mp h
      obtain ⟨out, -, heq⟩ := Option.map_eq_some_iff.mp hrest
      cases heq
      exact Nat.lt_succ_of_lt (length_scanString hscan)
  · cases h

theorem consumes_parseNumber : Consumes parseNumber := by
  intro buffer x rest h
  unfold parseNumber at h
  simp only at h
  split at h
  · cases h
  · rename_i hn
    cases h
    cases buffer with
    | nil => exact absurd rfl hn
    | cons b buffer =>
      rw [List.length_drop, List.length_cons]
      omega

theorem consumes_parseWord : Consumes parseWord := by
  intro buffer x rest h
  have hword : ∀ {word : Bytes} {item : Item}, word ≠ [] →
      (startsWith word buffer).map (fun rest => (item, rest)) = some (x, rest) →
      rest.length < buffer.length := by
    intro word item hword hmap
    obtain ⟨tail, htail, heq⟩ := Option.map_eq_some_iff.mp hmap
    cases heq
    exact length_startsWith hword htail
  rcases Option.or_eq_some_iff.mp h with hnull | ⟨-, hrest⟩
  · exact hword (List.cons_ne_nil _ _) hnull
  · rcases Option.or_eq_some_iff.mp hrest with hfalse | ⟨-, htrue⟩
    · exact hword (List.cons_ne_nil _ _) hfalse
    · exact hword (List.cons_ne_nil _ _) htrue

theorem consumes_parseScalar : Consumes parseScalar := by
  intro buffer x rest h
  unfold parseScalar at h
  split at h
  · rename_i hword
    cases h
    exact consumes_parseWord _ _ _ hword
  · split at h
    · split at h
      · obtain ⟨⟨s, tail⟩, hs, heq⟩ := Option.map_eq_some_iff.mp h
        cases heq
        exact consumes_parseString _ _ _ hs
      · split at h
        · exact consumes_parseNumber _ _ _ h
        · cases h
    · cases h

section Elements

variable {α : Type} {element : Bytes → Option (α × Bytes)} {close : UInt8}

theorem length_afterElement {loop : Bytes → Option (List α × Bytes)} {x : α} {buffer rest : Bytes}
    {xs : List α} (hloop : Consumes loop)
    (h : afterElement close loop x buffer = some (xs, rest)) : rest.length < buffer.length := by
  have hskip := length_skipWhitespace_le buffer
  unfold afterElement at h
  split at h
  · rename_i b more hmore
    rw [hmore, List.length_cons] at hskip
    split at h
    · obtain ⟨⟨ys, tail⟩, hys, heq⟩ := Option.map_eq_some_iff.mp h
      cases heq
      exact Nat.lt_of_lt_of_le (Nat.lt_succ_of_lt (hloop _ _ _ hys)) hskip
    · split at h
      · cases h
        exact hskip
      · cases h
  · cases h

/-- The loop is entered with what is left. -/
theorem afterElement_congr {loop loop' : Bytes → Option (List α × Bytes)} (x : α) {buffer : Bytes}
    (h : ∀ rest : Bytes, rest.length < buffer.length → loop rest = loop' rest) :
    afterElement close loop x buffer = afterElement close loop' x buffer := by
  have hskip := length_skipWhitespace_le buffer
  unfold afterElement
  split
  · rename_i b more hmore
    rw [hmore, List.length_cons] at hskip
    rw [h more hskip]
  · rfl

theorem consumes_parseSeq (helement : Consumes element) :
    ∀ fuel : ℕ, Consumes (parseSeq element close fuel)
  | 0 => fun _ _ _ h => by cases h
  | fuel + 1 => by
    intro buffer xs rest h
    obtain ⟨⟨x, tail⟩, hx, hrest⟩ := Option.bind_eq_some_iff.mp h
    exact (length_afterElement (consumes_parseSeq helement fuel) hrest).trans (helement _ _ _ hx)

/-- **Fuel is never short**: one turn of the loop for each byte is enough. -/
theorem parseSeq_eq_of_length_le (helement : Consumes element) : ∀ {fuel n : ℕ} {buffer : Bytes},
    buffer.length ≤ fuel → buffer.length ≤ n →
    parseSeq element close fuel buffer = parseSeq element close n buffer
  | fuel, n, buffer, hfuel, hn => by
    cases hx : element buffer with
    | none =>
      have hnone : ∀ k, parseSeq element close k buffer = none := by
        intro k
        cases k with
        | zero => rfl
        | succ k => rw [parseSeq, hx, Option.bind_none]
      rw [hnone, hnone]
    | some r =>
      have hlt := helement _ _ _ hx
      cases fuel with
      | zero => omega
      | succ fuel =>
        cases n with
        | zero => omega
        | succ n =>
          rw [parseSeq, parseSeq, hx, Option.bind_some, Option.bind_some]
          refine afterElement_congr _ ?_
          intro rest hrest
          exact parseSeq_eq_of_length_le helement (by omega) (by omega)

theorem consumes_parseElements (helement : Consumes element) (buffer : Bytes) (xs : List α)
    (rest : Bytes) (h : parseElements element close buffer = some (xs, rest)) :
    rest.length < buffer.length := by
  have hskip := length_skipWhitespace_le buffer
  unfold parseElements at h
  split at h
  · cases h
  · rename_i b more hmore
    rw [hmore] at hskip
    split at h
    · cases h
      exact hskip
    · exact Nat.lt_of_lt_of_le (consumes_parseSeq helement _ _ _ _ h) hskip

end Elements

theorem consumes_parseMember {value : Bytes → Option (Item × Bytes)} (hvalue : Consumes value) :
    Consumes (parseMember value) := by
  intro buffer x rest h
  obtain ⟨⟨name, tail⟩, hname, hrest⟩ := Option.bind_eq_some_iff.mp h
  have hlt := consumes_parseString _ _ _ hname
  have hle := length_skipWhitespace_le buffer
  have hskip := length_skipWhitespace_le tail
  simp only at hrest
  split at hrest
  · rename_i b more hmore
    split at hrest
    · obtain ⟨⟨v, end_⟩, hv, heq⟩ := Option.map_eq_some_iff.mp hrest
      cases heq
      have hend := hvalue _ _ _ hv
      have hmoreLe := length_skipWhitespace_le more
      rw [hmore, List.length_cons] at hskip
      show end_.length < buffer.length
      omega
    · cases hrest
  · cases hrest

/-- **A value takes a byte at least**, whatever the text. -/
theorem consumes_parseValue : ∀ depth : ℕ, Consumes (parseValue depth)
  | 0 => consumes_parseScalar
  | depth + 1 => by
    intro buffer x rest h
    have hvalue := consumes_parseValue depth
    unfold parseValue at h
    split at h
    · rename_i b more
      split at h
      · obtain ⟨⟨items, tail⟩, hitems, heq⟩ := Option.map_eq_some_iff.mp h
        cases heq
        refine Nat.lt_succ_of_lt (consumes_parseElements ?_ _ _ _ hitems)
        intro buffer x rest hx
        exact Nat.lt_of_lt_of_le (hvalue _ _ _ hx) (length_skipWhitespace_le buffer)
      · split at h
        · obtain ⟨⟨members, tail⟩, hmembers, heq⟩ := Option.map_eq_some_iff.mp h
          cases heq
          exact Nat.lt_succ_of_lt
            (consumes_parseElements (consumes_parseMember hvalue) _ _ _ hmembers)
        · exact consumes_parseScalar _ _ _ h
    · cases h

end Dts.Json
