import Dts.Infra.Find
import Dts.Web.Streams

/-!
# Request heads

`ReadRequestHead` of `http_sse.cpp` receives a request until its head has ended, and returns the first
line. It gives up when it has `kMaxReqHead` bytes without an end of the head. The size is tested before
a chunk is received and the end is looked for after it, so a head may end behind the limit and be
accepted, if its last chunk has begun before the limit.

`readRequestHead_eq` says what is returned for any chunks. `headLaw_iff` is about every stream: the
limit is kept, and the result is the same for all ways to cut the stream into chunks, if and only if
the head does not end in the 511 bytes behind the limit.
-/

namespace Dts.Streams

open Infra

/-! ## Reading -/

def kMaxReqHead : ℕ := 4096

/-- What one `recv` puts into `chunk`. -/
structure Chunk where
  bytes : Bytes
  pos : 0 < bytes.length
  fits : bytes.length ≤ 512

/-- The stream that the chunks make up. -/
def received (cs : List Chunk) : Bytes := cs.flatMap Chunk.bytes

def crlf : Bytes := [13, 10]

/-- The end of a head. -/
def headEnd : Bytes := [13, 10, 13, 10]

/-- `buf.substr(0, buf.find("\r\n"))`. -/
def firstLine (buf : Bytes) : Bytes :=
  match findSub crlf buf with
  | some eol => buf.take eol
  | none => buf

/-- The loop, with the bytes received so far. It ends with `n <= 0` when there are no more chunks. -/
def readFrom (buf : Bytes) : List Chunk → Option Bytes
  | [] => none
  | c :: cs =>
    if kMaxReqHead ≤ buf.length then none
    else
      let buf := buf ++ c.bytes
      match findSub headEnd buf with
      | some _ => if (firstLine buf).isEmpty then none else some (firstLine buf)
      | none => readFrom buf cs

/-- The first line; `none` stands for false. -/
def readRequestHead (cs : List Chunk) : Option Bytes := readFrom [] cs

/-! ## The law and its condition -/

/-- The first end of a head in the stream ends behind `n` bytes. -/
def EndsAt (stream : Bytes) (n : ℕ) : Prop :=
  ∃ i, findSub headEnd stream = some i ∧ n = i + headEnd.length

/-- **The law.** -/
structure HeadLaw (stream : Bytes) : Prop where
  /-- a request is accepted exactly when its head ends within the limit and has a first line -/
  accepts : ∀ cs, received cs = stream → ((readRequestHead cs).isSome = true ↔
    (∃ n, EndsAt stream n ∧ n ≤ kMaxReqHead) ∧ firstLine stream ≠ [])
  /-- what is returned stands before the first line end of the stream -/
  line : ∀ cs l, received cs = stream → readRequestHead cs = some l → l = firstLine stream
  /-- and does not depend on the chunks -/
  independent : ∀ cs cs', received cs = stream → received cs' = stream →
    readRequestHead cs = readRequestHead cs'

/-- A head with a first line ends so little behind the limit that a chunk may reach over it. -/
def EndsBehindLimit (stream : Bytes) : Prop :=
  (∃ n, EndsAt stream n ∧ kMaxReqHead < n ∧ n < kMaxReqHead + 512) ∧ firstLine stream ≠ []

/-! ## The result for any chunks -/

/-- A first line that is not empty. -/
def lineOf (stream : Bytes) : Option Bytes :=
  if (firstLine stream).isEmpty then none else some (firstLine stream)

/-- From `len` bytes on the loop receives byte number `n`. -/
def reaches (n : ℕ) : ℕ → List Chunk → Bool
  | _, [] => false
  | len, c :: cs => decide (len < kMaxReqHead) &&
    (decide (n ≤ len + c.bytes.length) || reaches n (len + c.bytes.length) cs)

theorem received_cons (c : Chunk) (cs : List Chunk) : received (c :: cs) = c.bytes ++ received cs :=
  List.flatMap_cons

theorem EndsAt.le_length {stream : Bytes} {n : ℕ} (h : EndsAt stream n) : n ≤ stream.length := by
  obtain ⟨i, hi, rfl⟩ := h
  exact findSub_length_le hi

theorem EndsAt.pos {stream : Bytes} {n : ℕ} (h : EndsAt stream n) : 0 < n := by
  obtain ⟨i, -, rfl⟩ := h
  exact Nat.lt_of_lt_of_le (by decide : 0 < headEnd.length) (Nat.le_add_left _ _)

theorem EndsAt.unique {stream : Bytes} {n m : ℕ} (hn : EndsAt stream n) (hm : EndsAt stream m) :
    n = m := by
  obtain ⟨i, hi, rfl⟩ := hn
  obtain ⟨j, hj, rfl⟩ := hm
  rw [hi] at hj
  cases hj
  rfl

/-- Before byte number `n` there is no end of the head. -/
theorem EndsAt.not_found {buf rest : Bytes} {n : ℕ} (h : EndsAt (buf ++ rest) n)
    (hlen : buf.length < n) : findSub headEnd buf = none := by
  cases hbuf : findSub headEnd buf with
  | none => rfl
  | some j =>
    obtain ⟨hfind, hle⟩ := (findSub_append_iff (r := rest)).mp hbuf
    have hn := h.unique ⟨j, hfind, rfl⟩
    omega

/-- With byte number `n` there is one, and the first line too. -/
theorem EndsAt.found {buf rest : Bytes} {n : ℕ} (h : EndsAt (buf ++ rest) n) (hlen : n ≤ buf.length) :
    ∃ i, findSub headEnd buf = some i ∧ firstLine (buf ++ rest) = firstLine buf := by
  obtain ⟨i, hi, rfl⟩ := h
  have hbuf := findSub_append_iff.mpr ⟨hi, hlen⟩
  obtain ⟨j, hji, hj⟩ := findSub_of_prefix (by decide : crlf <+: headEnd) hbuf
  have hle := findSub_length_le hj
  refine ⟨i, hbuf, ?_⟩
  rw [firstLine, firstLine, hj, (findSub_append_iff.mp hj).1]
  exact List.take_append_of_le_length (by omega)

theorem readFrom_of_endsAt {n : ℕ} : ∀ {cs : List Chunk} {buf : Bytes},
    EndsAt (buf ++ received cs) n → buf.length < n →
    readFrom buf cs = if reaches n buf.length cs then lineOf (buf ++ received cs) else none
  | [], _, _, _ => rfl
  | c :: cs, buf, h, hlen => by
    rw [received_cons, ← List.append_assoc] at h ⊢
    rw [readFrom, reaches, ← List.length_append]
    by_cases hfull : kMaxReqHead ≤ buf.length
    · rw [if_pos hfull, decide_eq_false (Nat.not_lt.mpr hfull)]
      rfl
    · rw [if_neg hfull, decide_eq_true (Nat.lt_of_not_le hfull), Bool.true_and]
      by_cases hn : n ≤ (buf ++ c.bytes).length
      · obtain ⟨i, hfind, hline⟩ := h.found hn
        rw [decide_eq_true hn, Bool.true_or, lineOf, hline]
        simp only [hfind, if_true]
      · have hn := Nat.lt_of_not_le hn
        rw [decide_eq_false (Nat.not_le.mpr hn), Bool.false_or, ← readFrom_of_endsAt h hn]
        simp only [h.not_found hn]

theorem readFrom_of_none : ∀ {cs : List Chunk} {buf : Bytes},
    findSub headEnd (buf ++ received cs) = none → readFrom buf cs = none
  | [], _, _ => rfl
  | c :: cs, buf, h => by
    rw [received_cons, ← List.append_assoc] at h
    have hbuf := findSub_eq_none_of_append h
    rw [readFrom]
    split
    · rfl
    · simp only [hbuf]
      exact readFrom_of_none h

/-- **What is returned**, for any chunks: the first line, if the loop receives the end of the head. -/
theorem readRequestHead_eq {cs : List Chunk} {n : ℕ} (h : EndsAt (received cs) n) :
    readRequestHead cs = if reaches n 0 cs then lineOf (received cs) else none := by
  show readFrom [] cs = if reaches n ([] : Bytes).length cs then lineOf ([] ++ received cs) else none
  exact readFrom_of_endsAt h h.pos

/-! ## What the loop receives -/

/-- All bytes up to the limit. -/
theorem reaches_of_le {n : ℕ} (hn : n ≤ kMaxReqHead) : ∀ {cs : List Chunk} {len : ℕ}, len < n →
    n ≤ len + (received cs).length → reaches n len cs = true
  | [], len, hlen, h => by
    rw [received, List.flatMap_nil, List.length_nil] at h
    omega
  | c :: cs, len, hlen, h => by
    rw [received_cons, List.length_append, ← Nat.add_assoc] at h
    rw [reaches, decide_eq_true (Nat.lt_of_lt_of_le hlen hn), Bool.true_and]
    by_cases hc : n ≤ len + c.bytes.length
    · rw [decide_eq_true hc, Bool.true_or]
    · rw [reaches_of_le hn (Nat.lt_of_not_le hc) h, Bool.or_true]

/-- And none behind the chunk in which the limit is. -/
theorem lt_of_reaches {n : ℕ} : ∀ {cs : List Chunk} {len : ℕ}, reaches n len cs = true →
    n < kMaxReqHead + 512
  | [], _, h => by cases h
  | c :: cs, len, h => by
    have hfits := c.fits
    rw [reaches, Bool.and_eq_true, Bool.or_eq_true, decide_eq_true_eq, decide_eq_true_eq] at h
    rcases h.2 with hc | hcs
    · omega
    · exact lt_of_reaches hcs

/-- Chunks that end before the limit come first. -/
theorem reaches_append {n : ℕ} {cs : List Chunk} : ∀ {front : List Chunk} {len : ℕ},
    len + (received front).length < kMaxReqHead →
    reaches n (len + (received front).length) cs = true → reaches n len (front ++ cs) = true
  | [], _, _, h => h
  | c :: front, len, hlen, h => by
    rw [received_cons, List.length_append, ← Nat.add_assoc] at hlen h
    rw [List.cons_append, reaches, reaches_append hlen h, Bool.or_true, Bool.and_true,
      decide_eq_true_eq]
    omega

/-- A chunk for each byte. -/
def singles (bs : Bytes) : List Chunk := bs.map fun b => ⟨[b], by simp, by simp⟩

theorem received_singles (bs : Bytes) : received (singles bs) = bs := by
  induction bs with
  | nil => rfl
  | cons b bs ih =>
    rw [singles, List.map_cons, received_cons]
    exact congrArg (b :: ·) ih

theorem received_append (cs cs' : List Chunk) : received (cs ++ cs') = received cs ++ received cs' :=
  List.flatMap_append

/-- Some chunks of a stream reach 511 bytes over the limit. -/
theorem exists_reaches {stream : Bytes} {n : ℕ} (hlen : n ≤ stream.length) (hlow : kMaxReqHead < n)
    (hhigh : n < kMaxReqHead + 512) : ∃ cs, received cs = stream ∧ reaches n 0 cs = true := by
  let before := stream.take (kMaxReqHead - 1)
  let piece := (stream.drop (kMaxReqHead - 1)).take 512
  have hlimit : kMaxReqHead = 4096 := rfl
  have hbefore : (received (singles before)).length = kMaxReqHead - 1 := by
    rw [received_singles, List.length_take]
    omega
  have hpiece : piece.length = min 512 (stream.length - (kMaxReqHead - 1)) := by
    rw [List.length_take, List.length_drop]
  refine ⟨singles before ++ ⟨piece, by omega, by omega⟩ :: singles
    ((stream.drop (kMaxReqHead - 1)).drop 512), ?_, ?_⟩
  · rw [received_append, received_cons, received_singles, received_singles,
      List.take_append_drop, List.take_append_drop]
  · refine reaches_append (by rw [hbefore]; omega) ?_
    rw [hbefore, reaches, decide_eq_true (by omega), Bool.true_and,
      decide_eq_true (by show n ≤ 0 + (kMaxReqHead - 1) + piece.length; omega), Bool.true_or]

/-! ## The law -/

theorem lineOf_eq_some {stream l : Bytes} :
    lineOf stream = some l ↔ l = firstLine stream ∧ firstLine stream ≠ [] := by
  unfold lineOf
  cases hline : firstLine stream with
  | nil => simp
  | cons b bs => simp [eq_comm]

/-- When no chunk can reach over the limit to the end of the head, the limit decides. -/
theorem readRequestHead_eq_some {stream : Bytes} (h : ¬ EndsBehindLimit stream) {cs : List Chunk}
    (hcs : received cs = stream) (l : Bytes) : readRequestHead cs = some l ↔
      (∃ n, EndsAt stream n ∧ n ≤ kMaxReqHead) ∧ l = firstLine stream ∧ firstLine stream ≠ [] := by
  subst hcs
  cases hfind : findSub headEnd (received cs) with
  | some i =>
    obtain ⟨n, hn⟩ : ∃ n, EndsAt (received cs) n := ⟨_, i, hfind, rfl⟩
    rw [readRequestHead_eq hn]
    rcases Nat.lt_or_ge kMaxReqHead n with hover | hwithin
    · -- behind the limit: no chunk reaches there, or there is no first line
      have hnone : ¬ ∃ m, EndsAt (received cs) m ∧ m ≤ kMaxReqHead := by
        rintro ⟨m, hm, hle⟩
        have := hn.unique hm
        omega
      simp only [hnone, false_and, iff_false]
      intro hsome
      split at hsome
      · rename_i hreach
        exact h ⟨⟨n, hn, hover, lt_of_reaches hreach⟩, (lineOf_eq_some.mp hsome).2⟩
      · cases hsome
    · have hreach := reaches_of_le hwithin hn.pos (by rw [Nat.zero_add]; exact hn.le_length)
      rw [if_pos hreach, lineOf_eq_some]
      exact (and_iff_right ⟨n, hn, hwithin⟩).symm
  | none =>
    have hread : readRequestHead cs = none := by
      unfold readRequestHead
      exact readFrom_of_none hfind
    rw [hread]
    refine iff_of_false (by simp) ?_
    rintro ⟨⟨n, ⟨i, hi, -⟩, -⟩, -⟩
    rw [hfind] at hi
    cases hi

/--
**Request heads.** For every stream and all its chunks: the limit is kept, and verdict and first line
do not depend on the chunks, if and only if no head with a first line ends in the 511 bytes behind the
limit.
-/
theorem headLaw_iff (stream : Bytes) : HeadLaw stream ↔ ¬ EndsBehindLimit stream := by
  constructor
  · rintro h ⟨⟨n, hn, hlow, hhigh⟩, hline⟩
    obtain ⟨cs, hcs, hreach⟩ := exists_reaches hn.le_length hlow hhigh
    have hread : readRequestHead cs = some (firstLine stream) := by
      rw [readRequestHead_eq (hcs ▸ hn), if_pos hreach, hcs, lineOf_eq_some]
      exact ⟨rfl, hline⟩
    obtain ⟨⟨m, hm, hle⟩, -⟩ := (h.accepts cs hcs).mp (by rw [hread]; rfl)
    have := hn.unique hm
    omega
  · intro h
    have hsome := @readRequestHead_eq_some stream h
    refine ⟨?_, ?_, ?_⟩
    · intro cs hcs
      rw [Option.isSome_iff_exists]
      constructor
      · rintro ⟨l, hl⟩
        obtain ⟨hend, -, hline⟩ := (hsome hcs l).mp hl
        exact ⟨hend, hline⟩
      · rintro ⟨hend, hline⟩
        exact ⟨_, (hsome hcs _).mpr ⟨hend, rfl, hline⟩⟩
    · intro cs l hcs hl
      exact ((hsome hcs l).mp hl).2.1
    · intro cs cs' hcs hcs'
      refine Option.ext fun l => ?_
      rw [hsome hcs l, hsome hcs' l]

/-! ## A head behind the limit -/

/-- A line of `k` letters and then the end of the head. -/
def padded (k : ℕ) : Bytes := List.replicate k 97 ++ headEnd

theorem findSub_padded {pat : Bytes} (hpat : 13 :: pat <+: headEnd) (k : ℕ) :
    findSub (13 :: pat) (padded k) = some k := by
  induction k with
  | zero =>
    show findSub (13 :: pat) (13 :: [10, 13, 10]) = some 0
    exact if_pos hpat
  | succ k ih =>
    have hhead : ¬ 13 :: pat <+: 97 :: padded k := by
      intro h
      exact absurd (List.cons_prefix_cons.mp h).1 (by decide)
    show findSub (13 :: pat) (97 :: padded k) = some (k + 1)
    rw [findSub, if_neg hhead, ih]
    rfl

theorem firstLine_padded (k : ℕ) : firstLine (padded k) = List.replicate k 97 := by
  rw [firstLine, crlf, findSub_padded (by decide)]
  exact List.take_left' List.length_replicate

theorem endsAt_padded (k : ℕ) : EndsAt (padded k) (k + 4) :=
  ⟨k, findSub_padded (by decide) k, rfl⟩

/-- `k` letters in one chunk. -/
def letters (k : ℕ) (hpos : 0 < k) (hfits : k ≤ 512) : Chunk where
  bytes := List.replicate k 97
  pos := by rwa [List.length_replicate]
  fits := by rwa [List.length_replicate]

/-- 4093 letters, and the end of the head in one chunk. -/
def endInOne : List Chunk := List.replicate 7 (letters 512 (by decide) (by decide)) ++
  [letters 509 (by decide) (by decide), ⟨[13, 10, 13, 10], by decide, by decide⟩]

/-- The same stream, cut before its last byte. -/
def endInTwo : List Chunk := List.replicate 7 (letters 512 (by decide) (by decide)) ++
  [letters 509 (by decide) (by decide), ⟨[13, 10, 13], by decide, by decide⟩,
    ⟨[10], by decide, by decide⟩]

theorem received_letters (m k : ℕ) (hpos : 0 < k) (hfits : k ≤ 512) :
    received (List.replicate m (letters k hpos hfits)) = List.replicate (m * k) 97 := by
  rw [received, List.flatMap_def, List.map_replicate]
  exact List.flatten_replicate_replicate

/-- 4093 letters, in whatever chunks the end of the head comes. -/
theorem received_padded {cs : List Chunk} (hcs : received cs = headEnd) :
    received (List.replicate 7 (letters 512 (by decide) (by decide)) ++
      letters 509 (by decide) (by decide) :: cs) = padded 4093 := by
  rw [received_append, received_letters, received_cons, hcs, ← List.append_assoc]
  exact congrArg (· ++ headEnd) List.replicate_append_replicate

/-- A head of 4097 bytes is accepted or not, as its chunks happen to be cut. -/
theorem not_headLaw_padded :
    readRequestHead endInOne = some (List.replicate 4093 97) ∧ readRequestHead endInTwo = none ∧
      ¬ HeadLaw (padded 4093) := by
  have hone : received endInOne = padded 4093 := received_padded rfl
  have htwo : received endInTwo = padded 4093 := received_padded rfl
  have haccepted : readRequestHead endInOne = some (List.replicate 4093 97) := by
    have hreach : reaches (4093 + 4) 0 endInOne = true := by decide +kernel
    rw [readRequestHead_eq (hone ▸ endsAt_padded 4093), if_pos hreach, hone, lineOf_eq_some,
      firstLine_padded]
    exact ⟨rfl, List.cons_ne_nil _ _⟩
  have hrefused : readRequestHead endInTwo = none := by
    have hreach : ¬ reaches (4093 + 4) 0 endInTwo = true := by decide +kernel
    rw [readRequestHead_eq (htwo ▸ endsAt_padded 4093), if_neg hreach]
  refine ⟨haccepted, hrefused, fun h => ?_⟩
  have hsame := h.independent endInOne endInTwo hone htwo
  rw [haccepted, hrefused] at hsame
  cases hsame

end Dts.Streams
