import Dts.Console.Control

/-!
# Command lines of a session

`ReadLine` and `SessionLoop` of `console.cpp`. A session thread receives the bytes of its connection
in chunks, as the kernel happens to cut them, and submits one command for each line. `ReadLine` keeps
no bytes from one call to the next: what a chunk holds behind the end of the line is dropped.

`sessionLoop_iff` says for which chunks the submitted commands are the lines of the stream. The
connection is taken to stay up: `g_consoleStop` is not set, and the peer takes the answers.
-/

namespace Dts.Session

open Infra Console

def newline : UInt8 := 10

/-- What one `recv` puts into `buf`. -/
structure Chunk where
  bytes : Bytes
  pos : 0 < bytes.length
  fits : bytes.length ≤ 256

/-- The stream that the chunks make up. -/
def received (cs : List Chunk) : Bytes := cs.flatMap Chunk.bytes

/-! ## The session thread -/

/--
The loop of `ReadLine` on the chunks still to come: its result with the overflow flag, and the
chunks it leaves.
-/
def readLineFrom (line : Bytes) (overflow : Bool) :
    List Chunk → Option (Bytes × Bool) × List Chunk
  | [] =>
    if overflow then (none, [])
    else if line.isEmpty then (none, [])
    else (some (line, overflow), [])
  | c :: cs =>
    let line := line ++ c.bytes
    if newline ∈ line then
      if overflow then (none, cs)
      -- `line.erase(nl)`
      else (some (line.takeWhile fun b => b != newline, overflow), cs)
    else if line.length > kMaxLineLen then readLineFrom [] true cs
    else readLineFrom line overflow cs

def readLine (cs : List Chunk) : Option (Bytes × Bool) × List Chunk := readLineFrom [] false cs

theorem readLineFrom_rest (cs : List Chunk) (line : Bytes) (overflow : Bool) :
    (readLineFrom line overflow cs).2.length ≤ cs.length - 1 := by
  induction cs generalizing line overflow with
  | nil =>
    unfold readLineFrom
    split
    · exact Nat.le_refl 0
    · split <;> exact Nat.le_refl 0
  | cons c cs ih =>
    unfold readLineFrom
    simp only [List.length_cons, Nat.add_sub_cancel]
    split
    · split <;> exact Nat.le_refl _
    · split
      · exact (ih [] true).trans (Nat.sub_le _ _)
      · exact (ih _ overflow).trans (Nat.sub_le _ _)

/-- A call that returns true has taken a chunk. -/
theorem rest_lt {cs rest : List Chunk} {r : Bytes × Bool} (h : readLine cs = (some r, rest)) :
    rest.length < cs.length := by
  have hrest := readLineFrom_rest cs [] false
  rw [show readLineFrom [] false cs = (some r, rest) from h] at hrest
  change rest.length ≤ cs.length - 1 at hrest
  cases cs with
  | nil => simp [readLine, readLineFrom] at h
  | cons c cs =>
    rw [List.length_cons] at hrest ⊢
    omega

/-- The lines that `SessionLoop` submits as jobs; it waits for each answer before the next line. -/
def sessionLoop (cs : List Chunk) : List Bytes :=
  match _ : readLine cs with
  | (some (line, tooLong), rest) =>
    if line.isEmpty then []
    else if tooLong then sessionLoop rest
    else line :: sessionLoop rest
  | (none, _) => []
termination_by cs.length
decreasing_by all_goals exact rest_lt ‹_›

/-! ## The lines of a stream -/

/-- The lines of a stream after `line`; the last one need not be terminated. -/
def linesFrom (line : Bytes) : Bytes → List Bytes
  | [] => if line.isEmpty then [] else [line]
  | b :: bs => if b = newline then line :: linesFrom [] bs else linesFrom (line ++ [b]) bs

def lines (stream : Bytes) : List Bytes := linesFrom [] stream

/-- A line that a session takes: not empty and not over the limit. -/
def Acceptable (line : Bytes) : Prop := line ≠ [] ∧ line.length ≤ kMaxLineLen

instance (line : Bytes) : Decidable (Acceptable line) := inferInstanceAs (Decidable (_ ∧ _))

/-- Bytes without a line end go to the line under way. -/
theorem linesFrom_append {piece : Bytes} (h : newline ∉ piece) (line rest : Bytes) :
    linesFrom line (piece ++ rest) = linesFrom (line ++ piece) rest := by
  induction piece generalizing line with
  | nil => rw [List.nil_append, List.append_nil]
  | cons b piece ih =>
    have hb : b ≠ newline := fun he => h (he ▸ List.mem_cons_self)
    have hpiece : newline ∉ piece := fun hm => h (List.mem_cons_of_mem b hm)
    rw [List.cons_append, linesFrom, if_neg hb, ih hpiece, List.append_assoc, List.singleton_append]

/-- A line end closes the line under way. -/
theorem linesFrom_newline (line rest : Bytes) :
    linesFrom line (newline :: rest) = line :: linesFrom [] rest := by
  rw [linesFrom, if_pos rfl]

/-- The line under way is the beginning of one of the lines. -/
theorem exists_line (stream line : Bytes) (hne : line ≠ []) :
    ∃ l ∈ linesFrom line stream, line.length ≤ l.length := by
  induction stream generalizing line with
  | nil =>
    rw [linesFrom, if_neg (by simpa using hne)]
    exact ⟨line, List.mem_cons_self, Nat.le_refl _⟩
  | cons b stream ih =>
    unfold linesFrom
    split
    · exact ⟨line, List.mem_cons_self, Nat.le_refl _⟩
    · obtain ⟨l, hl, hlen⟩ := ih (line ++ [b]) (by simp)
      rw [List.length_append] at hlen
      exact ⟨l, hl, by omega⟩

/-- The bytes that are not line ends. -/
def content (stream : Bytes) : Nat := stream.countP fun b => b != newline

theorem content_append (as bs : Bytes) : content (as ++ bs) = content as + content bs :=
  List.countP_append

theorem content_eq_length {piece : Bytes} (h : newline ∉ piece) : content piece = piece.length := by
  rw [content, List.countP_eq_length]
  intro b hb
  exact bne_iff_ne.mpr fun he => h (he ▸ hb)

/-- The lines hold all the bytes that are not line ends. -/
theorem length_linesFrom (stream line : Bytes) :
    (linesFrom line stream).flatten.length = line.length + content stream := by
  induction stream generalizing line with
  | nil =>
    unfold linesFrom
    split
    · simp_all [content]
    · simp [content]
  | cons b stream ih =>
    unfold linesFrom
    split
    · rename_i hb
      rw [List.flatten_cons, List.length_append, ih, List.length_nil]
      simp [content, hb]
    · rename_i hb
      rw [ih, List.length_append, List.length_singleton]
      simp only [content]
      rw [List.countP_cons_of_pos (by simpa using hb)]
      omega

/-! ## One call of `ReadLine` -/

/-- What the session submits from a result of `ReadLine` on. -/
def submitFrom (r : Option (Bytes × Bool) × List Chunk) : List Bytes :=
  match r with
  | (some (line, tooLong), rest) =>
    if line.isEmpty then []
    else if tooLong then sessionLoop rest
    else line :: sessionLoop rest
  | (none, _) => []

theorem sessionLoop_eq (cs : List Chunk) :
    sessionLoop cs = submitFrom (readLineFrom [] false cs) := by
  rw [sessionLoop]
  split
  · rename_i hread
    rw [show readLineFrom [] false cs = _ from hread]
    rfl
  · rename_i hread
    rw [show readLineFrom [] false cs = _ from hread]
    rfl

/-- At the end of the stream the bytes left are the last line. -/
theorem submitFrom_nil (line : Bytes) :
    submitFrom (readLineFrom line false []) = linesFrom line [] := by
  have hend : sessionLoop [] = [] := by
    rw [sessionLoop_eq]
    rfl
  cases line with
  | nil => rfl
  | cons b line =>
    show (b :: line) :: sessionLoop [] = [b :: line]
    rw [hend]

/-- `line.erase(nl)`: the bytes before the line end stay. -/
theorem takeWhile_newline {d : Bytes} (hd : newline ∉ d) (e : Bytes) :
    (d ++ newline :: e).takeWhile (fun b => b != newline) = d := by
  have hopen : ∀ b ∈ d, (b != newline) = true := fun b hb => bne_iff_ne.mpr fun he => hd (he ▸ hb)
  rw [List.takeWhile_append_of_pos hopen, List.takeWhile_cons_of_neg (by simp), List.append_nil]

section
variable {line : Bytes} {c : Chunk}

/-- A chunk without a line end goes to the line under way. -/
theorem readLineFrom_open (hline : newline ∉ line) (hc : newline ∉ c.bytes)
    (hlen : (line ++ c.bytes).length ≤ kMaxLineLen) (cs : List Chunk) :
    readLineFrom line false (c :: cs) = readLineFrom (line ++ c.bytes) false cs := by
  rw [readLineFrom, if_neg (by simp [hline, hc]), if_neg (by omega)]

/-- A chunk with a line end closes the line; the bytes behind it are gone. -/
theorem submitFrom_close {d e : Bytes} (hline : newline ∉ line) (hc : c.bytes = d ++ newline :: e)
    (hd : newline ∉ d) (hne : line ++ d ≠ []) (cs : List Chunk) :
    submitFrom (readLineFrom line false (c :: cs)) = (line ++ d) :: sessionLoop cs := by
  have hmem : newline ∈ line ++ c.bytes := by simp [hc]
  have hopen : newline ∉ line ++ d := by simp [hline, hd]
  have htake : (line ++ c.bytes).takeWhile (fun b => b != newline) = line ++ d := by
    rw [hc, ← List.append_assoc, takeWhile_newline hopen]
  rw [readLineFrom, if_pos hmem, if_neg (by decide)]
  simp only [htake, submitFrom]
  rw [if_neg (by simpa using hne), if_neg (by decide)]

end

/-- A session submits no more bytes than it received. -/
theorem length_submitFrom_le (cs : List Chunk) (line : Bytes) (overflow : Bool) :
    (submitFrom (readLineFrom line overflow cs)).flatten.length
      ≤ line.length + content (received cs) := by
  induction cs generalizing line overflow with
  | nil =>
    cases overflow with
    | true => exact Nat.zero_le _
    | false =>
      rw [submitFrom_nil, length_linesFrom]
      exact Nat.le_refl _
  | cons c cs ih =>
    have hrecv : content (received (c :: cs)) = content c.bytes + content (received cs) := by
      rw [received, List.flatMap_cons, content_append]
      rfl
    have hcontent : content (line ++ c.bytes) ≤ line.length + content c.bytes := by
      rw [content_append]
      exact Nat.add_le_add_right List.countP_le_length _
    rw [hrecv]
    unfold readLineFrom
    simp only
    split
    · split
      · exact Nat.zero_le _
      · have htake : ((line ++ c.bytes).takeWhile fun b => b != newline).length
            ≤ content (line ++ c.bytes) := by
          rw [← List.countP_eq_length.mpr (List.all_eq_true.mp List.all_takeWhile)]
          exact (List.takeWhile_sublist _).countP_le
        have hrest := ih [] false
        rw [← sessionLoop_eq, List.length_nil] at hrest
        unfold submitFrom
        simp only
        split
        · exact Nat.zero_le _
        · rw [List.flatten_cons, List.length_append]
          omega
    · split
      · have hrest := ih [] true
        rw [List.length_nil] at hrest
        omega
      · have hrest := ih (line ++ c.bytes) overflow
        have hopen := @content_eq_length c.bytes (by simp_all)
        rw [List.length_append] at hrest
        omega

/-! ## Segmentation -/

/-- The only line end of the chunk, if any, is its last byte. -/
def Chunk.EndsLine (c : Chunk) : Prop := newline ∉ c.bytes.dropLast

instance (c : Chunk) : Decidable c.EndsLine := inferInstanceAs (Decidable (¬ _))

theorem Chunk.endsLine_iff {c : Chunk} {d e : Bytes} (hc : c.bytes = d ++ newline :: e)
    (hd : newline ∉ d) : c.EndsLine ↔ e = [] := by
  unfold Chunk.EndsLine
  rw [hc]
  cases e with
  | nil => simpa using hd
  | cons b e => simp [List.dropLast_append_of_ne_nil]

/-- The session from the middle of a line on. -/
theorem submitFrom_iff (cs : List Chunk) (line : Bytes) (hline : newline ∉ line)
    (hok : ∀ l ∈ linesFrom line (received cs), Acceptable l) :
    submitFrom (readLineFrom line false cs) = linesFrom line (received cs) ↔
      ∀ c ∈ cs, c.EndsLine := by
  induction cs generalizing line with
  | nil => exact iff_of_true (submitFrom_nil line) (by simp)
  | cons c cs ih =>
    have hrecv : received (c :: cs) = c.bytes ++ received cs := List.flatMap_cons
    rw [hrecv] at hok ⊢
    rw [List.forall_mem_cons]
    by_cases hc : newline ∈ c.bytes
    · obtain ⟨d, e, hde, hd⟩ := List.eq_append_cons_of_mem hc
      have hlines : linesFrom line (c.bytes ++ received cs)
          = (line ++ d) :: linesFrom [] (e ++ received cs) := by
        rw [hde, List.append_assoc, linesFrom_append hd, List.cons_append, linesFrom_newline]
      rw [hlines] at hok ⊢
      have hfirst := hok _ List.mem_cons_self
      have hrest : ∀ l ∈ linesFrom [] (e ++ received cs), Acceptable l :=
        fun l hl => hok l (List.mem_cons_of_mem _ hl)
      rw [submitFrom_close hline hde hd hfirst.1, Chunk.endsLine_iff hde hd, List.cons_inj_right,
        sessionLoop_eq]
      cases e with
      | nil => simpa using ih [] (by simp) hrest
      | cons b e =>
        -- the line that begins in the dropped bytes is not empty, so a byte of it is missing
        have hb : b ≠ newline := by
          rintro rfl
          rw [List.cons_append, linesFrom_newline] at hrest
          exact (hrest [] List.mem_cons_self).1 rfl
        have hle := length_submitFrom_le cs [] false
        have hlen := length_linesFrom (b :: e ++ received cs) []
        rw [content_append, content, List.countP_cons_of_pos (by simpa using hb)] at hlen
        constructor
        · intro h
          rw [h] at hle
          omega
        · rintro ⟨h, -⟩
          exact absurd h (List.cons_ne_nil _ _)
    · have hopen : newline ∉ line ++ c.bytes := by simp [hline, hc]
      have hends : c.EndsLine := fun h => hc (List.dropLast_subset _ h)
      rw [linesFrom_append hc] at hok ⊢
      obtain ⟨l, hl, hlen⟩ := exists_line (received cs) (line ++ c.bytes)
        (List.append_ne_nil_of_right_ne_nil _ (List.ne_nil_of_length_pos c.pos))
      have hshort := (hok l hl).2
      rw [readLineFrom_open hline hc (hlen.trans hshort), ih _ hopen hok]
      exact (and_iff_right hends).symm

/--
**Segmentation.** When all lines of the stream are acceptable, a session submits exactly the lines of
the stream if and only if no chunk has bytes behind its first line end.
-/
theorem sessionLoop_iff (cs : List Chunk) (hok : ∀ l ∈ lines (received cs), Acceptable l) :
    sessionLoop cs = lines (received cs) ↔ ∀ c ∈ cs, c.EndsLine := by
  rw [sessionLoop_eq]
  exact submitFrom_iff cs [] (by simp) hok

/-- `ab`, a line end, and `c` without one, in three chunks. -/
theorem sessionLoop_of_ended_chunks :
    sessionLoop [⟨[97], by decide, by decide⟩, ⟨[98, 10], by decide, by decide⟩,
      ⟨[99], by decide, by decide⟩] = [[97, 98], [99]] :=
  (sessionLoop_iff [⟨[97], by decide, by decide⟩, ⟨[98, 10], by decide, by decide⟩,
    ⟨[99], by decide, by decide⟩] (by decide)).mpr (by decide)

/-- The two lines `a` and `b` in one chunk: the second is lost. -/
theorem sessionLoop_fails_two_lines :
    lines (received [⟨[97, 10, 98, 10], by decide, by decide⟩]) = [[97], [98]] ∧
      sessionLoop [⟨[97, 10, 98, 10], by decide, by decide⟩] = [[97]] := by
  refine ⟨by decide, ?_⟩
  have hend : sessionLoop [] = [] := by
    rw [sessionLoop_eq]
    rfl
  rw [sessionLoop_eq]
  show [97] :: sessionLoop [] = [[97]]
  rw [hend]

end Dts.Session
