import Dts.Console.ReadLine

/-!
# The limit on command lines

`ReadLine` gives up on a line when it has more than `kMaxLineLen` bytes and no line end yet. A line end
in the same chunk comes first, so a line may go over the limit and be submitted. And a line that was
given up makes `ReadLine` return false, which ends the session: the answer that `SessionLoop` has for
such a line is never sent.

`limitLaw_iff` is exact: the limit is kept as intended if and only if no line goes over it.
-/

namespace Dts.Session

open Infra Console

/-! ## What a session does with its lines -/

inductive Event
  /-- a job for the control thread -/
  | submitted (line : Bytes)
  /-- an answer that the session makes itself -/
  | answered (resp : Bytes)
  deriving DecidableEq

/-- `SessionLoop`, with the answers to lines that are too long. -/
def sessionEvents (cs : List Chunk) : List Event :=
  match _ : readLine cs with
  | (some (line, tooLong), rest) =>
    if line.isEmpty then []
    else if tooLong then .answered tooLongResp :: sessionEvents rest
    else .submitted line :: sessionEvents rest
  | (none, _) => []
termination_by cs.length
decreasing_by all_goals exact rest_lt ‹_›

/-! ## The law -/

/-- The lines of a stream after `line` that have a line end. -/
def terminatedFrom (line : Bytes) : Bytes → List Bytes
  | [] => []
  | b :: bs => if b = newline then line :: terminatedFrom [] bs else terminatedFrom (line ++ [b]) bs

def terminated (stream : Bytes) : List Bytes := terminatedFrom [] stream

def overLimit (line : Bytes) : Bool := decide (kMaxLineLen < line.length)

/-- The stream ends with a line over the limit and its line end. -/
def EndsOverLimit (stream : Bytes) : Prop :=
  ∃ before line, stream = before ++ line ++ [newline] ∧ newline ∉ line ∧ overLimit line = true

/-- The first `n` bytes, in the same chunks. -/
def takeBytes : Nat → List Chunk → List Chunk
  | _, [] => []
  | n, c :: cs =>
    if c.bytes.length ≤ n then c :: takeBytes (n - c.bytes.length) cs
    else if hn : 0 < n then
      have hpos : 0 < (c.bytes.take n).length := List.length_take ▸ Nat.lt_min.mpr ⟨hn, c.pos⟩
      [⟨c.bytes.take n, hpos, (List.length_take_le' n c.bytes).trans c.fits⟩]
    else []

/-- The bytes behind the first `n`, in the same chunks. -/
def dropBytes : Nat → List Chunk → List Chunk
  | _, [] => []
  | n, c :: cs =>
    if hn : c.bytes.length ≤ n then dropBytes (n - c.bytes.length) cs
    else
      have hlen : (c.bytes.drop n).length = c.bytes.length - n := List.length_drop
      ⟨c.bytes.drop n, by omega, hlen ▸ (Nat.sub_le _ n).trans c.fits⟩ :: cs

/-- **The law.** -/
structure LimitLaw (cs : List Chunk) : Prop where
  /-- no line over the limit is submitted -/
  submitted : ∀ line, .submitted line ∈ sessionEvents cs → overLimit line = false
  /-- every line over the limit is answered -/
  answered : (sessionEvents cs).count (.answered tooLongResp)
    = (terminated (received cs)).countP overLimit
  /-- and the session goes on behind its line end -/
  goesOn : ∀ n, EndsOverLimit ((received cs).take n) →
    sessionEvents cs = sessionEvents (takeBytes n cs) ++ sessionEvents (dropBytes n cs)

/-! ## Lines -/

theorem terminatedFrom_append {piece : Bytes} (h : newline ∉ piece) (line rest : Bytes) :
    terminatedFrom line (piece ++ rest) = terminatedFrom (line ++ piece) rest := by
  induction piece generalizing line with
  | nil => rw [List.nil_append, List.append_nil]
  | cons b piece ih =>
    have hb : b ≠ newline := fun he => h (he ▸ List.mem_cons_self)
    have hpiece : newline ∉ piece := fun hm => h (List.mem_cons_of_mem b hm)
    rw [List.cons_append, terminatedFrom, if_neg hb, ih hpiece, List.append_assoc,
      List.singleton_append]

/-- Bytes before a line end are the end of one of the lines. -/
theorem exists_terminated {piece : Bytes} (h : newline ∉ piece) (before rest line : Bytes) :
    ∃ l ∈ terminatedFrom line (before ++ piece ++ newline :: rest), piece.length ≤ l.length := by
  induction before generalizing line with
  | nil =>
    rw [List.nil_append, terminatedFrom_append h, terminatedFrom, if_pos rfl]
    exact ⟨line ++ piece, List.mem_cons_self, by simp⟩
  | cons b before ih =>
    rw [List.cons_append, List.cons_append, terminatedFrom]
    split
    · obtain ⟨l, hl, hlen⟩ := ih []
      exact ⟨l, List.mem_cons_of_mem line hl, hlen⟩
    · exact ih (line ++ [b])

/-! ## The answer that is never sent -/

/-- `ReadLine` never returns true for a line that it has given up. -/
theorem readLineFrom_overflow {cs rest : List Chunk} {line l : Bytes} {overflow tooLong : Bool}
    (h : readLineFrom line overflow cs = (some (l, tooLong), rest)) :
    overflow = false ∧ tooLong = false := by
  induction cs generalizing line overflow with
  | nil =>
    unfold readLineFrom at h
    cases overflow with
    | true => simp at h
    | false =>
      split at h
      · cases h
      · split at h <;> cases h
        exact ⟨rfl, rfl⟩
  | cons c cs ih =>
    unfold readLineFrom at h
    simp only at h
    split at h
    · cases overflow with
      | true => simp at h
      | false =>
        simp only [Bool.false_eq_true, if_false] at h
        cases h
        exact ⟨rfl, rfl⟩
    · split at h
      · exact absurd (ih h).1 (by decide)
      · exact ih h

/-- What the session does from a result of `ReadLine` on. -/
def eventsFrom (r : Option (Bytes × Bool) × List Chunk) : List Event :=
  match r with
  | (some (line, tooLong), rest) =>
    if line.isEmpty then []
    else if tooLong then .answered tooLongResp :: sessionEvents rest
    else .submitted line :: sessionEvents rest
  | (none, _) => []

theorem sessionEvents_eq_eventsFrom (cs : List Chunk) :
    sessionEvents cs = eventsFrom (readLine cs) := by
  rw [sessionEvents]
  split
  · rename_i hread
    rw [hread]
    rfl
  · rename_i hread
    rw [hread]
    rfl

/-- So a session does nothing but submit lines. -/
theorem sessionEvents_eq (cs : List Chunk) : sessionEvents cs = (sessionLoop cs).map .submitted := by
  rw [sessionEvents_eq_eventsFrom, sessionLoop_eq]
  change eventsFrom (readLine cs) = (submitFrom (readLine cs)).map .submitted
  rcases hread : readLine cs with ⟨_ | ⟨line, tooLong⟩, rest⟩
  · rfl
  · have hlt := rest_lt hread
    obtain ⟨-, rfl⟩ := readLineFrom_overflow hread
    unfold eventsFrom submitFrom
    simp only [Bool.false_eq_true, if_false]
    split
    · rfl
    · rw [List.map_cons, sessionEvents_eq rest]
termination_by cs.length

theorem count_answered (cs : List Chunk) :
    (sessionEvents cs).count (.answered tooLongResp) = 0 := by
  rw [sessionEvents_eq, List.count_eq_zero]
  intro hmem
  obtain ⟨line, -, heq⟩ := List.mem_map.mp hmem
  cases heq

/-! ## Submitted lines -/

/-- `l` stands before a line end of the stream. -/
def StandsIn (l stream : Bytes) : Prop :=
  ∃ before rest, stream = before ++ l ++ newline :: rest ∧ newline ∉ l

theorem StandsIn.append {l stream : Bytes} (h : StandsIn l stream) (front : Bytes) :
    StandsIn l (front ++ stream) := by
  obtain ⟨before, rest, rfl, hl⟩ := h
  exact ⟨front ++ before, rest, by simp, hl⟩

/-- A submitted line is within the limit, or it stands before a line end. -/
theorem submitFrom_bound (cs : List Chunk) (line : Bytes) (overflow : Bool)
    (hlen : line.length ≤ kMaxLineLen) :
    ∀ l ∈ submitFrom (readLineFrom line overflow cs), l.length ≤ kMaxLineLen ∨
      StandsIn l (line ++ received cs) := by
  induction cs generalizing line overflow with
  | nil =>
    intro l hl
    cases overflow with
    | true => cases hl
    | false =>
      rw [submitFrom_nil] at hl
      unfold linesFrom at hl
      split at hl
      · cases hl
      · rw [List.mem_singleton.mp hl]
        exact .inl hlen
  | cons c cs ih =>
    intro l hl
    have hrecv : line ++ received (c :: cs) = (line ++ c.bytes) ++ received cs := by
      rw [received, List.flatMap_cons, List.append_assoc]
      rfl
    have hlater : ∀ overflow, l ∈ submitFrom (readLineFrom [] overflow cs) →
        l.length ≤ kMaxLineLen ∨ StandsIn l (line ++ received (c :: cs)) := by
      intro overflow hl
      rw [hrecv]
      exact (ih [] overflow (Nat.zero_le _) l hl).imp_right fun h => h.append _
    unfold readLineFrom at hl
    simp only at hl
    split at hl
    · rename_i hmem
      cases overflow with
      | true => cases hl
      | false =>
        obtain ⟨d, e, hde, hd⟩ := List.eq_append_cons_of_mem hmem
        rw [hde, takeWhile_newline hd] at hl
        unfold submitFrom at hl
        simp only [Bool.false_eq_true, if_false] at hl
        split at hl
        · cases hl
        · rcases List.mem_cons.mp hl with rfl | hl
          · right
            rw [hrecv, hde]
            exact ⟨[], e ++ received cs, by simp, hd⟩
          · rw [sessionLoop_eq] at hl
            exact hlater false hl
    · split at hl
      · exact hlater true hl
      · rename_i hfits
        rw [hrecv]
        exact ih (line ++ c.bytes) overflow (Nat.le_of_not_lt hfits) l hl

theorem submitted_bound {cs : List Chunk} {line : Bytes}
    (h : Event.submitted line ∈ sessionEvents cs) :
    line.length ≤ kMaxLineLen ∨ StandsIn line (received cs) := by
  rw [sessionEvents_eq] at h
  obtain ⟨l, hl, heq⟩ := List.mem_map.mp h
  cases heq
  rw [sessionLoop_eq] at hl
  exact submitFrom_bound cs [] false (Nat.zero_le _) line hl

/-! ## The limit -/

/-- When no line goes over the limit, nothing that stands before a line end does. -/
theorem overLimit_of_standsIn {stream l : Bytes}
    (hshort : ∀ line ∈ terminated stream, overLimit line = false) (hl : StandsIn l stream) :
    overLimit l = false := by
  obtain ⟨before, rest, rfl, hopen⟩ := hl
  obtain ⟨line, hline, hlen⟩ := exists_terminated hopen before rest []
  have hle := of_decide_eq_false (hshort line hline)
  exact decide_eq_false (by omega)

/--
**The limit.** For every stream and all its chunks: no line over the limit is submitted, each one is
answered and the session goes on behind it, if and only if there is no line over the limit.
-/
theorem limitLaw_iff (cs : List Chunk) :
    LimitLaw cs ↔ ∀ line ∈ terminated (received cs), overLimit line = false := by
  constructor
  · intro h line hline
    have hnone := h.answered
    rw [count_answered] at hnone
    exact Bool.eq_false_iff.mpr (List.countP_eq_zero.mp hnone.symm line hline)
  · intro hshort
    refine ⟨?_, ?_, ?_⟩
    · intro line hline
      rcases submitted_bound hline with hfits | hstands
      · exact decide_eq_false (by omega)
      · exact overLimit_of_standsIn hshort hstands
    · rw [count_answered, eq_comm, List.countP_eq_zero]
      intro line hline
      exact Bool.eq_false_iff.mp (hshort line hline)
    · rintro n ⟨before, line, htake, hopen, hover⟩
      have hstands : StandsIn line (received cs) := by
        refine ⟨before, (received cs).drop n, ?_, hopen⟩
        calc received cs = (received cs).take n ++ (received cs).drop n :=
              (List.take_append_drop n _).symm
          _ = before ++ line ++ newline :: (received cs).drop n := by rw [htake]; simp
      rw [overLimit_of_standsIn hshort hstands] at hover
      cases hover

/-! ## A line over the limit -/

/-- Chunks without a line end go to the line under way as long as it fits. -/
theorem readLineFrom_opens {front : List Chunk} (hfront : ∀ c ∈ front, newline ∉ c.bytes)
    {line : Bytes} (hline : newline ∉ line) (hlen : (line ++ received front).length ≤ kMaxLineLen)
    (cs : List Chunk) :
    readLineFrom line false (front ++ cs) = readLineFrom (line ++ received front) false cs := by
  induction front generalizing line with
  | nil => rw [List.nil_append, received, List.flatMap_nil, List.append_nil]
  | cons c front ih =>
    obtain ⟨hc, hrest⟩ := List.forall_mem_cons.mp hfront
    have hrecv : line ++ received (c :: front) = (line ++ c.bytes) ++ received front := by
      rw [received, List.flatMap_cons, List.append_assoc]
      rfl
    rw [hrecv] at hlen ⊢
    have hfits : (line ++ c.bytes).length ≤ kMaxLineLen := by
      rw [List.length_append] at hlen
      omega
    rw [List.cons_append, readLineFrom_open hline hc hfits, ih hrest (by simp [hline, hc]) hlen]

/-- A chunk that fills the buffer. -/
def fullChunk : Chunk where
  bytes := List.replicate 256 97
  pos := by rw [List.length_replicate]; decide
  fits := by rw [List.length_replicate]

/-- A line of 4097 bytes whose end comes with its last byte. -/
def longLine : List Chunk := List.replicate 16 fullChunk ++ [⟨[97, 10], by decide, by decide⟩]

theorem newline_notMem_replicate (n : Nat) : newline ∉ List.replicate n (97 : UInt8) :=
  fun h => absurd (List.eq_of_mem_replicate h) (by decide)

theorem received_replicate_full (n : Nat) :
    received (List.replicate n fullChunk) = List.replicate (n * 256) 97 := by
  rw [received, List.flatMap_def, List.map_replicate]
  exact List.flatten_replicate_replicate

/-- It is submitted. -/
theorem not_limitLaw_longLine :
    sessionEvents longLine = [.submitted (List.replicate 4097 97)] ∧ ¬ LimitLaw longLine := by
  have hopen : ∀ c ∈ List.replicate 16 fullChunk, newline ∉ c.bytes := by
    intro c hc
    rw [List.eq_of_mem_replicate hc]
    exact newline_notMem_replicate 256
  have hfits : ([] ++ received (List.replicate 16 fullChunk)).length ≤ kMaxLineLen := by
    rw [List.nil_append, received_replicate_full, List.length_replicate]
    exact Nat.le_refl 4096
  have hread : sessionLoop longLine = [List.replicate 4097 97] := by
    have hend : sessionLoop [] = [] := by
      rw [sessionLoop_eq]
      rfl
    rw [sessionLoop_eq, longLine, readLineFrom_opens hopen List.not_mem_nil hfits, List.nil_append,
      received_replicate_full, submitFrom_close (d := [97]) (newline_notMem_replicate 4096) rfl
      (by decide) (List.append_ne_nil_of_right_ne_nil _ (List.cons_ne_nil _ _)), hend,
      ← List.replicate_succ']
  have hevents : sessionEvents longLine = [.submitted (List.replicate 4097 97)] := by
    rw [sessionEvents_eq, hread, List.map_singleton]
  refine ⟨hevents, fun h => ?_⟩
  have hshort := h.submitted (List.replicate 4097 97) (hevents ▸ List.mem_cons_self)
  rw [overLimit, List.length_replicate] at hshort
  exact absurd hshort (by decide)

end Dts.Session
