import Dts.Bucket.Fifo

/-!
# One entry more

`Write` puts an entry behind the unread ones, in up to four parts when it goes around the end of the
ring; `Read` takes the first one out in up to four parts. `WriteLaw` says how the two fit: up to the
store of `write_pos` a reader finds the old entries, whatever has been copied, and from then on the
old entries and the new one.

The positions are 64-bit counters and an offset is a position modulo the capacity. When the capacity
does not divide 2 ^ 64, a counter that wraps between the unread entries moves the next one to an
offset of its own, and it may lie on an unread entry (`not_writeLaw_wrapped`).
-/

namespace Dts.Bucket

open Infra

variable {C : Capacity} {g : Segment} {m : Payload} {queue : List Payload}

/-! ## A `Read` as a whole -/

/-- The segment after a `Read` that returned `r`. -/
def Segment.advance (g : Segment) (r : ℕ × Bytes) : Segment :=
  let cursor := g.cursor + UInt64.ofNat (need r.1)
  { g with cursor := cursor, readPos := cursor, returned := g.returned ++ [r] }

/--
One `Read` of a segment at rest; `none` when it finds nothing to return. The steps of the reader
thread do this, `exec_read`.
-/
def readEntry (C : Capacity) (max : ℕ) (g : Segment) : Option ((ℕ × Bytes) × Segment) :=
  if g.writePos - g.cursor ≥ 4 then
    let hdrLen := leNat ((copyAddrs C.val (offset C g.cursor) 4).map g.ring)
    if (g.writePos - g.cursor).toNat < need hdrLen then none
    else
      let out := (copyAddrs C.val (offset C (g.cursor + 4)) (min hdrLen max)).map g.ring
      some ((hdrLen, out), g.advance (hdrLen, out))
  else none

/-- The results of up to `n` `Read`s, and the segment behind them. -/
def decodeAll (C : Capacity) (max : ℕ) : ℕ → Segment → List (ℕ × Bytes) × Segment
  | 0, g => ([], g)
  | n + 1, g =>
    match readEntry C max g with
    | none => ([], g)
    | some (r, g') => (r :: (decodeAll C max n g').1, (decodeAll C max n g').2)

@[simp] theorem length_copyAddrs (c a n : ℕ) : (copyAddrs c a n).length = n := by
  simp [copyAddrs, segAddrs]

section
variable (g : Segment) (blocked : ℕ → Option Payload) (holder : Option Holder)

/-- A load of everything that is left of the length. -/
theorem load_header {max n : ℕ} {wpos : UInt64} {todo : List ℕ} (h : todo.length ≤ n) :
    load ⟨g, blocked, holder, .header max wpos [] todo⟩ n
      = some ⟨g, blocked, holder, .header max wpos (todo.map g.ring) []⟩ := by
  simp only [load, List.take_of_length_le h, List.drop_of_length_le h, List.nil_append]

/-- A load of everything that is left of the payload. -/
theorem load_body {hdrLen n : ℕ} {todo : List ℕ} (h : todo.length ≤ n) :
    load ⟨g, blocked, holder, .body hdrLen [] todo⟩ n
      = some ⟨g, blocked, holder, .body hdrLen (todo.map g.ring) []⟩ := by
  simp only [load, List.take_of_length_le h, List.drop_of_length_le h, List.nil_append]

/-- The steps of the reader thread in a `Read` that returns true. -/
theorem exec_read {max : ℕ} {r : ℕ × Bytes} {g' : Segment} (h : readEntry C max g = some (r, g')) :
    exec (step C) ⟨g, blocked, holder, .idle⟩
      [.read max, .poll, .load 4, .decode, .load (min r.1 max), .consume]
        = some ⟨g', blocked, holder, .idle⟩ := by
  simp only [readEntry] at h
  split at h
  case isFalse => cases h
  case isTrue hfour =>
    split at h
    case isTrue => cases h
    case isFalse hfits =>
      cases h
      have hpoll : poll C ⟨g, blocked, holder, .polling max⟩ = some ⟨g, blocked, holder,
          .header max g.writePos [] (copyAddrs C.val (offset C g.cursor) 4)⟩ := if_pos hfour
      simp only [exec_cons, exec_nil, step, read, Option.bind_some, hpoll,
        load_header g blocked holder (length_copyAddrs _ _ 4).le, decode, if_neg hfits,
        load_body g blocked holder (length_copyAddrs _ _ _).le, consume]
      rfl

end

/-- What a `Read` with room for `max` bytes returns for a payload. -/
def Payload.outMax (max : ℕ) (m : Payload) : ℕ × Bytes := (m.len, m.bytes.take max)

/-- **The reader decodes exactly these payloads**, and ends at `write_pos`. -/
def Decodes (C : Capacity) (g : Segment) (queue : List Payload) : Prop :=
  ∀ max n, (decodeAll C max n g).1 = (queue.map (Payload.outMax max)).take n ∧
    (queue.length ≤ n → (decodeAll C max n g).2.cursor = g.writePos)

/-! ## The unread entries -/

/-- The entries stand one behind the other from a position on, each around the end of the ring. -/
def StoredAt (C : Capacity) (ring : Mem) : UInt64 → List Payload → Prop
  | _, [] => True
  | p, m :: l => ringLoad C.val ring (offset C p) m.entry.length = m.entry ∧
      StoredAt C ring (p + UInt64.ofNat m.need) l

/-- `queue` is what lies between `read_pos` and `write_pos`. -/
structure Unread (C : Capacity) (g : Segment) (queue : List Payload) : Prop where
  cursor : g.cursor = g.readPos
  writePos : g.writePos = g.readPos + UInt64.ofNat (total queue)
  room : total queue ≤ C.val
  stored : StoredAt C g.ring g.readPos queue

/-- **What a `Write` of `m` does to the unread entries.** -/
structure WriteLaw (C : Capacity) (s : System) (queue : List Payload) (m : Payload) : Prop where
  /-- at any point of the copy, and when the writer dies there -/
  unpublished : ∀ n, ∃ t, exec (step C) s [.drain, .copy n] = some t ∧ Decodes C t.seg queue
  /-- when the copy is complete and `write_pos` is stored -/
  published : ∀ n, (entryStores C (offset C s.seg.writePos) m).length ≤ n →
    ∃ t, exec (step C) s [.drain, .copy n, .publish] = some t ∧ Decodes C t.seg (queue ++ [m])

/-! ## Reading entries -/

theorem dvd_need (len : ℕ) : 8 ∣ need len := by
  rw [need_eq]
  omega

theorem Unread.used (h : Unread C g queue) : g.used.toNat = total queue := by
  have hlt := h.room.trans_lt C.sizeT
  rw [Segment.used, h.writePos, UInt64.add_comm, UInt64.add_sub_cancel, UInt64.toNat_ofNat',
    Nat.mod_eq_of_lt hlt]

theorem offset_lt (C : Capacity) (p : UInt64) : offset C p < C.val :=
  Nat.mod_lt _ (Nat.lt_of_lt_of_le (by decide) C.large)

/-- The two parts of an entry in the ring. -/
theorem head_of_stored {ring : Mem} {off : ℕ}
    (h : ringLoad C.val ring off m.entry.length = m.entry) :
    ringLoad C.val ring off 4 = leBytes 4 m.len ∧
      ringLoad C.val ring (off + 4) m.len = m.bytes := by
  rw [m.length_entry, ringLoad_add, Payload.entry] at h
  exact List.append_inj h (by simp [ringLoad])

/-- `Read` looks for the payload of each entry behind the length, around the end of the ring. -/
def HeadsAt (C : Capacity) : UInt64 → List Payload → Prop
  | _, [] => True
  | p, m :: l => offset C (p + 4) = (offset C p + 4) % C.val ∧
      HeadsAt C (p + UInt64.ofNat m.need) l

/-- A copy out of the ring, in two parts, is a load around its end. -/
theorem copyOut_eq (ring : Mem) {off n : ℕ} (hoff : off ≤ C.val) (hn : n ≤ C.val) :
    (copyAddrs C.val off n).map ring = ringLoad C.val ring off n := by
  rw [copyAddrs_eq hoff hn]
  rfl

theorem ringLoad_take {ring : Mem} {off k : ℕ} {bs : Bytes}
    (h : ringLoad C.val ring off bs.length = bs) (hk : k ≤ bs.length) :
    ringLoad C.val ring off k = bs.take k := by
  have hsplit := ringLoad_add C.val ring off k (bs.length - k)
  rw [Nat.add_sub_cancel' hk, h] at hsplit
  rw [hsplit, List.take_left' (by simp [ringLoad])]

/-- **One `Read`** takes the first entry out, whole or as much as there is room for. -/
theorem Unread.readEntry_cons (h : Unread C g (m :: queue))
    (hhead : offset C (g.readPos + 4) = (offset C g.readPos + 4) % C.val) (max : ℕ) :
    readEntry C max g = some (m.outMax max, g.advance (m.outMax max)) ∧
      Unread C (g.advance (m.outMax max)) queue := by
  have hroom := h.room
  have hused : (g.writePos - g.cursor).toNat = total (m :: queue) := by
    rw [h.cursor]
    exact h.used
  rw [total_cons] at hroom hused
  have hneed : m.len + 4 < m.need := lt_need m.len
  have hlarge := C.large
  obtain ⟨hentry, hrest⟩ := h.stored
  obtain ⟨hlength, hbody⟩ := head_of_stored hentry
  have hfour : g.writePos - g.cursor ≥ 4 := by
    rw [ge_iff_le, UInt64.le_iff_toNat_le, hused, show (4 : UInt64).toNat = 4 from rfl]
    omega
  have hlen : leNat ((copyAddrs C.val (offset C g.cursor) 4).map g.ring) = m.len := by
    rw [copyOut_eq g.ring (offset_lt C _).le (by omega), h.cursor, hlength, leNat_leBytes]
    exact Nat.mod_eq_of_lt m.sizeT
  have hout : (copyAddrs C.val (offset C (g.cursor + 4)) (min m.len max)).map g.ring
      = m.bytes.take max := by
    rw [copyOut_eq g.ring (offset_lt C _).le (by omega), h.cursor, hhead]
    have haddr : ringLoad C.val g.ring ((offset C g.readPos + 4) % C.val) (min m.len max)
        = ringLoad C.val g.ring (offset C g.readPos + 4) (min m.len max) := by
      rw [ringLoad, ringAddrs_mod]
      rfl
    have hmin : m.bytes.take (min m.len max) = m.bytes.take max := by
      rw [Nat.min_comm, ← List.take_take, show m.bytes.take m.len = m.bytes from List.take_length]
    rw [haddr, ← hmin]
    exact ringLoad_take hbody (Nat.min_le_left _ _)
  have hfits : ¬(g.writePos - g.cursor).toNat < need m.len := by
    rw [hused]
    show ¬m.need + total queue < m.need
    omega
  have hread : readEntry C max g = some (m.outMax max, g.advance (m.outMax max)) := by
    rw [readEntry, if_pos hfour, hlen, if_neg hfits, hout]
    rfl
  refine ⟨hread, rfl, ?_, by omega, ?_⟩
  · show g.writePos = g.cursor + UInt64.ofNat m.need + UInt64.ofNat (total queue)
    rw [h.writePos, total_cons, h.cursor, UInt64.add_assoc, UInt64.ofNat_add]
  · show StoredAt C g.ring (g.cursor + UInt64.ofNat m.need) queue
    rw [h.cursor]
    exact hrest

theorem Unread.readEntry_nil (h : Unread C g []) (max : ℕ) : readEntry C max g = none := by
  have hdiff : g.writePos - g.cursor = 0 := by
    rw [h.writePos, h.cursor]
    simp [total]
  rw [readEntry, hdiff, if_neg (by decide)]

/-- **The reads of a whole queue.** -/
theorem Unread.decodes (h : Unread C g queue) (hheads : HeadsAt C g.readPos queue) :
    Decodes C g queue := by
  intro max n
  induction n generalizing g queue with
  | zero =>
    refine ⟨rfl, ?_⟩
    intro hlen
    have hnil : queue = [] := List.eq_nil_of_length_eq_zero (Nat.le_zero.mp hlen)
    subst hnil
    show g.cursor = g.writePos
    rw [h.writePos, h.cursor]
    simp [total]
  | succ n ih =>
    cases queue with
    | nil =>
      rw [decodeAll, h.readEntry_nil]
      refine ⟨rfl, ?_⟩
      intro _
      show g.cursor = g.writePos
      rw [h.writePos, h.cursor]
      simp [total]
    | cons m queue =>
      obtain ⟨hhead, hrest⟩ := hheads
      obtain ⟨hread, hun⟩ := h.readEntry_cons hhead max
      have hnext : HeadsAt C (g.advance (m.outMax max)).readPos queue := by
        show HeadsAt C (g.cursor + UInt64.ofNat m.need) queue
        rw [h.cursor]
        exact hrest
      obtain ⟨hlist, hend⟩ := ih hun hnext
      rw [decodeAll, hread]
      refine ⟨?_, ?_⟩
      · simp only [hlist, List.map_cons, List.take_succ_cons]
      · intro hlen
        exact hend (by simpa using hlen)

/-! ## Writing an entry -/

theorem storedAt_append {ring : Mem} {p : UInt64} {l l' : List Payload} :
    StoredAt C ring p (l ++ l') ↔
      StoredAt C ring p l ∧ StoredAt C ring (p + UInt64.ofNat (total l)) l' := by
  induction l generalizing p with
  | nil => simp [StoredAt, total]
  | cons m l ih =>
    rw [List.cons_append, StoredAt, StoredAt, ih, total_cons, UInt64.ofNat_add, UInt64.add_assoc,
      and_assoc]

/-- Where the counters go on without a jump, entries stand in the ring as in a list of records. -/
theorem storedAt_iff {ring : Mem} {p : UInt64} {l : List Payload} {q : ℕ}
    (h : ∀ k ≤ total l, offset C (p + UInt64.ofNat k) = (q + k) % C.val) :
    StoredAt C ring p l ↔ Stored Payload.need Payload.entry C.val ring q l := by
  induction l generalizing p q with
  | nil => exact Iff.rfl
  | cons m l ih =>
    rw [total_cons] at h
    have hzero : offset C p = q % C.val := by
      simpa using h 0 (Nat.zero_le _)
    have hrest : ∀ k ≤ total l,
        offset C (p + UInt64.ofNat m.need + UInt64.ofNat k) = (q + m.need + k) % C.val := by
      intro k hk
      rw [UInt64.add_assoc, ← UInt64.ofNat_add, Nat.add_assoc]
      exact h _ (by omega)
    rw [StoredAt, Stored, ih hrest, hzero, ringLoad, ringAddrs_mod]
    rfl

/-- Where the counters go on without a jump, payloads stand behind their lengths. -/
theorem headsAt_of_offset {p : UInt64} {l : List Payload} {q : ℕ}
    (h : ∀ k ≤ total l, offset C (p + UInt64.ofNat k) = (q + k) % C.val) : HeadsAt C p l := by
  induction l generalizing p q with
  | nil => trivial
  | cons m l ih =>
    rw [total_cons] at h
    have hneed : m.len + 4 < m.need := lt_need m.len
    have hzero : offset C p = q % C.val := by
      simpa using h 0 (Nat.zero_le _)
    have hfour : offset C (p + 4) = (q + 4) % C.val := h 4 (by omega)
    refine ⟨by rw [hzero, hfour, Nat.mod_add_mod], ih (q := q + m.need) ?_⟩
    intro k hk
    rw [UInt64.add_assoc, ← UInt64.ofNat_add, Nat.add_assoc]
    exact h _ (by omega)

theorem headsAt_append {p : UInt64} {l l' : List Payload} :
    HeadsAt C p (l ++ l') ↔ HeadsAt C p l ∧ HeadsAt C (p + UInt64.ofNat (total l)) l' := by
  induction l generalizing p with
  | nil => simp [HeadsAt, total]
  | cons m l ih =>
    rw [List.cons_append, HeadsAt, HeadsAt, ih, total_cons, UInt64.ofNat_add, UInt64.add_assoc,
      and_assoc]

/-- The counters do not jump from the first unread entry to the payload of the next one. -/
def Steady (C : Capacity) (g : Segment) : Prop :=
  C.val ∣ 2 ^ 64 ∨ g.readPos ≤ g.writePos ∧ g.writePos.toNat + 4 < 2 ^ 64

instance (C : Capacity) (g : Segment) : Decidable (Steady C g) :=
  inferInstanceAs (Decidable (_ ∨ _))

theorem Unread.offset_eq (h : Unread C g queue) (hs : Steady C g) {k : ℕ} (hk : k ≤ total queue) :
    offset C (g.readPos + UInt64.ofNat k) = (g.readPos.toNat + k) % C.val := by
  have hroom := h.room.trans_lt C.sizeT
  have hlt := g.readPos.toNat_lt
  have hsum : ∀ j ≤ total queue,
      (g.readPos + UInt64.ofNat j).toNat = (g.readPos.toNat + j) % 2 ^ 64 := by
    intro j hj
    rw [UInt64.toNat_add, UInt64.toNat_ofNat', Nat.add_mod_mod]
  rw [offset, hsum k hk]
  rcases hs with hdvd | hle
  · exact Nat.mod_mod_of_dvd _ hdvd
  · -- `write_pos` is at or behind `read_pos`, so the sum did not wrap
    have hwrite := UInt64.le_iff_toNat_le.mp hle.1
    rw [h.writePos, hsum _ le_rfl] at hwrite
    rw [Nat.mod_eq_of_lt (a := g.readPos.toNat + k) (by omega)]

/-- The payload of the new entry stands behind its length, too. -/
theorem offset_add_four (hs : Steady C g) :
    offset C (g.writePos + 4) = (offset C g.writePos + 4) % C.val := by
  have hfour : (4 : UInt64).toNat = 4 := rfl
  rw [offset, offset, UInt64.toNat_add, hfour, Nat.mod_add_mod]
  rcases hs with hdvd | ⟨-, hlt⟩
  · exact Nat.mod_mod_of_dvd _ hdvd
  · rw [Nat.mod_eq_of_lt hlt]

theorem Unread.headsAt (h : Unread C g queue) (hs : Steady C g) : HeadsAt C g.readPos queue :=
  headsAt_of_offset fun _ hk => h.offset_eq hs hk

theorem Unread.headsAt_publish (h : Unread C g queue) (hs : Steady C g) (m : Payload) :
    HeadsAt C g.readPos (queue ++ [m]) := by
  refine headsAt_append.mpr ⟨h.headsAt hs, ?_, trivial⟩
  rw [← h.writePos]
  exact offset_add_four hs

/-- The stores of the new entry, at the positions behind the unread ones. -/
theorem Unread.entryStores_eq (h : Unread C g queue) (hs : Steady C g)
    (hroom : total queue + m.need ≤ C.val) :
    entryStores C (offset C g.writePos) m
      = (ringAddrs C.val (g.readPos.toNat + total queue) m.entry.length).zip m.entry := by
  have hoff := h.offset_eq hs le_rfl
  rw [← h.writePos] at hoff
  rw [hoff]
  exact Dts.Bucket.entryStores_eq (by omega)

/-- The ring after `n` byte stores of the copy. -/
def Segment.copied (C : Capacity) (g : Segment) (m : Payload) (n : ℕ) : Mem :=
  storeAll g.ring ((entryStores C (offset C g.writePos) m).take n)

/-- **Frame.** No part of the copy touches an unread byte. -/
theorem Unread.frame (h : Unread C g queue) (hs : Steady C g)
    (hroom : total queue + m.need ≤ C.val) (n : ℕ) :
    StoredAt C (g.copied C m n) g.readPos queue := by
  have hlen := m.length_entry_le
  rw [Segment.copied, h.entryStores_eq hs hroom]
  rw [storedAt_iff fun k hk => h.offset_eq hs hk]
  have hold := (storedAt_iff fun k hk => h.offset_eq hs hk).mp h.stored
  refine hold.congr Payload.length_entry_le ?_
  intro a ha
  refine (storeAll_of_not_mem ?_).symm
  intro hmem
  have hnew : a ∈ ringAddrs C.val (g.readPos.toNat + total queue) m.entry.length := by
    rw [List.map_take, List.map_fst_zip (by simp)] at hmem
    exact List.mem_of_mem_take hmem
  have hdisjoint : List.Disjoint (ringAddrs C.val g.readPos.toNat (total queue))
      (ringAddrs C.val (g.readPos.toNat + total queue) m.entry.length) :=
    disjoint_ringAddrs le_rfl (by omega)
  exact hdisjoint ha hnew

/-- The complete copy is the entry, wherever it stands. -/
theorem load_entryStores {p : UInt64} {ring : Mem} (hm : m.need ≤ C.val) :
    ringLoad C.val (storeAll ring (entryStores C (offset C p) m)) (offset C p)
      m.entry.length = m.entry := by
  have hload := @ringLoad_storeAll C.val p.toNat ring m.entry (m.length_entry_le.trans hm)
  have hoff : ∀ mem : Mem, ringLoad C.val mem (offset C p) m.entry.length
      = ringLoad C.val mem p.toNat m.entry.length := by
    intro mem
    rw [ringLoad, offset, ringAddrs_mod]
    rfl
  rw [hoff, offset, Dts.Bucket.entryStores_eq hm]
  exact hload

/-! ## The write as a whole -/

/-- With room for its entry, a `Write` that holds the lock gets through `wait_drain`. -/
theorem drain_of_room {s : System} {w : ℕ} (hholder : s.holder = some ⟨w, m, .waiting⟩)
    (hun : Unread C s.seg queue) (hroom : m.need ≤ C.val - s.seg.used.toNat) :
    drain C s = some { s with holder := some ⟨w, m,
      .copying s.seg.writePos (entryStores C (offset C s.seg.writePos) m)⟩ } := by
  have hneed := lt_need m.len
  have hC := C.sizeT
  have hdvd : 8 ∣ m.need := dvd_need m.len
  have hpos : m.len + 4 < m.need := hneed
  have hdrained : drained C s.seg := by
    have hle : total queue ≤ C.val := hun.room
    rw [hun.used] at hroom
    have hsub : (UInt64.ofNat C.val - s.seg.used).toNat = C.val - total queue := by
      have hcap : (UInt64.ofNat C.val).toNat = C.val := by
        rw [UInt64.toNat_ofNat', Nat.mod_eq_of_lt hC]
      rw [UInt64.toNat_sub_of_le _ _ (by rw [UInt64.le_iff_toNat_le, hcap, hun.used]; exact hle),
        hcap, hun.used]
    rw [drained, UInt64.le_iff_toNat_le, hsub]
    show 8 ≤ C.val - total queue
    omega
  unfold drain
  rw [hholder]
  exact if_pos hdrained

/-- A part of the copy changes the ring and nothing else. -/
theorem Unread.copy (h : Unread C g queue) (hs : Steady C g)
    (hroom : total queue + m.need ≤ C.val) (n : ℕ) :
    Unread C { g with ring := g.copied C m n } queue :=
  ⟨h.cursor, h.writePos, h.room, h.frame hs hroom n⟩

/-- After the publication the new entry is the last unread one. -/
theorem Unread.publish (h : Unread C g queue) (hs : Steady C g)
    (hroom : total queue + m.need ≤ C.val) {n : ℕ}
    (hn : (entryStores C (offset C g.writePos) m).length ≤ n) (accepted : List Payload) :
    Unread C { g with
      ring := g.copied C m n
      writePos := g.writePos + UInt64.ofNat m.need
      accepted := accepted } (queue ++ [m]) := by
  have hold := h.frame hs hroom n
  have hnew := @load_entryStores C m g.writePos g.ring (by omega)
  have htotal : total (queue ++ [m]) = total queue + m.need := by
    rw [total_append, total_cons]
    simp [total]
  refine ⟨h.cursor, ?_, by rw [htotal]; exact hroom, ?_⟩
  · show g.writePos + UInt64.ofNat m.need = g.readPos + UInt64.ofNat (total (queue ++ [m]))
    rw [htotal, UInt64.ofNat_add, ← UInt64.add_assoc, ← h.writePos]
  · refine storedAt_append.mpr ⟨hold, ?_, trivial⟩
    show ringLoad _ _ (offset C (g.readPos + UInt64.ofNat (total queue))) _ = _
    rw [← h.writePos, Segment.copied, List.take_of_length_le hn]
    exact hnew

/--
**Writing and reading one entry.** While the counters do not jump up to the new payload, a `Write`
with room for its entry leaves them readable at every point of the copy, and adds the new one by the
store of `write_pos`, whatever the offset, the payload and the unread entries are.
-/
theorem writeLaw_of_steady {s : System} {w : ℕ} (hholder : s.holder = some ⟨w, m, .waiting⟩)
    (hun : Unread C s.seg queue) (hroom : m.need ≤ C.val - s.seg.used.toNat)
    (hs : Steady C s.seg) : WriteLaw C s queue m := by
  have hdrain := drain_of_room hholder hun hroom
  have hle := hun.room
  have htotal : total queue + m.need ≤ C.val := by
    rw [hun.used] at hroom
    have hneed : m.len + 4 < m.need := lt_need m.len
    omega
  constructor
  · intro n
    refine ⟨_, by simp only [exec_cons, exec_nil, step, hdrain, Option.bind_some, copy]; rfl, ?_⟩
    exact (hun.copy hs htotal n).decodes (hun.headsAt hs)
  · intro n hn
    refine ⟨_, by
      simp only [exec_cons, exec_nil, step, hdrain, Option.bind_some, copy,
        List.drop_of_length_le hn, publish]
      rfl, ?_⟩
    exact (hun.publish hs htotal hn _).decodes (hun.headsAt_publish hs m)

/-! ## Two segments -/

/-- A capacity that does not divide 2 ^ 64. -/
def smallCapacity : Capacity := ⟨1040, by decide, by decide, by decide⟩

def emptyPayload : Payload := ⟨[], Nat.two_pow_pos 32⟩

/-- One empty entry is unread at `readPos`, and a writer of `m` is about to start. -/
def oneUnread (readPos : UInt64) (m : Payload) : System where
  seg := ⟨readPos + 8, readPos, fun _ => 0, readPos, [], []⟩
  blocked := fun _ => none
  holder := some ⟨0, m, .waiting⟩
  reader := .idle

theorem unread_oneUnread (readPos : UInt64) (m : Payload) :
    Unread smallCapacity (oneUnread readPos m).seg [emptyPayload] :=
  ⟨rfl, rfl, by decide, rfl, trivial⟩

/-- An entry whose length goes around the end of the ring, at offset 1038 of 1040, and one whose
payload does, at offset 1032. -/
theorem writeLaw_around :
    WriteLaw smallCapacity (oneUnread 1030 ⟨[1, 2, 3, 4, 5, 6], by decide⟩)
      [emptyPayload] ⟨[1, 2, 3, 4, 5, 6], by decide⟩ ∧
    WriteLaw smallCapacity (oneUnread 1024 ⟨[1, 2, 3, 4, 5, 6], by decide⟩)
      [emptyPayload] ⟨[1, 2, 3, 4, 5, 6], by decide⟩ :=
  ⟨writeLaw_of_steady rfl (unread_oneUnread 1030 _) (by decide) (by decide),
    writeLaw_of_steady rfl (unread_oneUnread 1024 _) (by decide) (by decide)⟩

def onesPayload : Payload := ⟨List.replicate 8 0xFF, by decide⟩

/-- The counter wraps behind the unread entry: the new one is copied over it. -/
theorem not_writeLaw_wrapped : ¬∀ (C : Capacity) (s : System) (w : ℕ) (m : Payload)
    (queue : List Payload), s.holder = some ⟨w, m, .waiting⟩ → Unread C s.seg queue →
      m.need ≤ C.val - s.seg.used.toNat → WriteLaw C s queue m := by
  intro h
  have hlaw := h smallCapacity (oneUnread 18446744073709551608 onesPayload) 0 onesPayload
    [emptyPayload] rfl (unread_oneUnread _ _) (by decide)
  obtain ⟨t, hexec, hdec⟩ := hlaw.unpublished 12
  have hrun : (exec (step smallCapacity) (oneUnread 18446744073709551608 onesPayload)
      [.drain, .copy 12]).map (fun t => (decodeAll smallCapacity 0 1 t.seg).1) = some [] := by
    decide +kernel
  rw [hexec, Option.map_some, (hdec 0 1).1] at hrun
  cases hrun

end Dts.Bucket
