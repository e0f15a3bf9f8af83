import Dts.Bucket.Segment

/-!
# The segment is a queue

`Fifo` is what the users of a segment rely on: `Read` returns the payloads of the successful
`Write`s in order and unchanged, at most `C` bytes are unread, and no pending store of a `Write`
is at an unread byte.

`wait_drain` lets a writer through when 8 bytes are free, whatever the size of its entry, so
`Fifo` fails in general. It holds in every run where each `Write` that `wait_drain` lets through
finds room for its own entry (`AdmittedWithRoom`).

The invariant names the payloads already returned (`done`) and those still in the ring (`queue`).
-/

namespace Dts.Bucket

open Infra

variable {C : Capacity} {bound : Nat} {s t : System} {g : Segment} {done queue : List Payload}
  {m : Payload}

/-! ## The property -/

/-- Addresses of the unread bytes. -/
def Segment.unread (C : Capacity) (g : Segment) : List Nat :=
  (List.range g.used.toNat).map fun i => offset C (g.readPos + UInt64.ofNat i)

/-- Addresses that the writer in the critical section has still to store to. -/
def System.storesLeft (s : System) : List Nat :=
  match s.holder with
  | some ⟨_, _, .copying _ todo⟩ => todo.map Prod.fst
  | _ => []

structure Fifo (C : Capacity) (s : System) : Prop where
  inOrder : s.seg.returned <+: s.seg.accepted.map Payload.out
  bounded : s.seg.used.toNat ≤ C.val
  intact : ∀ a ∈ s.storesLeft, a ∉ s.seg.unread C

/-- No payload is longer than `bound`, and every `Read` has a buffer of that size. -/
def Action.ReadsWhole (bound : Nat) : Action → Prop
  | .write _ m => m.len ≤ bound
  | .read max => bound ≤ max
  | _ => True

instance (bound : Nat) : ∀ a : Action, Decidable (a.ReadsWhole bound)
  | .write .. | .read _ => inferInstanceAs (Decidable (_ ≤ _))
  | .lock _ | .lockFail _ | .drain | .drainTimeout | .copy _ | .publish | .unlock | .poll | .wake
  | .readTimeout | .load _ | .decode | .consume => isTrue trivial

/-- There is room for the entry of `m`, and it ends below position 2 ^ 64. -/
def Segment.HasRoom (C : Capacity) (g : Segment) (m : Payload) : Prop :=
  m.need ≤ C.val - g.used.toNat ∧ (C.val ∣ 2 ^ 64 ∨ g.writePos.toNat + m.need < 2 ^ 64)

instance (C : Capacity) (g : Segment) (m : Payload) : Decidable (g.HasRoom C m) :=
  inferInstanceAs (Decidable (_ ∧ _))

/-- A `Write` that `wait_drain` lets through has room for its entry. -/
def AdmittedWithRoom (C : Capacity) (s : System) : Action → Prop
  | .drain => ∀ h ∈ s.holder, s.seg.HasRoom C h.msg
  | _ => True

instance (C : Capacity) (s : System) : ∀ a : Action, Decidable (AdmittedWithRoom C s a)
  | .drain => inferInstanceAs (Decidable (∀ h ∈ s.holder, s.seg.HasRoom C h.msg))
  | .write .. | .lock _ | .lockFail _ | .drainTimeout | .copy _ | .publish | .unlock | .read _
  | .poll | .wake | .readTimeout | .load _ | .decode | .consume => isTrue trivial

/-! ## The invariant -/

/-- The positions a list of payloads takes. -/
abbrev total (l : List Payload) : Nat := extent Payload.need l

theorem total_cons (m : Payload) (l : List Payload) : total (m :: l) = m.need + total l :=
  extent_cons ..

theorem total_append (l l' : List Payload) : total (l ++ l') = total l + total l' :=
  extent_append ..

/-- Header, cursor and ring. -/
structure RingInv (C : Capacity) (g : Segment) (done queue : List Payload) : Prop where
  accepted : g.accepted = done ++ queue
  returned : g.returned = done.map Payload.out
  writePos : g.writePos = UInt64.ofNat (total g.accepted)
  cursor : g.cursor = UInt64.ofNat (total done)
  readPos : g.readPos = g.cursor
  wide : Wide C (total g.accepted)
  room : total queue ≤ C.val
  stored : Stored Payload.need Payload.entry C.val g.ring (total done) queue

/-- What the entry check of `Write` and the callers' bound give. -/
structure CallOk (C : Capacity) (bound : Nat) (m : Payload) : Prop where
  need : m.need ≤ C.val
  len : m.len ≤ bound

/-- A copy into the ring: the stores left lie in the free part and complete the entry. -/
structure Copying (C : Capacity) (g : Segment) (queue : List Payload) (m : Payload)
    (wpos : UInt64) (todo : List (Nat × UInt8)) : Prop where
  pos : wpos = g.writePos
  room : total queue + m.need ≤ C.val
  wide : Wide C (total g.accepted + m.need)
  within : ∀ a ∈ todo.map Prod.fst, a ∈ ringAddrs C.val (total g.accepted) m.entry.length
  content : ringLoad C.val (storeAll g.ring todo) (total g.accepted) m.entry.length = m.entry

def PhaseInv (C : Capacity) (g : Segment) (queue : List Payload) (m : Payload) : Phase → Prop
  | .copying wpos todo => Copying C g queue m wpos todo
  | _ => True

/-- A copy out of the ring: what is read and what is left make up the `expected` bytes. -/
structure Loading (C : Capacity) (ring : Mem) (done : List Payload) (m : Payload)
    (expected got : Bytes) (todo : List Nat) : Prop where
  within : ∀ a ∈ todo, a ∈ ringAddrs C.val (total done) m.entry.length
  content : got ++ todo.map ring = expected

def ReaderInv (C : Capacity) (bound : Nat) (ring : Mem) (cursor : UInt64)
    (done queue : List Payload) : Reader → Prop
  | .idle => True
  | .polling max => bound ≤ max
  | .waiting max => bound ≤ max
  | .header max wpos got todo => bound ≤ max ∧ ∃ m rest, queue = m :: rest ∧
      m.need ≤ (wpos - cursor).toNat ∧ Loading C ring done m (leBytes 4 m.len) got todo
  | .body hdrLen got todo => ∃ m rest, queue = m :: rest ∧ hdrLen = m.len ∧
      Loading C ring done m m.bytes got todo

structure Inv (C : Capacity) (bound : Nat) (s : System) (done queue : List Payload) : Prop where
  ring : RingInv C s.seg done queue
  bounded : ∀ m ∈ queue, m.len ≤ bound
  blocked : ∀ w m, s.blocked w = some m → CallOk C bound m
  holder : ∀ w m phase, s.holder = some ⟨w, m, phase⟩ →
    CallOk C bound m ∧ PhaseInv C s.seg queue m phase
  reader : ReaderInv C bound s.seg.ring s.seg.cursor done queue s.reader

theorem inv_init (C : Capacity) (bound : Nat) : Inv C bound System.init [] [] where
  ring := ⟨rfl, rfl, rfl, rfl, rfl, Or.inr (by decide), Nat.zero_le _, trivial⟩
  bounded := fun _ h => absurd h List.not_mem_nil
  blocked := fun _ _ h => nomatch h
  holder := fun _ _ _ h => nomatch h
  reader := trivial

/-! ## Reading the invariant -/

namespace RingInv

theorem total_accepted (h : RingInv C g done queue) :
    total g.accepted = total done + total queue := by
  rw [h.accepted, total_append]

theorem toNat_writePos_sub (h : RingInv C g done queue) :
    (g.writePos - g.cursor).toNat = total queue := by
  have hroom := h.room.trans_lt C.sizeT
  have htotal := h.total_accepted
  rw [h.writePos, h.cursor, toNat_ofNat_sub (by omega) (by omega)]
  omega

theorem used (h : RingInv C g done queue) : g.used.toNat = total queue := by
  rw [Segment.used, h.readPos, h.toNat_writePos_sub]

theorem unread (h : RingInv C g done queue) :
    g.unread C = ringAddrs C.val (total done) (total queue) := by
  rw [Segment.unread, h.used]
  refine List.map_congr_left ?_
  intro i hi
  have hi := List.mem_range.mp hi
  have htotal := h.total_accepted
  rw [h.readPos, h.cursor, ofNat_add_ofNat, offset_ofNat (h.wide.mono (by omega))]

/-- The free part from `write_pos` on does not meet the unread part. -/
theorem free_disjoint (h : RingInv C g done queue) {n : Nat} (hn : total queue + n ≤ C.val) {a : Nat}
    (ha : a ∈ ringAddrs C.val (total g.accepted) n) :
    a ∉ ringAddrs C.val (total done) (total queue) := by
  rw [h.total_accepted] at ha
  exact fun hq => disjoint_ringAddrs le_rfl (by omega) hq ha

/-- The entry at the read position, head and payload. -/
theorem head (h : RingInv C g done (m :: queue)) :
    ringLoad C.val g.ring (total done) 4 = leBytes 4 m.len ∧
      ringLoad C.val g.ring (total done + 4) m.len = m.bytes := by
  have hm := h.stored.1
  rw [m.length_entry, ringLoad_add, Payload.entry] at hm
  exact List.append_inj hm (by simp [ringLoad])

end RingInv

theorem mem_ringAddrs_of_le {c p n k a : Nat} (h : n ≤ k) (ha : a ∈ ringAddrs c p n) :
    a ∈ ringAddrs c p k := by
  obtain ⟨i, hi, rfl⟩ := mem_ringAddrs.mp ha
  exact mem_ringAddrs.mpr ⟨i, hi.trans_le h, rfl⟩

/-- The bytes still to store are outside the unread part. -/
theorem Copying.free {wpos : UInt64} {todo : List (Nat × UInt8)} (hg : RingInv C g done queue)
    (h : Copying C g queue m wpos todo) {a : Nat} (ha : a ∈ todo.map Prod.fst) :
    a ∉ ringAddrs C.val (total done) (total queue) := by
  have hlen := m.length_entry_le
  have hroom := h.room
  exact hg.free_disjoint (by omega) (h.within a ha)

/-- **The invariant gives the property.** -/
theorem Inv.fifo (h : Inv C bound s done queue) : Fifo C s := by
  refine ⟨?_, ?_, ?_⟩
  · rw [h.ring.returned, h.ring.accepted, List.map_append]
    exact List.prefix_append _ _
  · rw [h.ring.used]
    exact h.ring.room
  · intro a ha
    rw [h.ring.unread]
    unfold System.storesLeft at ha
    split at ha
    · rename_i w m wpos todo hholder
      have hcopy : Copying C s.seg queue m wpos todo := (h.holder w m _ hholder).2
      exact hcopy.free h.ring ha
    · exact absurd ha List.not_mem_nil

/-! ## Changes of one thread -/

theorem Inv.setBlocked (h : Inv C bound s done queue) (w : Nat) {call : Option Payload}
    (hcall : ∀ m, call = some m → CallOk C bound m) :
    Inv C bound { s with blocked := Function.update s.blocked w call } done queue := by
  refine ⟨h.ring, h.bounded, fun v m hv => ?_, h.holder, h.reader⟩
  rcases eq_or_ne v w with rfl | hne
  · exact hcall m (by simpa using hv)
  · exact h.blocked v m (by simpa [Function.update_of_ne hne] using hv)

theorem Inv.setHolder (h : Inv C bound s done queue) {holder : Option Holder}
    (hholder : ∀ w m phase, holder = some ⟨w, m, phase⟩ →
      CallOk C bound m ∧ PhaseInv C s.seg queue m phase) :
    Inv C bound { s with holder := holder } done queue :=
  ⟨h.ring, h.bounded, h.blocked, hholder, h.reader⟩

theorem Inv.freeLock (h : Inv C bound s done queue) :
    Inv C bound { s with holder := none } done queue :=
  h.setHolder fun _ _ _ hn => nomatch hn

theorem Inv.setReader (h : Inv C bound s done queue) {reader : Reader}
    (hreader : ReaderInv C bound s.seg.ring s.seg.cursor done queue reader) :
    Inv C bound { s with reader := reader } done queue :=
  ⟨h.ring, h.bounded, h.blocked, h.holder, hreader⟩

/-! ## Writer steps -/

theorem write_inv {w : Nat} (h : Inv C bound s done queue) (hm : m.len ≤ bound)
    (hstep : write C s w m = some t) : Inv C bound t done queue := by
  unfold write at hstep
  split at hstep
  · cases hstep
  · split at hstep
    · cases hstep
      exact h
    · cases hstep
      refine h.setBlocked w ?_
      intro m' heq
      cases heq
      exact ⟨by omega, hm⟩

theorem lock_inv {w : Nat} (h : Inv C bound s done queue) (hstep : lock s w = some t) :
    Inv C bound t done queue := by
  unfold lock at hstep
  split at hstep
  · rename_i m _ hm
    cases hstep
    have hidle : ∀ x, (none : Option Payload) = some x → CallOk C bound x := by simp
    refine (h.setBlocked w hidle).setHolder ?_
    rintro _ _ _ ⟨⟩
    exact ⟨h.blocked w m hm, trivial⟩
  · cases hstep

theorem lockFail_inv {w : Nat} (h : Inv C bound s done queue) (hstep : lockFail s w = some t) :
    Inv C bound t done queue := by
  unfold lockFail at hstep
  split at hstep
  · cases hstep
    exact h.setBlocked w (by simp)
  · cases hstep

/-- With room for the entry the copy starts in the free part. -/
theorem drain_inv (h : Inv C bound s done queue) (hroom : AdmittedWithRoom C s .drain)
    (hstep : drain C s = some t) : Inv C bound t done queue := by
  unfold drain at hstep
  split at hstep
  · rename_i w m hholder
    obtain ⟨hcall, -⟩ := h.holder w m _ hholder
    obtain ⟨hfree, hpos⟩ := hroom _ hholder
    split at hstep
    · cases hstep
      refine h.setHolder ?_
      rintro _ _ _ ⟨⟩
      refine ⟨hcall, ?_⟩
      have hfits : total queue + m.need ≤ C.val := by
        have hroom := h.ring.room
        have hneed : m.need ≤ C.val - total queue := h.ring.used ▸ hfree
        omega
      -- below 2 ^ 64 the stored position is the number of bytes ever written
      have hwide : Wide C (total s.seg.accepted + m.need) := by
        rcases h.ring.wide with hdvd | hlt
        · exact Or.inl hdvd
        · rwa [h.ring.writePos, UInt64.toNat_ofNat', Nat.mod_eq_of_lt hlt] at hpos
      have hentry : m.entry.length ≤ C.val := m.length_entry_le.trans hcall.need
      have hstores : entryStores C (offset C s.seg.writePos) m =
          (ringAddrs C.val (total s.seg.accepted) m.entry.length).zip m.entry := by
        rw [h.ring.writePos, offset_ofNat h.ring.wide, entryStores_eq hcall.need]
      refine ⟨rfl, hfits, hwide, fun a ha => ?_, ?_⟩
      · rwa [hstores, List.map_fst_zip (by simp)] at ha
      · rw [hstores, ringLoad_storeAll hentry]
    · cases hstep
  · cases hstep

theorem drainTimeout_inv (h : Inv C bound s done queue) (hstep : drainTimeout s = some t) :
    Inv C bound t done queue := by
  unfold drainTimeout at hstep
  split at hstep
  · cases hstep
    exact h.freeLock
  · cases hstep

theorem Loading.congr {ring ring' : Mem} {expected got : Bytes} {todo : List Nat}
    (h : Loading C ring done m expected got todo) (heq : ∀ a ∈ todo, ring a = ring' a) :
    Loading C ring' done m expected got todo :=
  ⟨h.within, by rw [← List.map_congr_left heq]; exact h.content⟩

/-- The reader only looks at the unread part. -/
theorem ReaderInv.congr {ring ring' : Mem} {cursor : UInt64} {reader : Reader}
    (h : ReaderInv C bound ring cursor done queue reader)
    (heq : ∀ a ∈ ringAddrs C.val (total done) (total queue), ring a = ring' a) :
    ReaderInv C bound ring' cursor done queue reader := by
  have hhead : ∀ {m rest a}, queue = m :: rest →
      a ∈ ringAddrs C.val (total done) m.entry.length → ring a = ring' a := by
    intro m rest a hq ha
    refine heq a (mem_ringAddrs_of_le ?_ ha)
    rw [hq, total_cons]
    exact m.length_entry_le.trans (Nat.le_add_right ..)
  cases reader with
  | header max wpos got todo =>
    obtain ⟨hmax, m, rest, hq, hneed, hload⟩ := h
    exact ⟨hmax, m, rest, hq, hneed, hload.congr fun a ha => hhead hq (hload.within a ha)⟩
  | body hdrLen got todo =>
    obtain ⟨m, rest, hq, hlen, hload⟩ := h
    exact ⟨m, rest, hq, hlen, hload.congr fun a ha => hhead hq (hload.within a ha)⟩
  | _ => exact h

/-- Stores of the copy change no unread byte. -/
theorem copy_inv {n : Nat} (h : Inv C bound s done queue) (hstep : copy s n = some t) :
    Inv C bound t done queue := by
  unfold copy at hstep
  split at hstep
  · rename_i w m wpos todo hholder
    cases hstep
    obtain ⟨hcall, hcopy⟩ := h.holder w m _ hholder
    -- the stores lie in the free part, so the unread part is framed
    have hsame : ∀ a ∈ ringAddrs C.val (total done) (total queue),
        s.seg.ring a = storeAll s.seg.ring (todo.take n) a := by
      intro a ha
      refine (storeAll_of_not_mem fun hmem => ?_).symm
      refine Copying.free h.ring hcopy ?_ ha
      exact List.map_subset _ (List.take_subset n todo) hmem
    have hring : RingInv C { s.seg with ring := storeAll s.seg.ring (todo.take n) } done queue :=
      { h.ring with stored := h.ring.stored.congr Payload.length_entry_le hsame }
    refine ⟨hring, h.bounded, h.blocked, ?_, h.reader.congr hsame⟩
    rintro _ _ _ ⟨⟩
    refine ⟨hcall, hcopy.pos, hcopy.room, hcopy.wide, fun a ha => ?_, ?_⟩
    · exact hcopy.within a (List.map_subset _ (List.drop_subset n todo) ha)
    · rw [← storeAll_append, List.take_append_drop]
      exact hcopy.content
  · cases hstep

theorem ReaderInv.push {ring : Mem} {cursor : UInt64} {reader : Reader}
    (h : ReaderInv C bound ring cursor done queue reader) (m : Payload) :
    ReaderInv C bound ring cursor done (queue ++ [m]) reader := by
  cases reader with
  | header max wpos got todo =>
    obtain ⟨hmax, x, rest, rfl, hrest⟩ := h
    exact ⟨hmax, x, rest ++ [m], rfl, hrest⟩
  | body hdrLen got todo =>
    obtain ⟨x, rest, rfl, hrest⟩ := h
    exact ⟨x, rest ++ [m], rfl, hrest⟩
  | _ => exact h

/-- A published entry stands complete behind the unread ones. -/
theorem publish_inv (h : Inv C bound s done queue) (hstep : publish s = some t) :
    ∃ queue', Inv C bound t done queue' := by
  unfold publish at hstep
  split at hstep
  · rename_i w m wpos hholder
    cases hstep
    obtain ⟨hcall, hcopy⟩ := h.holder w m _ hholder
    have htotal : total (s.seg.accepted ++ [m]) = total s.seg.accepted + m.need := by simp
    refine ⟨queue ++ [m], ⟨?_, h.ring.returned, ?_, h.ring.cursor, h.ring.readPos, ?_, ?_, ?_⟩,
      ?_, h.blocked, ?_, h.reader.push m⟩
    · rw [h.ring.accepted, List.append_assoc]
    · rw [hcopy.pos, h.ring.writePos, ofNat_add_ofNat, htotal]
    · rw [htotal]
      exact hcopy.wide
    · simpa using hcopy.room
    · refine stored_append.mpr ⟨h.ring.stored, ?_, trivial⟩
      rw [← h.ring.total_accepted]
      exact hcopy.content
    · intro x hx
      rcases List.mem_append.mp hx with hx | hx
      · exact h.bounded x hx
      · rw [List.mem_singleton.mp hx]
        exact hcall.len
    · rintro _ _ _ ⟨⟩
      exact ⟨hcall, trivial⟩
  · cases hstep

theorem unlock_inv (h : Inv C bound s done queue) (hstep : unlock s = some t) :
    Inv C bound t done queue := by
  unfold unlock at hstep
  split at hstep
  · cases hstep
    exact h.freeLock
  · cases hstep

/-! ## Reader steps -/

theorem read_inv {max : Nat} (h : Inv C bound s done queue) (hmax : bound ≤ max)
    (hstep : read s max = some t) : Inv C bound t done queue := by
  unfold read at hstep
  split at hstep
  · cases hstep
    exact h.setReader hmax
  · cases hstep

/-- With four bytes unread there is an entry, and it is complete. -/
theorem poll_inv (h : Inv C bound s done queue) (hstep : poll C s = some t) :
    Inv C bound t done queue := by
  unfold poll at hstep
  split at hstep
  · rename_i max hreader
    simp only at hstep
    have hmax : bound ≤ max := by simpa [ReaderInv, hreader] using h.reader
    split at hstep
    · rename_i hge
      cases hstep
      have hunread : 4 ≤ total queue := by
        rw [← h.ring.toNat_writePos_sub]
        exact UInt64.le_iff_toNat_le.mp hge
      cases queue with
      | nil => simp at hunread -- nothing is unread
      | cons m rest =>
        have hC := C.large
        have haddrs : copyAddrs C.val (offset C s.seg.cursor) 4 =
            ringAddrs C.val (total done) 4 := by
          have hwide := h.ring.wide.mono (h.ring.total_accepted ▸ Nat.le_add_right ..)
          rw [h.ring.cursor, offset_ofNat hwide,
            copyAddrs_eq (Nat.mod_lt _ (by omega)).le (by omega), ringAddrs_mod]
        refine h.setReader ⟨hmax, m, rest, rfl, ?_, ?_, ?_⟩
        · rw [h.ring.toNat_writePos_sub, total_cons]
          exact Nat.le_add_right ..
        · intro a ha
          rw [haddrs] at ha
          exact mem_ringAddrs_of_le (by rw [m.length_entry]; omega) ha
        · rw [haddrs]
          exact h.ring.head.1
    · cases hstep
      exact h.setReader hmax
  · cases hstep

theorem wake_inv (h : Inv C bound s done queue) (hstep : wake s = some t) :
    Inv C bound t done queue := by
  unfold wake at hstep
  split at hstep
  · rename_i max hreader
    split at hstep
    · cases hstep
      exact h.setReader (by simpa [ReaderInv, hreader] using h.reader)
    · cases hstep
  · cases hstep

theorem readTimeout_inv (h : Inv C bound s done queue) (hstep : readTimeout s = some t) :
    Inv C bound t done queue := by
  unfold readTimeout at hstep
  split at hstep
  · cases hstep
    exact h.setReader trivial
  · cases hstep

theorem Loading.load {ring : Mem} {expected got : Bytes} {todo : List Nat}
    (h : Loading C ring done m expected got todo) (n : Nat) :
    Loading C ring done m expected (got ++ (todo.take n).map ring) (todo.drop n) := by
  refine ⟨fun a ha => h.within a (List.drop_subset n todo ha), ?_⟩
  rw [List.append_assoc, ← List.map_append, List.take_append_drop]
  exact h.content

theorem load_inv {n : Nat} (h : Inv C bound s done queue) (hstep : load s n = some t) :
    Inv C bound t done queue := by
  have hr := h.reader
  unfold load at hstep
  split at hstep
  · rename_i max wpos got todo hreader
    cases hstep
    rw [hreader] at hr
    obtain ⟨hmax, m, rest, hq, hneed, hload⟩ := hr
    exact h.setReader ⟨hmax, m, rest, hq, hneed, hload.load n⟩
  · rename_i hdrLen got todo hreader
    cases hstep
    rw [hreader] at hr
    obtain ⟨m, rest, hq, hlen, hload⟩ := hr
    exact h.setReader ⟨m, rest, hq, hlen, hload.load n⟩
  · cases hstep

/-- The length read is the entry's own, so the entry is taken as complete. -/
theorem decode_inv (h : Inv C bound s done queue) (hstep : decode C s = some t) :
    Inv C bound t done queue := by
  have hr := h.reader
  unfold decode at hstep
  split at hstep
  · rename_i max wpos got hreader
    rw [hreader] at hr
    obtain ⟨hmax, m, rest, rfl, hneed, hload⟩ := hr
    have hgot : leNat got = m.len := by
      have hbytes : got = leBytes 4 m.len := by simpa using hload.content
      rw [hbytes, leNat_leBytes, Nat.mod_eq_of_lt]
      exact m.sizeT
    simp only [hgot] at hstep
    split at hstep
    -- the writer publishes whole entries only
    · rename_i hlt
      exact absurd hlt (not_lt.mpr hneed)
    · cases hstep
      have hlenMax : min m.len max = m.len :=
        Nat.min_eq_left ((h.bounded m List.mem_cons_self).trans hmax)
      have hlen := m.length_entry_le
      have hroom := h.ring.room
      have htotal := h.ring.total_accepted
      rw [total_cons] at hroom htotal
      rw [m.length_entry] at hlen
      have haddrs : copyAddrs C.val (offset C (s.seg.cursor + 4)) m.len =
          ringAddrs C.val (total done + 4) m.len := by
        have hcur : s.seg.cursor + 4 = UInt64.ofNat (total done + 4) := by
          rw [h.ring.cursor, ← ofNat_add_ofNat]
          rfl
        have hC := C.large
        rw [hcur, offset_ofNat (h.ring.wide.mono (by omega)),
          copyAddrs_eq (Nat.mod_lt _ (by omega)).le (by omega), ringAddrs_mod]
      refine h.setReader ⟨m, rest, rfl, rfl, ?_, ?_⟩
      · intro a ha
        rw [hlenMax, haddrs] at ha
        rw [m.length_entry, ringAddrs_add]
        exact List.mem_append_right _ ha
      · rw [hlenMax, haddrs]
        exact h.ring.head.2
  · cases hstep

/-- The entry at the read position is returned and its space becomes free. -/
theorem consume_inv (h : Inv C bound s done queue) (hstep : consume s = some t) :
    ∃ done' queue', Inv C bound t done' queue' := by
  have hr := h.reader
  unfold consume at hstep
  split at hstep
  · rename_i hdrLen got hreader
    cases hstep
    rw [hreader] at hr
    obtain ⟨m, rest, rfl, rfl, hload⟩ := hr
    have hgot : got = m.bytes := by simpa using hload.content
    have hdone : total (done ++ [m]) = total done + m.need := by simp
    have hroom := h.ring.room
    rw [total_cons] at hroom
    refine ⟨done ++ [m], rest, ⟨?_, ?_, h.ring.writePos, ?_, rfl, h.ring.wide, by omega, ?_⟩, ?_,
      h.blocked, fun w x phase heq => ?_, trivial⟩
    · rw [h.ring.accepted, List.append_assoc]
      rfl
    · rw [h.ring.returned, hgot, List.map_append]
      rfl
    · rw [h.ring.cursor, ofNat_add_ofNat, hdone]
      rfl
    · rw [hdone]
      exact h.ring.stored.2
    · exact fun x hx => h.bounded x (List.mem_cons_of_mem _ hx)
    · obtain ⟨hcall, hphase⟩ := h.holder w x phase heq
      refine ⟨hcall, ?_⟩
      cases phase with
      | copying wpos todo =>
        have hcopy := hphase.room
        rw [total_cons] at hcopy
        exact ⟨hphase.pos, by omega, hphase.wide, hphase.within, hphase.content⟩
      | _ => trivial
  · cases hstep

/-! ## Runs -/

/-- **Step lemma.** -/
theorem step_inv {a : Action} (h : Inv C bound s done queue) (hcall : a.ReadsWhole bound)
    (hroom : AdmittedWithRoom C s a) (hstep : step C s a = some t) :
    ∃ done' queue', Inv C bound t done' queue' := by
  cases a with
  | write w m => exact ⟨_, _, write_inv h hcall hstep⟩
  | lock w => exact ⟨_, _, lock_inv h hstep⟩
  | lockFail w => exact ⟨_, _, lockFail_inv h hstep⟩
  | drain => exact ⟨_, _, drain_inv h hroom hstep⟩
  | drainTimeout => exact ⟨_, _, drainTimeout_inv h hstep⟩
  | copy n => exact ⟨_, _, copy_inv h hstep⟩
  | publish => exact ⟨_, publish_inv h hstep⟩
  | unlock => exact ⟨_, _, unlock_inv h hstep⟩
  | read max => exact ⟨_, _, read_inv h hcall hstep⟩
  | poll => exact ⟨_, _, poll_inv h hstep⟩
  | wake => exact ⟨_, _, wake_inv h hstep⟩
  | readTimeout => exact ⟨_, _, readTimeout_inv h hstep⟩
  | load n => exact ⟨_, _, load_inv h hstep⟩
  | decode => exact ⟨_, _, decode_inv h hstep⟩
  | consume => exact consume_inv h hstep

/--
**A queue, with room for every entry.** In every run where each `Write` let through by
`wait_drain` has room for its entry, whatever the interleaving, the reader gets the payloads of the
successful `Write`s in order and unchanged, and no unread byte is overwritten.
-/
theorem fifo_of_admittedWithRoom (C : Capacity) (bound : Nat) (run : List Action)
    (hcalls : ∀ a ∈ run, a.ReadsWhole bound)
    (hroom : AllSteps (step C) (AdmittedWithRoom C) System.init run) :
    AllStates (step C) (Fifo C) System.init run := by
  refine allStates_of_allSteps (fun s => ∃ done queue, Inv C bound s done queue)
    (fun _ ⟨_, _, h⟩ => h.fifo) (fun _ _ _ ⟨_, _, h⟩ hstep ⟨hc, ha⟩ => step_inv h ha hc hstep) run _
    ⟨[], [], inv_init C bound⟩ (hroom.and hcalls)

/-- The smallest ring. -/
def smallRing : Capacity := ⟨1024, le_rfl, by decide, by decide⟩

/-- A payload of `n` equal bytes. -/
def filled (n : Nat) (b : UInt8) (h : n < 2 ^ 32) : Payload :=
  ⟨List.replicate n b, by rwa [List.length_replicate]⟩

/-- Two writers, the second entry lies across the end of the ring, and the reader takes pieces. -/
def acrossTheEnd : List Action :=
  [.write 0 (filled 996 7 (by decide)), .write 1 (filled 40 9 (by decide)), .read 996, .poll,
    .lock 0, .drain, .copy 500, .copy 500, .publish, .wake, .unlock, .lock 1, .poll, .load 4,
    .decode, .load 996, .consume, .drain, .copy 30, .read 996, .copy 14, .publish, .unlock, .poll,
    .load 4, .decode, .load 15, .load 25, .consume]

theorem fifo_two_messages :
    AllStates (step smallRing) (Fifo smallRing) System.init acrossTheEnd :=
  fifo_of_admittedWithRoom smallRing 996 _ (by decide +kernel) (by decide +kernel)

/-- An entry of 1016 bytes leaves 8 bytes, and an entry of 112 bytes is let through. -/
def overfill : List Action :=
  [.write 0 (filled 1004 0 (by decide)), .lock 0, .drain, .copy 1008, .publish, .unlock,
    .write 1 (filled 100 1 (by decide)), .lock 1, .drain, .copy 104, .publish]

/-- The reader has not moved, and 1128 of 1024 bytes are unread. -/
theorem fifo_fails_on_overfill : ¬ ∀ (C : Capacity) (bound : Nat) (run : List Action),
    (∀ a ∈ run, a.ReadsWhole bound) → AllStates (step C) (Fifo C) System.init run := by
  intro hclaim
  have hall := hclaim smallRing 1004 overfill (by decide +kernel)
  have hused : (exec (step smallRing) System.init overfill).map (fun t => t.seg.used.toNat) =
      some 1128 := by decide +kernel
  obtain ⟨t, ht, hval⟩ := Option.map_eq_some_iff.mp hused
  have hbounded := (hall.last ht).bounded
  rw [hval] at hbounded
  exact absurd hbounded (by decide)

end Dts.Bucket
