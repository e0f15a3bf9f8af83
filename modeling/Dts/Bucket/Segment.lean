import Dts.Infra.Ring
import Dts.Infra.Run

/-!
# Bucket segment

`BucketSegment`: a ring in shared memory with one reader and many writers. An entry is a 4-byte
length and the payload, rounded up to a multiple of 8; it is written under `write_lock` and
becomes visible when `write_pos` is stored.

The model is a transition system. Each action is one access to the shared state, or one part of a
copy: a writer and the reader may be interleaved between any two bytes. The futex words only decide
when a blocked thread looks again, so a thread that waits may look at any time here.
-/

namespace Dts.Bucket

open Infra

/-! ## Sizes -/

/-- A capacity that `Create` takes. -/
structure Capacity where
  val : Nat
  large : 1024 ≤ val
  aligned : 8 ∣ val
  sizeT : val < 2 ^ 64

/-- Its length is the `uint32_t len` of `Write`. -/
abbrev Payload := Infra.Payload

def kEntryAlign : Nat := 8

def alignDown8 (v : Nat) : Nat := v / kEntryAlign * kEntryAlign

/-- The bytes of the ring an entry takes. -/
def need (len : Nat) : Nat := alignDown8 (len + 4) + kEntryAlign

namespace Payload

def len (m : Payload) : Nat := m.bytes.length

/-- The length head and the payload. -/
def entry (m : Payload) : Bytes := leBytes 4 m.len ++ m.bytes

/-- The positions the entry takes. -/
def need (m : Payload) : Nat := Bucket.need m.len

/-- What a `Read` of this payload returns: `len` and the bytes in `out`. -/
def out (m : Payload) : Nat × Bytes := (m.len, m.bytes)

end Payload

/-- Physical offset of a running position. -/
def offset (C : Capacity) (p : UInt64) : Nat := p.toNat % C.val

/-! ## State -/

/-- The segment: header and ring, the reader's own cursor, and the two histories. -/
structure Segment where
  writePos : UInt64
  readPos : UInt64
  ring : Mem
  /-- `read_pos_`, private to the reader -/
  cursor : UInt64
  /-- payloads of the `Write`s past their publication, after which they return true -/
  accepted : List Payload
  /-- results of the `Read`s that returned true -/
  returned : List (Nat × Bytes)

/-- `wpos - rpos`. -/
def Segment.used (g : Segment) : UInt64 := g.writePos - g.readPos

/-- Where the holder of `write_lock` is. -/
inductive Phase
  /-- in `wait_drain` -/
  | waiting
  /-- copying the entry: the loaded `write_pos` and the byte stores left -/
  | copying (wpos : UInt64) (todo : List (Nat × UInt8))
  /-- `write_pos` is stored -/
  | published

/-- The writer inside the critical section. -/
structure Holder where
  writer : Nat
  msg : Payload
  phase : Phase

/-- Where the reader is. -/
inductive Reader
  | idle
  /-- at the head of the loop in `Read` -/
  | polling (max : Nat)
  /-- in `wait_wake` -/
  | waiting (max : Nat)
  /-- copying the length: the loaded `write_pos`, the bytes read, the addresses left -/
  | header (max : Nat) (wpos : UInt64) (got : Bytes) (todo : List Nat)
  /-- copying the payload -/
  | body (hdrLen : Nat) (got : Bytes) (todo : List Nat)

/-- The segment and its threads. `blocked` are the writers in `pthread_mutex_lock`. -/
structure System where
  seg : Segment
  blocked : Nat → Option Payload
  holder : Option Holder
  reader : Reader

/-- A segment as `Create` leaves it, opened by its reader and not yet used. -/
def System.init : System where
  seg := ⟨0, 0, fun _ => 0, 0, [], []⟩
  blocked := fun _ => none
  holder := none
  reader := .idle

/-! ## Write -/

/-- Thread `w` is inside a `Write`. -/
def System.inWrite (s : System) (w : Nat) : Bool :=
  (s.blocked w).isSome || s.holder.any fun h => h.writer == w

/-- Entry of `Write`: a message larger than the ring is refused at once. -/
def write (C : Capacity) (s : System) (w : Nat) (m : Payload) : Option System :=
  if s.inWrite w then none
  else if m.need > C.val then some s
  else some { s with blocked := Function.update s.blocked w (some m) }

def lock (s : System) (w : Nat) : Option System :=
  match s.holder, s.blocked w with
  | none, some m => some { s with
      blocked := Function.update s.blocked w none
      holder := some ⟨w, m, .waiting⟩ }
  | _, _ => none

/-- `pthread_mutex_lock` fails: `Write` returns false. -/
def lockFail (s : System) (w : Nat) : Option System :=
  match s.blocked w with
  | some _ => some { s with blocked := Function.update s.blocked w none }
  | none => none

/-- The test of `wait_drain`, in `size_t`: room for the smallest entry. -/
def drained (C : Capacity) (g : Segment) : Prop :=
  UInt64.ofNat kEntryAlign ≤ UInt64.ofNat C.val - g.used

instance (C : Capacity) (g : Segment) : Decidable (drained C g) :=
  inferInstanceAs (Decidable (_ ≤ _))

/-- `copy_in`: the two parts of a copy into the ring. -/
def copyIn (C : Capacity) (a : Nat) (src : Bytes) : List (Nat × UInt8) :=
  (copyAddrs C.val a src.length).zip src

/-- The byte stores of one entry at offset `off`. -/
def entryStores (C : Capacity) (off : Nat) (m : Payload) : List (Nat × UInt8) :=
  let hdrLen := leBytes 4 m.len
  if off + 4 ≤ C.val then (segAddrs off 4).zip hdrLen ++ copyIn C (off + 4) m.bytes
  else copyIn C off hdrLen ++ copyIn C ((off + 4) % C.val) m.bytes

/-- `wait_drain` lets the holder through, which loads `write_pos` and starts the copy. -/
def drain (C : Capacity) (s : System) : Option System :=
  match s.holder with
  | some ⟨w, m, .waiting⟩ =>
    -- nobody else stores `write_pos` while the lock is held, so one load stands for both
    if drained C s.seg then
      let todo := entryStores C (offset C s.seg.writePos) m
      some { s with holder := some ⟨w, m, .copying s.seg.writePos todo⟩ }
    else none
  | _ => none

/-- `wait_drain` reaches its deadline: unlock and return false. -/
def drainTimeout (s : System) : Option System :=
  match s.holder with
  | some ⟨_, _, .waiting⟩ => some { s with holder := none }
  | _ => none

/-- The next `n` byte stores. -/
def copy (s : System) (n : Nat) : Option System :=
  match s.holder with
  | some ⟨w, m, .copying wpos todo⟩ => some { s with
      seg := { s.seg with ring := storeAll s.seg.ring (todo.take n) }
      holder := some ⟨w, m, .copying wpos (todo.drop n)⟩ }
  | _ => none

/-- Store `write_pos`; from here on `Write` returns true. -/
def publish (s : System) : Option System :=
  match s.holder with
  | some ⟨w, m, .copying wpos []⟩ => some { s with
      seg := { s.seg with
        writePos := wpos + UInt64.ofNat m.need
        accepted := s.seg.accepted ++ [m] }
      holder := some ⟨w, m, .published⟩ }
  | _ => none

def unlock (s : System) : Option System :=
  match s.holder with
  | some ⟨_, _, .published⟩ => some { s with holder := none }
  | _ => none

/-! ## Read -/

def read (s : System) (max : Nat) : Option System :=
  match s.reader with
  | .idle => some { s with reader := .polling max }
  | _ => none

/-- Load `write_pos`; with at least a length word unread, start to copy the length. -/
def poll (C : Capacity) (s : System) : Option System :=
  match s.reader with
  | .polling max =>
    let wpos := s.seg.writePos
    if wpos - s.seg.cursor ≥ 4 then
      some { s with reader := .header max wpos [] (copyAddrs C.val (offset C s.seg.cursor) 4) }
    else some { s with reader := .waiting max }
  | _ => none

/-- `wait_wake` sees new data. -/
def wake (s : System) : Option System :=
  match s.reader with
  | .waiting max =>
    if s.seg.writePos > s.seg.cursor then some { s with reader := .polling max } else none
  | _ => none

/-- `wait_wake` reaches its deadline: `Read` returns false. -/
def readTimeout (s : System) : Option System :=
  match s.reader with
  | .waiting _ => some { s with reader := .idle }
  | _ => none

/-- The next `n` byte loads of the copy under way. -/
def load (s : System) (n : Nat) : Option System :=
  match s.reader with
  | .header max wpos got todo => some { s with
      reader := .header max wpos (got ++ (todo.take n).map s.seg.ring) (todo.drop n) }
  | .body hdrLen got todo => some { s with
      reader := .body hdrLen (got ++ (todo.take n).map s.seg.ring) (todo.drop n) }
  | _ => none

/-- The length is read: check that the entry is complete and start to copy the payload. -/
def decode (C : Capacity) (s : System) : Option System :=
  match s.reader with
  | .header max wpos got [] =>
    let hdrLen := leNat got
    -- the defensive branch: `Read` returns false and consumes nothing
    if (wpos - s.seg.cursor).toNat < need hdrLen then some { s with reader := .idle }
    else
      let off := offset C (s.seg.cursor + 4)
      some { s with reader := .body hdrLen [] (copyAddrs C.val off (min hdrLen max)) }
  | _ => none

/-- The payload is read: advance the cursor, store `read_pos` and return true. -/
def consume (s : System) : Option System :=
  match s.reader with
  | .body hdrLen got [] =>
    let cursor := s.seg.cursor + UInt64.ofNat (need hdrLen)
    some { s with
      seg := { s.seg with
        cursor := cursor
        readPos := cursor
        returned := s.seg.returned ++ [(hdrLen, got)] }
      reader := .idle }
  | _ => none

/-! ## Runs -/

inductive Action
  | write (w : Nat) (m : Payload)
  | lock (w : Nat)
  | lockFail (w : Nat)
  | drain
  | drainTimeout
  | copy (n : Nat)
  | publish
  | unlock
  | read (max : Nat)
  | poll
  | wake
  | readTimeout
  | load (n : Nat)
  | decode
  | consume

/-- One step of any thread. -/
def step (C : Capacity) (s : System) : Action → Option System
  | .write w m => write C s w m
  | .lock w => lock s w
  | .lockFail w => lockFail s w
  | .drain => drain C s
  | .drainTimeout => drainTimeout s
  | .copy n => copy s n
  | .publish => publish s
  | .unlock => unlock s
  | .read max => read s max
  | .poll => poll C s
  | .wake => wake s
  | .readTimeout => readTimeout s
  | .load n => load s n
  | .decode => decode C s
  | .consume => consume s

/-! ## Lemmas on sizes and positions -/

theorem Payload.length_entry (m : Payload) : m.entry.length = 4 + m.len := by
  simp [entry, len]

theorem need_eq (len : Nat) : need len = (len + 4) / 8 * 8 + 8 := rfl

theorem lt_need (len : Nat) : len + 4 < need len := by
  rw [need_eq]
  omega

theorem Payload.length_entry_le (m : Payload) : m.entry.length ≤ m.need := by
  have := lt_need m.len
  rw [length_entry, Payload.need]
  omega

/-- Positions up to `p` keep their offset when they are stored in 64 bits. -/
def Wide (C : Capacity) (p : Nat) : Prop := C.val ∣ 2 ^ 64 ∨ p < 2 ^ 64

theorem Wide.mono {C : Capacity} {p q : Nat} (h : Wide C q) (hpq : p ≤ q) : Wide C p :=
  h.imp_right fun hq => hpq.trans_lt hq

theorem offset_ofNat {C : Capacity} {p : Nat} (h : Wide C p) :
    offset C (UInt64.ofNat p) = p % C.val := by
  rw [offset, UInt64.toNat_ofNat']
  rcases h with hdvd | hlt
  · exact Nat.mod_mod_of_dvd p hdvd
  · rw [Nat.mod_eq_of_lt hlt]

theorem toNat_ofNat_sub {p q : Nat} (hpq : p ≤ q) (h : q - p < 2 ^ 64) :
    (UInt64.ofNat q - UInt64.ofNat p).toNat = q - p := by
  rw [UInt64.toNat_sub, UInt64.toNat_ofNat', UInt64.toNat_ofNat']
  omega

theorem ofNat_add_ofNat (p q : Nat) : UInt64.ofNat p + UInt64.ofNat q = UInt64.ofNat (p + q) := by
  simp

/-- The stores of an entry put its bytes at consecutive positions. -/
theorem entryStores_eq {C : Capacity} {p : Nat} {m : Payload} (hm : m.need ≤ C.val) :
    entryStores C (p % C.val) m = (ringAddrs C.val p m.entry.length).zip m.entry := by
  have hlen := m.length_entry_le
  have hC : 0 < C.val := Nat.lt_of_lt_of_le (by decide) C.large
  have hlt : p % C.val < C.val := Nat.mod_lt _ hC
  rw [m.length_entry] at hlen
  have h4 : (leBytes 4 m.len).length = 4 := length_leBytes 4 _
  have hpay : m.bytes.length = m.len := rfl
  have hnext : ringAddrs C.val (p % C.val + 4) m.len = ringAddrs C.val (p + 4) m.len :=
    ringAddrs_congr (Nat.mod_add_mod ..)
  rw [m.length_entry, ringAddrs_add, Payload.entry, List.zip_append (by simp)]
  simp only [entryStores, copyIn, h4, hpay]
  split
  · rw [segAddrs_eq ‹_›, copyAddrs_eq ‹_› (by omega), ringAddrs_mod, hnext]
  · rw [copyAddrs_eq hlt.le (by omega), copyAddrs_eq (Nat.mod_lt _ hC).le (by omega), ringAddrs_mod,
      ringAddrs_mod, hnext]

end Dts.Bucket
