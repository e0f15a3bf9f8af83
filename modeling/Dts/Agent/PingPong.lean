import Dts.Infra.Bytes
import Dts.Infra.Run
import Mathlib.Logic.Function.Basic

/-!
# Ping-pong buffer

`pingpong.cpp`: one writer appends to the current face, one reader flips the faces and takes what is
in the old one. The flip is atomic, but `Write` loads the index of its face once, and its offset with
the test, and the reader may flip, drain and reset that face before the write is done.

`pingpong_law` is about all interleavings of the single steps: the bytes returned and the bytes in
the two faces are the bytes accepted, as long as the two calls do not disturb each other.
-/

namespace Dts.Agent

open Infra

/-! ## The buffer -/

def kPingPongSize : Nat := 32 * 1024

/-- The index of a face. -/
abbrev Face := Bool

/-- A capacity that a whole face fits into. -/
structure Cap where
  cap : UInt32
  face : kPingPongSize ≤ cap.toNat

structure PingPongBuffer where
  bufs : Face → Mem
  off : Face → UInt32
  cur : Face

namespace PingPongBuffer

def init : PingPongBuffer := ⟨fun _ _ => 0, fun _ => 0, false⟩

/-- The bytes that are in a face. -/
def content (b : PingPongBuffer) (f : Face) : Bytes := (b.bufs f).load 0 (b.off f).toNat

/-- The test of `Write`, in the arithmetic of `uint32_t`. -/
def refuses (b : PingPongBuffer) (idx : Face) (p : Payload) : Bool :=
  p.len == 0 || kPingPongSize < (b.off idx + p.len).toNat

/-- `memcpy(bufs_[idx].data() + off, data, len)`, with the value that was loaded of `off`. -/
def copyIn (b : PingPongBuffer) (idx : Face) (off : UInt32) (p : Payload) : PingPongBuffer :=
  { b with bufs := Function.update b.bufs idx ((b.bufs idx).store off.toNat p.bytes) }

/-- `off += len`, with the value that was loaded of `off`. -/
def advance (b : PingPongBuffer) (idx : Face) (off : UInt32) (p : Payload) : PingPongBuffer :=
  { b with off := Function.update b.off idx (off + p.len) }

/-- `off` is a reference: behind the test the code has the value of the test, or loads it again. -/
def offAgain (b : PingPongBuffer) (idx : Face) (off : UInt32) (again : Bool) : UInt32 :=
  if again then b.off idx else off

/-- `cur_.fetch_xor(1)`. -/
def flip (b : PingPongBuffer) : PingPongBuffer := { b with cur := !b.cur }

/-- `off_[old] = 0`. -/
def reset (b : PingPongBuffer) (old : Face) : PingPongBuffer :=
  { b with off := Function.update b.off old 0 }

/-- A write that nothing interrupts. -/
def write (b : PingPongBuffer) (p : Payload) : Bool × PingPongBuffer :=
  let idx := b.cur
  if b.refuses idx p then (false, b)
  else (true, (b.copyIn idx (b.off idx) p).advance idx (b.off idx) p)

/-- A flip that nothing interrupts, with the bytes copied to `out`. -/
def readAndFlip (b : PingPongBuffer) (cap : Cap) : Bytes × PingPongBuffer :=
  let old := b.cur
  let b := b.flip
  let n := min (b.off old) cap.cap
  if 0 < n then ((b.bufs old).load 0 n.toNat, b.reset old) else ([], b)

end PingPongBuffer

/-! ## The steps of the two calls -/

/-- Where the writer is; `pos` is the offset that it has tested, or copied to. -/
inductive Writer where
  | idle
  | loaded (idx : Face) (p : Payload)
  | tested (idx : Face) (p : Payload) (pos : UInt32)
  | copied (idx : Face) (p : Payload) (pos : UInt32)

inductive Reader where
  | idle
  | flipped (old : Face) (cap : Cap)
  | counted (old : Face) (n : UInt32)
  | drained (old : Face) (n : UInt32) (out : Bytes)

/-- The buffer, the two threads, and what the calls have accepted and returned so far. -/
structure State where
  buf : PingPongBuffer
  writer : Writer
  reader : Reader
  accepted : List Bytes
  returned : List Bytes

def State.init : State := ⟨.init, .idle, .idle, [], []⟩

inductive Act where
  | load (p : Payload)
  | test
  | copy (again : Bool)
  | advance (again : Bool)
  | flip (cap : Cap)
  | readOff
  | copyOut
  | reset

def step (s : State) : Act → Option State
  | .load p =>
    match s.writer with
    | .idle => some { s with writer := .loaded s.buf.cur p }
    | _ => none
  | .test =>
    match s.writer with
    | .loaded idx p =>
      if s.buf.refuses idx p then some { s with writer := .idle }
      else some { s with writer := .tested idx p (s.buf.off idx) }
    | _ => none
  | .copy again =>
    match s.writer with
    | .tested idx p tested =>
      let pos := s.buf.offAgain idx tested again
      some { s with buf := s.buf.copyIn idx pos p, writer := .copied idx p pos }
    | _ => none
  | .advance again =>
    match s.writer with
    | .copied idx p pos =>
      some { s with
        buf := s.buf.advance idx (s.buf.offAgain idx pos again) p
        writer := .idle
        accepted := s.accepted ++ [p.bytes] }
    | _ => none
  | .flip cap =>
    match s.reader with
    | .idle => some { s with buf := s.buf.flip, reader := .flipped s.buf.cur cap }
    | _ => none
  | .readOff =>
    match s.reader with
    | .flipped old cap =>
      let n := min (s.buf.off old) cap.cap
      if 0 < n then some { s with reader := .counted old n }
      else some { s with reader := .idle, returned := s.returned ++ [[]] }
    | _ => none
  | .copyOut =>
    match s.reader with
    | .counted old n =>
      some { s with reader := .drained old n ((s.buf.bufs old).load 0 n.toNat) }
    | _ => none
  | .reset =>
    match s.reader with
    | .drained old _ out =>
      some { s with buf := s.buf.reset old, reader := .idle, returned := s.returned ++ [out] }
    | _ => none

/-! ## Calls without interruption -/

/-- The steps of a whole `Write`. -/
def writeActs (b : PingPongBuffer) (p : Payload) (again : Bool) : List Act :=
  if b.refuses b.cur p then [.load p, .test]
  else [.load p, .test, .copy again, .advance again]

/-- The steps of a whole `ReadAndFlip`. -/
def readActs (b : PingPongBuffer) (cap : Cap) : List Act :=
  if 0 < min (b.off b.cur) cap.cap then [.flip cap, .readOff, .copyOut, .reset]
  else [.flip cap, .readOff]

/-- The steps of a write one after the other do what `write` does. -/
theorem exec_writeActs {s : State} (hw : s.writer = .idle) (p : Payload) (again : Bool) :
    exec step s (writeActs s.buf p again) = some { s with
      buf := (s.buf.write p).2
      accepted := if (s.buf.write p).1 then s.accepted ++ [p.bytes] else s.accepted } := by
  obtain ⟨buf, writer, reader, accepted, returned⟩ := s
  cases hw
  unfold writeActs PingPongBuffer.write
  by_cases h : buf.refuses buf.cur p = true
  · simp [h, exec_cons, step]
  · cases again <;> simp [h, exec_cons, step, PingPongBuffer.offAgain, PingPongBuffer.copyIn]

/-- The steps of a flip one after the other do what `readAndFlip` does. -/
theorem exec_readActs {s : State} (hr : s.reader = .idle) (cap : Cap) :
    exec step s (readActs s.buf cap) = some { s with
      buf := (s.buf.readAndFlip cap).2
      returned := s.returned ++ [(s.buf.readAndFlip cap).1] } := by
  obtain ⟨buf, writer, reader, accepted, returned⟩ := s
  cases hr
  unfold readActs PingPongBuffer.readAndFlip
  by_cases h : 0 < min (buf.off buf.cur) cap.cap
  · simp [h, exec_cons, step, PingPongBuffer.flip]
  · simp [h, exec_cons, step, PingPongBuffer.flip]

/-! ## The law and its condition -/

/-- The bytes of the two faces, the older ones first. -/
def PingPongBuffer.buffered (b : PingPongBuffer) : Bytes := b.content (!b.cur) ++ b.content b.cur

/-- **No byte is lost, duplicated or replaced**, and no copy leaves its face. -/
structure Law (s : State) : Prop where
  inBounds : ∀ idx p pos, s.writer = .copied idx p pos →
    pos.toNat + p.bytes.length ≤ kPingPongSize
  conserved : s.returned.flatten ++ s.buf.buffered = s.accepted.flatten

/-- The step is not disturbed by the other thread, and the test does not overflow. -/
def undisturbed (s : State) : Act → Bool
  | .test =>
    match s.writer with
    | .loaded idx p => (s.buf.off idx).toNat + p.bytes.length < 2 ^ 32
    | _ => true
  | .advance _ =>
    match s.writer with
    | .copied idx _ pos => s.buf.off idx == pos && (idx == s.buf.cur || s.buf.off s.buf.cur == 0)
    | _ => true
  | .flip _ => s.buf.off (!s.buf.cur) == 0 || s.buf.off s.buf.cur == 0
  | .reset =>
    match s.reader with
    | .drained old n _ => s.buf.off old == n
    | _ => true
  | _ => true

/-! ## What the steps do to the faces -/

namespace PingPongBuffer

variable {b : PingPongBuffer} {idx f : Face} {off : UInt32} {p : Payload}

theorem length_content (b : PingPongBuffer) (f : Face) : (b.content f).length = (b.off f).toNat :=
  Mem.length_load _ _ _

theorem content_of_off_zero (h : b.off f = 0) : b.content f = [] := by
  unfold content
  rw [h]
  rfl

theorem toNat_len (p : Payload) : p.len.toNat = p.bytes.length := by
  rw [Payload.len, UInt32.toNat_ofNat', Nat.mod_eq_of_lt p.sizeT]

/-- Without overflow an accepted payload fits into its face. -/
theorem fits_of_not_refuses (hoff : (b.off idx).toNat + p.bytes.length < 2 ^ 32)
    (h : b.refuses idx p = false) : (b.off idx).toNat + p.bytes.length ≤ kPingPongSize := by
  unfold refuses at h
  rw [Bool.or_eq_false_iff, decide_eq_false_iff_not, UInt32.toNat_add, toNat_len,
    Nat.mod_eq_of_lt hoff] at h
  omega

/-- What a face holds ends before the bytes copied behind it. -/
theorem content_copyIn (hoff : (b.off idx).toNat ≤ off.toNat) (p : Payload) (f : Face) :
    (b.copyIn idx off p).content f = b.content f := by
  show (Function.update b.bufs idx _ f).load 0 (b.off f).toNat = b.content f
  by_cases hf : f = idx
  · subst hf
    rw [Function.update_self]
    exact Mem.load_store_disjoint (Or.inl (by omega))
  · rw [Function.update_of_ne hf]
    rfl

theorem toNat_off_advance (hfit : (b.off idx).toNat + p.bytes.length ≤ kPingPongSize) :
    ((b.advance idx (b.off idx) p).off idx).toNat = (b.off idx).toNat + p.bytes.length := by
  have hsize : kPingPongSize < 2 ^ 32 := by decide
  show (Function.update b.off idx (b.off idx + p.len) idx).toNat = _
  rw [Function.update_self, UInt32.toNat_add, toNat_len, Nat.mod_eq_of_lt (by omega)]

/-- The offset moves over the bytes that stand there. -/
theorem content_advance (hfit : (b.off idx).toNat + p.bytes.length ≤ kPingPongSize)
    (hload : (b.bufs idx).load (b.off idx).toNat p.bytes.length = p.bytes) :
    (b.advance idx (b.off idx) p).content idx = b.content idx ++ p.bytes := by
  show (b.bufs idx).load 0 ((b.advance idx (b.off idx) p).off idx).toNat = _
  rw [toNat_off_advance hfit, Mem.load_add, Nat.zero_add, hload]
  rfl

theorem content_advance_of_ne (hf : f ≠ idx) (b : PingPongBuffer) (off : UInt32) (p : Payload) :
    (b.advance idx off p).content f = b.content f := by
  show (b.bufs f).load 0 (Function.update b.off idx _ f).toNat = _
  rw [Function.update_of_ne hf]
  rfl

/-- No offset shrinks while the sum fits. -/
theorem off_le_advance (hfit : (b.off idx).toNat + p.bytes.length ≤ kPingPongSize) (f : Face) :
    (b.off f).toNat ≤ ((b.advance idx (b.off idx) p).off f).toNat := by
  rw [← length_content, ← length_content]
  by_cases hf : f = idx
  · subst hf
    rw [length_content, length_content, toNat_off_advance hfit]
    omega
  · rw [content_advance_of_ne hf]

/-- An advance keeps all offsets inside their faces. -/
theorem size_advance (hsize : ∀ f, (b.off f).toNat ≤ kPingPongSize)
    (hfit : (b.off idx).toNat + p.bytes.length ≤ kPingPongSize) (f : Face) :
    ((b.advance idx (b.off idx) p).off f).toNat ≤ kPingPongSize := by
  by_cases hf : f = idx
  · rw [hf, toNat_off_advance hfit]
    exact hfit
  · show (Function.update b.off idx _ f).toNat ≤ _
    rw [Function.update_of_ne hf]
    exact hsize f

theorem size_reset (hsize : ∀ f, (b.off f).toNat ≤ kPingPongSize) (old f : Face) :
    ((b.reset old).off f).toNat ≤ kPingPongSize := by
  show (Function.update b.off old 0 f).toNat ≤ _
  by_cases hf : f = old
  · rw [hf, Function.update_self]
    exact Nat.zero_le _
  · rw [Function.update_of_ne hf]
    exact hsize f

theorem content_reset (b : PingPongBuffer) (old : Face) : (b.reset old).content old = [] :=
  content_of_off_zero (Function.update_self _ _ _)

theorem content_reset_of_ne (hf : f ≠ idx) (b : PingPongBuffer) :
    (b.reset idx).content f = b.content f := by
  show (b.bufs f).load 0 (Function.update b.off idx 0 f).toNat = _
  rw [Function.update_of_ne hf]
  rfl

/-! ## Whole calls -/

section Calls

variable {b : PingPongBuffer}

theorem toNat_min (m n : UInt32) : (min m n).toNat = min m.toNat n.toNat := by
  show (if m ≤ n then m else n).toNat = min m.toNat n.toNat
  split
  · rename_i h
    exact (min_eq_left (UInt32.le_iff_toNat_le.mp h)).symm
  · rename_i h
    exact (min_eq_right (Nat.le_of_lt (UInt32.not_le.mp h))).symm

/-- Between two calls the old face is empty. -/
structure Settled (b : PingPongBuffer) : Prop where
  size : ∀ f, (b.off f).toNat ≤ kPingPongSize
  drained : b.off (!b.cur) = 0

theorem settled_init : Settled PingPongBuffer.init where
  size := fun _ => Nat.zero_le _
  drained := rfl

theorem write_refused {p : Payload} (h : b.refuses b.cur p = true) : b.write p = (false, b) :=
  if_pos h

/-- What an accepted write does. -/
theorem write_accepted (hs : Settled b) {p : Payload} (h : b.refuses b.cur p = false)
    (hoff : (b.off b.cur).toNat + p.bytes.length < 2 ^ 32) :
    (b.write p).1 = true ∧ Settled (b.write p).2 ∧
      (b.write p).2.content (b.write p).2.cur = b.content b.cur ++ p.bytes := by
  have hfit := fits_of_not_refuses hoff h
  have hwrite : b.write p =
      (true, (b.copyIn b.cur (b.off b.cur) p).advance b.cur (b.off b.cur) p) :=
    if_neg (ne_true_of_eq_false h)
  rw [hwrite]
  refine ⟨rfl, ⟨size_advance (b := b.copyIn b.cur (b.off b.cur) p) hs.size hfit, ?_⟩, ?_⟩
  · show Function.update b.off b.cur _ (!b.cur) = 0
    rw [Function.update_of_ne (by simp)]
    exact hs.drained
  · have hload : ((b.copyIn b.cur (b.off b.cur) p).bufs b.cur).load (b.off b.cur).toNat
        p.bytes.length = p.bytes := by
      show (Function.update b.bufs b.cur _ b.cur).load _ _ = _
      rw [Function.update_self]
      exact Mem.load_store_same _ _ _
    have hcontent := content_advance (b := b.copyIn b.cur (b.off b.cur) p) hfit hload
    rw [content_copyIn le_rfl] at hcontent
    exact hcontent

/-- What a flip does: it returns what is in the current face, and both faces are empty. -/
theorem readAndFlip_settled (hs : Settled b) (cap : Cap) :
    (b.readAndFlip cap).1 = b.content b.cur ∧ Settled (b.readAndFlip cap).2 ∧
      (b.readAndFlip cap).2.content (b.readAndFlip cap).2.cur = [] := by
  have hmin : (min (b.off b.cur) cap.cap).toNat = (b.off b.cur).toNat := by
    rw [toNat_min]
    exact min_eq_left ((hs.size b.cur).trans cap.face)
  unfold readAndFlip
  show (if 0 < min (b.off b.cur) cap.cap then _ else _ : Bytes × PingPongBuffer).1 = _ ∧ _
  by_cases hn : 0 < min (b.off b.cur) cap.cap
  · simp only [flip, hn, if_true]
    refine ⟨by rw [hmin]; rfl, ⟨size_reset (b := b.flip) hs.size b.cur, ?_⟩, ?_⟩
    · show Function.update b.off b.cur 0 (!!b.cur) = 0
      rw [Bool.not_not, Function.update_self]
    · refine content_of_off_zero ?_
      show Function.update b.off b.cur 0 (!b.cur) = 0
      rw [Function.update_of_ne (by simp)]
      exact hs.drained
  · have hzero : b.off b.cur = 0 := by
      rw [UInt32.lt_iff_toNat_lt, hmin] at hn
      exact UInt32.toNat_inj.mp (by simpa using hn)
    simp only [flip, hn, if_false]
    refine ⟨(content_of_off_zero hzero).symm, ⟨hs.size, ?_⟩, content_of_off_zero hs.drained⟩
    show b.off (!!b.cur) = 0
    rw [Bool.not_not]
    exact hzero

end Calls

end PingPongBuffer

/-! ## The invariant -/

/-- What the writer has established so far. -/
def WriterInv (b : PingPongBuffer) : Writer → Prop
  | .idle => True
  | .loaded _ _ => True
  | .tested idx p pos => pos.toNat + p.bytes.length ≤ kPingPongSize ∧
      (b.off idx).toNat ≤ pos.toNat
  | .copied idx p pos => pos.toNat + p.bytes.length ≤ kPingPongSize ∧
      (b.bufs idx).load pos.toNat p.bytes.length = p.bytes

/-- What the reader has established so far. -/
def ReaderInv (b : PingPongBuffer) : Reader → Prop
  | .idle => True
  | .flipped old _ => old = !b.cur
  | .counted old n => old = !b.cur ∧ n.toNat ≤ (b.off old).toNat
  | .drained old n out => old = !b.cur ∧ n.toNat ≤ (b.off old).toNat ∧
      out = (b.bufs old).load 0 n.toNat

structure Inv (s : State) : Prop where
  conserved : s.returned.flatten ++ s.buf.buffered = s.accepted.flatten
  size : ∀ f, (s.buf.off f).toNat ≤ kPingPongSize
  writer : WriterInv s.buf s.writer
  reader : ReaderInv s.buf s.reader

theorem inv_init : Inv State.init where
  conserved := rfl
  size := fun _ => Nat.zero_le _
  writer := trivial
  reader := trivial

theorem Inv.law {s : State} (h : Inv s) : Law s where
  inBounds := by
    intro idx p pos hw
    have hwriter := h.writer
    rw [hw] at hwriter
    exact hwriter.1
  conserved := h.conserved

section Frame

variable {b : PingPongBuffer} {idx : Face} {off : UInt32} {p : Payload}

/-- A copy stays behind the bytes that the reader counts on. -/
theorem ReaderInv.copyIn {r : Reader} (h : ReaderInv b r)
    (hoff : (b.off idx).toNat ≤ off.toNat) (p : Payload) :
    ReaderInv (b.copyIn idx off p) r := by
  cases r with
  | idle => trivial
  | flipped old cap => exact h
  | counted old n => exact h
  | drained old n out =>
    obtain ⟨hold, hn, hout⟩ := h
    refine ⟨hold, hn, ?_⟩
    show out = (Function.update b.bufs idx _ old).load 0 n.toNat
    by_cases hi : old = idx
    · subst hi
      rw [Function.update_self, Mem.load_store_disjoint (Or.inl (by omega))]
      exact hout
    · rw [Function.update_of_ne hi]
      exact hout

theorem ReaderInv.advance {r : Reader} (h : ReaderInv b r)
    (hfit : (b.off idx).toNat + p.bytes.length ≤ kPingPongSize) :
    ReaderInv (b.advance idx (b.off idx) p) r := by
  cases r with
  | idle => trivial
  | flipped old cap => exact h
  | counted old n => exact ⟨h.1, h.2.trans (PingPongBuffer.off_le_advance hfit old)⟩
  | drained old n out =>
    exact ⟨h.1, h.2.1.trans (PingPongBuffer.off_le_advance hfit old), h.2.2⟩

/-- Loaded again, `off` is not behind what the test has found. -/
theorem WriterInv.offAgain {pos : UInt32} (h : WriterInv b (.tested idx p pos)) (again : Bool) :
    (b.offAgain idx pos again).toNat + p.bytes.length ≤ kPingPongSize ∧
      (b.off idx).toNat ≤ (b.offAgain idx pos again).toNat := by
  obtain ⟨hfit, hoff⟩ := h
  cases again with
  | false => exact ⟨hfit, hoff⟩
  | true => exact ⟨(Nat.add_le_add_right hoff _).trans hfit, le_rfl⟩

/-- A reset leaves the writer more room than it has tested. -/
theorem WriterInv.reset {w : Writer} (h : WriterInv b w) (old : Face) :
    WriterInv (b.reset old) w := by
  cases w with
  | idle => trivial
  | loaded idx p => trivial
  | copied idx p pos => exact h
  | tested idx p pos =>
    refine ⟨h.1, ?_⟩
    show (Function.update b.off old 0 idx).toNat ≤ pos.toNat
    by_cases hi : idx = old
    · rw [hi, Function.update_self]
      exact Nat.zero_le _
    · rw [Function.update_of_ne hi]
      exact h.2

theorem WriterInv.flip {w : Writer} (h : WriterInv b w) : WriterInv b.flip w := by
  cases w <;> exact h

end Frame

/-! ## The steps keep the invariant -/

section Steps

variable {s t : State} (hinv : Inv s)

include hinv

theorem load_inv {p : Payload} (h : step s (.load p) = some t) : Inv t := by
  simp only [step] at h
  split at h
  · cases h
    exact ⟨hinv.conserved, hinv.size, trivial, hinv.reader⟩
  · cases h

theorem test_inv (h : step s .test = some t) (hc : undisturbed s .test = true) : Inv t := by
  simp only [step] at h
  split at h
  · rename_i idx p hw
    split at h
    · cases h
      exact ⟨hinv.conserved, hinv.size, trivial, hinv.reader⟩
    · rename_i htest
      cases h
      simp only [undisturbed] at hc
      rw [hw] at hc
      have hfit := PingPongBuffer.fits_of_not_refuses (of_decide_eq_true hc)
        (Bool.not_eq_true _ ▸ htest)
      exact ⟨hinv.conserved, hinv.size, ⟨hfit, le_rfl⟩, hinv.reader⟩
  · cases h

theorem copy_inv {again : Bool} (h : step s (.copy again) = some t) : Inv t := by
  simp only [step] at h
  split at h
  · rename_i idx p tested hw
    cases h
    have hwriter := hinv.writer
    rw [hw] at hwriter
    obtain ⟨hfit, hoff⟩ := hwriter.offAgain again
    refine ⟨?_, hinv.size, ⟨hfit, ?_⟩, hinv.reader.copyIn hoff p⟩
    · show s.returned.flatten ++ (_ ++ _) = s.accepted.flatten
      rw [PingPongBuffer.content_copyIn hoff, PingPongBuffer.content_copyIn hoff]
      exact hinv.conserved
    · show (Function.update s.buf.bufs idx _ idx).load _ _ = _
      rw [Function.update_self, Mem.load_store_same]
  · cases h

theorem advance_inv {again : Bool} (h : step s (.advance again) = some t)
    (hc : undisturbed s (.advance again) = true) : Inv t := by
  simp only [step] at h
  split at h
  · rename_i idx p pos hw
    cases h
    simp only [undisturbed] at hc
    rw [hw] at hc
    obtain ⟨hpos, horder⟩ := (Bool.and_eq_true _ _).mp hc
    obtain rfl := eq_of_beq hpos
    have hwriter := hinv.writer
    rw [hw] at hwriter
    obtain ⟨hfit, hload⟩ := hwriter
    have hagain : s.buf.offAgain idx (s.buf.off idx) again = s.buf.off idx := ite_self _
    rw [hagain]
    have hface := PingPongBuffer.content_advance hfit hload
    refine ⟨?_, PingPongBuffer.size_advance hinv.size hfit, trivial, hinv.reader.advance hfit⟩
    show s.returned.flatten ++ ((s.buf.advance idx (s.buf.off idx) p).content (!s.buf.cur) ++
      (s.buf.advance idx (s.buf.off idx) p).content s.buf.cur) = (s.accepted ++ [p.bytes]).flatten
    rw [List.flatten_append, List.flatten_singleton, ← hinv.conserved, List.append_assoc,
      PingPongBuffer.buffered]
    by_cases hcur : idx = s.buf.cur
    · -- the face of the write is still the current one
      subst hcur
      rw [hface, PingPongBuffer.content_advance_of_ne (by simp), List.append_assoc]
    · -- the reader has flipped, and nothing is in the current face yet
      have hold : idx = !s.buf.cur := Bool.eq_not_of_ne hcur
      have hempty : s.buf.off s.buf.cur = 0 := by
        rcases (Bool.or_eq_true _ _).mp horder with hi | ho
        · exact absurd (eq_of_beq hi) hcur
        · exact eq_of_beq ho
      rw [PingPongBuffer.content_advance_of_ne (Ne.symm hcur),
        PingPongBuffer.content_of_off_zero hempty, ← hold, hface]
      simp
  · cases h

theorem flip_inv {cap : Cap} (h : step s (.flip cap) = some t)
    (hc : undisturbed s (.flip cap) = true) : Inv t := by
  simp only [step] at h
  split at h
  · cases h
    refine ⟨?_, hinv.size, hinv.writer.flip, (Bool.not_not _).symm⟩
    have hlaw := hinv.conserved
    unfold PingPongBuffer.buffered at hlaw
    show s.returned.flatten ++ (s.buf.content (!!s.buf.cur) ++ s.buf.content (!s.buf.cur)) = _
    rw [Bool.not_not, ← hlaw]
    -- one of the faces is empty, so their order does not matter
    rcases (Bool.or_eq_true _ _).mp hc with ho | ho
    · rw [PingPongBuffer.content_of_off_zero (eq_of_beq ho), List.append_nil, List.nil_append]
    · rw [PingPongBuffer.content_of_off_zero (eq_of_beq ho), List.append_nil, List.nil_append]
  · cases h

theorem readOff_inv (h : step s .readOff = some t) : Inv t := by
  simp only [step] at h
  split at h
  · rename_i old cap hr
    have hreader := hinv.reader
    rw [hr] at hreader
    split at h
    · cases h
      refine ⟨hinv.conserved, hinv.size, hinv.writer, hreader, ?_⟩
      show (min (s.buf.off old) cap.cap).toNat ≤ (s.buf.off old).toNat
      rw [PingPongBuffer.toNat_min]
      exact min_le_left _ _
    · cases h
      refine ⟨?_, hinv.size, hinv.writer, trivial⟩
      show (s.returned ++ [[]]).flatten ++ s.buf.buffered = s.accepted.flatten
      rw [List.flatten_append, List.flatten_singleton, List.append_nil]
      exact hinv.conserved
  · cases h

theorem copyOut_inv (h : step s .copyOut = some t) : Inv t := by
  simp only [step] at h
  split at h
  · rename_i old n hr
    have hreader := hinv.reader
    rw [hr] at hreader
    cases h
    exact ⟨hinv.conserved, hinv.size, hinv.writer, hreader.1, hreader.2, rfl⟩
  · cases h

theorem reset_inv (h : step s .reset = some t) (hc : undisturbed s .reset = true) : Inv t := by
  simp only [step] at h
  split at h
  · rename_i old n out hr
    cases h
    simp only [undisturbed] at hc
    rw [hr] at hc
    obtain rfl := eq_of_beq hc
    have hreader := hinv.reader
    rw [hr] at hreader
    obtain ⟨rfl, -, rfl⟩ := hreader
    refine ⟨?_, PingPongBuffer.size_reset hinv.size _, hinv.writer.reset _, trivial⟩
    show (s.returned ++ [s.buf.content (!s.buf.cur)]).flatten ++
      ((s.buf.reset (!s.buf.cur)).content (!s.buf.cur) ++
        (s.buf.reset (!s.buf.cur)).content s.buf.cur) = s.accepted.flatten
    rw [PingPongBuffer.content_reset, PingPongBuffer.content_reset_of_ne (by simp),
      List.flatten_append, List.flatten_singleton, List.nil_append, List.append_assoc]
    exact hinv.conserved
  · cases h

end Steps

theorem step_inv {s t : State} {a : Act} (hinv : Inv s) (h : step s a = some t)
    (hc : undisturbed s a = true) : Inv t := by
  cases a with
  | load p => exact load_inv hinv h
  | test => exact test_inv hinv h hc
  | copy again => exact copy_inv hinv h
  | advance again => exact advance_inv hinv h hc
  | flip cap => exact flip_inv hinv h hc
  | readOff => exact readOff_inv hinv h
  | copyOut => exact copyOut_inv hinv h
  | reset => exact reset_inv hinv h hc

/--
**Ping-pong law.** In every run whose steps are not disturbed by the other thread, the bytes returned
followed by the bytes buffered are at all times the bytes accepted.
-/
theorem pingpong_law (as : List Act)
    (hc : AllSteps step (fun s a => undisturbed s a = true) State.init as) :
    AllStates step Law State.init as :=
  allStates_of_allSteps Inv (fun _ h => h.law) (fun _ _ _ hinv h hc => step_inv hinv h hc) as
    State.init inv_init hc

/-- A write, a flip inside the second one, the third one while the reader drains, a refused one, and a
fourth one over the next flip. -/
def overlapped : List Act :=
  [.load ⟨[97, 98, 99], by decide⟩, .test, .copy false, .advance false,
    .load ⟨[100, 101], by decide⟩, .test, .flip ⟨32768, by decide⟩, .copy false, .advance true,
    .readOff, .load ⟨[102, 103], by decide⟩, .copyOut, .test, .copy true, .reset, .advance false,
    .load ⟨[], by decide⟩, .test, .flip ⟨40000, by decide⟩, .load ⟨[104], by decide⟩, .readOff,
    .test, .copyOut, .copy false, .reset, .advance true]

/-- Flips between load and copy of a write do no harm when the drain comes after the write. -/
theorem pingpong_law_overlapped :
    AllStates step Law State.init overlapped ∧
      (exec step State.init overlapped).map (fun s => (s.returned, s.buf.buffered)) =
        some ([[97, 98, 99, 100, 101], [102, 103]], [104]) :=
  ⟨pingpong_law overlapped (by decide), by decide⟩

theorem not_allStates_of_values {as : List Act} {accepted returned : List Bytes} {buffered : Bytes}
    (hrun : (exec step State.init as).map (fun s => (s.accepted, s.returned, s.buf.buffered)) =
      some (accepted, returned, buffered))
    (hne : returned.flatten ++ buffered ≠ accepted.flatten) :
    ¬ AllStates step Law State.init as := by
  intro h
  obtain ⟨s, hs, hvals⟩ := Option.map_eq_some_iff.mp hrun
  have hlaw := (h.last hs).conserved
  cases hvals
  exact hne hlaw

/-- The second write is copied before the reader drains and resets its face, and advanced after. -/
def staleRun (again : Bool) : List Act :=
  [.load ⟨[120], by decide⟩, .test, .copy again, .advance again, .load ⟨[121], by decide⟩, .test,
    .copy again, .flip ⟨32768, by decide⟩, .readOff, .copyOut, .reset, .advance again]

/-- `x` is returned and still buffered, also where the write keeps the offset of its test. -/
theorem pingpong_fails_stale :
    (exec step State.init (staleRun true)).map (fun s => (s.accepted, s.returned, s.buf.buffered))
        = some ([[120], [121]], [[120]], [120]) ∧
      ¬ AllStates step Law State.init (staleRun true) ∧
      ¬ AllStates step Law State.init (staleRun false) := by
  have hagain : (exec step State.init (staleRun true)).map
      (fun s => (s.accepted, s.returned, s.buf.buffered))
        = some ([[120], [121]], [[120]], [120]) := by decide
  have hkept : (exec step State.init (staleRun false)).map
      (fun s => (s.accepted, s.returned, s.buf.buffered))
        = some ([[120], [121]], [[120]], [120, 121]) := by decide
  exact ⟨hagain, not_allStates_of_values hagain (by decide),
    not_allStates_of_values hkept (by decide)⟩

end Dts.Agent
