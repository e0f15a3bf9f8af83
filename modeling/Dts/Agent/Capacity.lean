import Dts.Agent.PingPong

/-!
# The capacity test of a write

`Write` adds its length to the offset of its face in 32 bits and compares the sum with the size of a
face. A sum of `2 ^ 32` or more wraps to a number below the offset, which always passes: the bytes are
then copied over the end of the face, while the offset goes back.

`capacityLaw_iff` is about all sequences of whole calls: every call keeps the law if and only if no
sum wraps. The offsets stay in their faces in any case.
-/

namespace Dts.Agent

open Infra

/-! ## Calls -/

/--
A flip that nothing interrupts, for `out` of any capacity. With room for a whole face it is the flip
of the interleaved model, `readAndFlip_eq`.
-/
def PingPongBuffer.takeUpTo (b : PingPongBuffer) (cap : UInt32) : Bytes × PingPongBuffer :=
  let old := b.cur
  let b := b.flip
  let n := min (b.off old) cap
  if 0 < n then ((b.bufs old).load 0 n.toNat, b.reset old) else ([], b)

theorem readAndFlip_eq (b : PingPongBuffer) (cap : Cap) :
    b.readAndFlip cap = b.takeUpTo cap.cap := rfl

inductive Call where
  | write (p : Payload)
  | readAndFlip (cap : UInt32)

def callStep (b : PingPongBuffer) : Call → Option PingPongBuffer
  | .write p => some (b.write p).2
  | .readAndFlip cap => some (b.takeUpTo cap).2

/-! ## The law and its condition -/

/-- **The law.** -/
structure CapacityLaw (b : PingPongBuffer) (c : Call) : Prop where
  /-- a write is accepted exactly when it has bytes and they fit into the face -/
  accepts : ∀ p, c = .write p → ((b.write p).1 = true ↔
    0 < p.bytes.length ∧ (b.off b.cur).toNat + p.bytes.length ≤ kPingPongSize)
  /-- no accepted write copies past the end of its face -/
  inside : ∀ p, c = .write p → (b.write p).1 = true →
    (b.off b.cur).toNat + p.bytes.length ≤ kPingPongSize
  /-- both offsets stay inside their faces -/
  offsets : ∀ t, callStep b c = some t → ∀ f, (t.off f).toNat ≤ kPingPongSize

/-- The sum of a write does not wrap. -/
def NoWrap (b : PingPongBuffer) : Call → Prop
  | .write p => (b.off b.cur).toNat + p.bytes.length < 2 ^ 32
  | .readAndFlip _ => True

instance (b : PingPongBuffer) : (c : Call) → Decidable (NoWrap b c)
  | .write _ => inferInstanceAs (Decidable (_ < _))
  | .readAndFlip _ => inferInstanceAs (Decidable True)

/-! ## The offsets -/

/-- Both offsets are inside their faces. -/
def InFaces (b : PingPongBuffer) : Prop := ∀ f, (b.off f).toNat ≤ kPingPongSize

theorem inFaces_init : InFaces PingPongBuffer.init := fun _ => Nat.zero_le _

namespace PingPongBuffer

variable {b : PingPongBuffer} {p : Payload}

/-- What an accepted write adds to the offset is what it has tested, so the offset is a tested sum. -/
theorem inFaces_write (hb : InFaces b) (p : Payload) : InFaces (b.write p).2 := by
  intro f
  unfold write
  by_cases h : b.refuses b.cur p = true
  · simp only [h, if_true]
    exact hb f
  · have htest := h
    simp only [refuses, Bool.or_eq_true, not_or, decide_eq_true_eq, Nat.not_lt] at htest
    simp only [h]
    show (Function.update b.off b.cur (b.off b.cur + p.len) f).toNat ≤ kPingPongSize
    by_cases hf : f = b.cur
    · rw [hf, Function.update_self]
      exact htest.2
    · rw [Function.update_of_ne hf]
      exact hb f

theorem inFaces_takeUpTo (hb : InFaces b) (cap : UInt32) : InFaces (b.takeUpTo cap).2 := by
  unfold takeUpTo
  simp only
  split
  · exact size_reset (b := b.flip) hb _
  · exact hb

/-! ## The test -/

theorem write_fst (b : PingPongBuffer) (p : Payload) : (b.write p).1 = !b.refuses b.cur p := by
  unfold write
  by_cases h : b.refuses b.cur p = true
  · simp [h]
  · simp [h]

/-- Without a wrap the test is the one of the integers. -/
theorem accepts_iff (hwrap : (b.off b.cur).toNat + p.bytes.length < 2 ^ 32) :
    (b.write p).1 = true ↔
      0 < p.bytes.length ∧ (b.off b.cur).toNat + p.bytes.length ≤ kPingPongSize := by
  have hsum : (b.off b.cur + p.len).toNat = (b.off b.cur).toNat + p.bytes.length := by
    rw [UInt32.toNat_add, toNat_len, Nat.mod_eq_of_lt hwrap]
  have hlen : p.len = 0 ↔ p.bytes.length = 0 := by
    rw [← UInt32.toNat_inj, toNat_len]
    rfl
  rw [write_fst, Bool.not_eq_true', refuses, Bool.or_eq_false_iff, beq_eq_false_iff_ne,
    decide_eq_false_iff_not, hsum, Nat.not_lt, ne_eq, hlen, Nat.pos_iff_ne_zero]

/-- A sum that wraps is below the offset, so the write is accepted. -/
theorem accepted_of_wrap (hb : InFaces b)
    (hwrap : 2 ^ 32 ≤ (b.off b.cur).toNat + p.bytes.length) : (b.write p).1 = true := by
  have hoff := hb b.cur
  have hface : kPingPongSize < 2 ^ 32 := by decide
  have hlen := p.sizeT
  have hsum : (b.off b.cur + p.len).toNat = (b.off b.cur).toNat + p.bytes.length - 2 ^ 32 := by
    rw [UInt32.toNat_add, toNat_len]
    omega
  have hne : p.len ≠ 0 := by
    rw [ne_eq, ← UInt32.toNat_inj, toNat_len, UInt32.toNat_zero]
    omega
  rw [write_fst, Bool.not_eq_true', refuses, Bool.or_eq_false_iff, beq_eq_false_iff_ne,
    decide_eq_false_iff_not, hsum]
  exact ⟨hne, by omega⟩

end PingPongBuffer

/-! ## The law -/

theorem InFaces.callStep {b t : PingPongBuffer} (h : InFaces b) {c : Call}
    (hs : Agent.callStep b c = some t) : InFaces t := by
  cases c with
  | write p =>
    cases hs
    exact PingPongBuffer.inFaces_write h p
  | readAndFlip cap =>
    cases hs
    exact PingPongBuffer.inFaces_takeUpTo h cap

/-- The law of one call. -/
theorem capacityLaw_iff_noWrap {b : PingPongBuffer} (h : InFaces b) (c : Call) :
    CapacityLaw b c ↔ NoWrap b c := by
  constructor
  · intro hlaw
    cases c with
    | readAndFlip cap => trivial
    | write p =>
      by_contra hwrap
      have hwrap : 2 ^ 32 ≤ (b.off b.cur).toNat + p.bytes.length := Nat.le_of_not_lt hwrap
      have hfits := hlaw.inside p rfl (PingPongBuffer.accepted_of_wrap h hwrap)
      have hface : kPingPongSize < 2 ^ 32 := by decide
      omega
  · intro hwrap
    refine ⟨?_, ?_, fun t ht => h.callStep ht⟩
    · rintro p rfl
      exact PingPongBuffer.accepts_iff hwrap
    · rintro p rfl haccepted
      exact ((PingPongBuffer.accepts_iff hwrap).mp haccepted).2

/--
**Capacity.** In every sequence of calls from the empty buffer, all calls keep the law if and only if
no write has a sum that wraps.
-/
theorem capacityLaw_iff (cs : List Call) :
    AllSteps callStep CapacityLaw PingPongBuffer.init cs ↔
      AllSteps callStep NoWrap PingPongBuffer.init cs := by
  constructor
  · exact allSteps_of_allSteps InFaces (fun _ _ _ h hs _ => h.callStep hs)
      (fun _ c _ h _ hlaw => (capacityLaw_iff_noWrap h c).mp hlaw) cs _ inFaces_init
  · exact allSteps_of_allSteps InFaces (fun _ _ _ h hs _ => h.callStep hs)
      (fun _ c _ h _ hwrap => (capacityLaw_iff_noWrap h c).mpr hwrap) cs _ inFaces_init

/-- The longest write there is. -/
def longest : Payload where
  bytes := List.replicate (2 ^ 32 - 1) 0
  sizeT := by
    rw [List.length_replicate]
    decide

/-- A buffer with one byte in its current face. -/
def oneByte : PingPongBuffer := (PingPongBuffer.init.write ⟨[88], by decide⟩).2

/-- After one byte the longest write is accepted, and goes over the end of the face. -/
theorem not_capacityLaw_longest :
    (oneByte.write longest).1 = true ∧
      ¬ AllSteps callStep CapacityLaw PingPongBuffer.init
        [.write ⟨[88], by decide⟩, .write longest] := by
  have hsize : InFaces oneByte := PingPongBuffer.inFaces_write inFaces_init _
  have hoff : (oneByte.off oneByte.cur).toNat = 1 := by decide
  have hlen : longest.bytes.length = 2 ^ 32 - 1 := List.length_replicate
  have hwrap : 2 ^ 32 ≤ (oneByte.off oneByte.cur).toNat + longest.bytes.length := by
    rw [hoff, hlen]
    decide
  have hsecond : ∀ p, AllSteps callStep CapacityLaw PingPongBuffer.init
      [.write ⟨[88], by decide⟩, .write p] → NoWrap oneByte (.write p) :=
    fun p h => (capacityLaw_iff_noWrap hsize _).mp ((h _ rfl).2 _ rfl).1
  refine ⟨PingPongBuffer.accepted_of_wrap hsize hwrap, fun h => ?_⟩
  have hfits : (oneByte.off oneByte.cur).toNat + longest.bytes.length < 2 ^ 32 :=
    hsecond longest h
  omega

end Dts.Agent
