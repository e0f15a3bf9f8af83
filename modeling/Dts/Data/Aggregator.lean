import Dts.Data.Model

/-!
# Report aggregation

`report_aggregator.cpp`. The aggregator collects slices in a buffer of `kCap` bytes, each behind a
sub-header, and `flush` puts the report header in front and hands the frame to the sink.

`Collected a recs` says that the buffer holds exactly the records `recs`. `add` extends it by one
record or counts a drop, `flush` publishes the header followed by the encoded records.
-/

namespace Dts.Data

open Infra

/-- Bytes of one report at most. -/
def kCap : Nat := 48 * 1024

/-- `sink` is `m_sink != nullptr`; what is published is returned by `flush`. -/
structure ReportAggregator where
  sink : Bool
  taskId : UInt32
  used : UInt32
  drops : UInt64
  buf : Mem

namespace ReportAggregator

def setSink (a : ReportAggregator) (sink : Bool) : ReportAggregator := { a with sink := sink }

/-- `Begin`: a new frame, with room for the header. -/
def beginFrame (a : ReportAggregator) (taskId : UInt32) : ReportAggregator :=
  { a with taskId := taskId, used := UInt32.ofNat sizeofReportHeader }

/-- Append one slice of `len` bytes at `cache`, or count a drop. -/
def add (a : ReportAggregator) (mem : Mem) (dataId : UInt16) (cache : Option Nat) (len : UInt32) :
    ReportAggregator :=
  -- the sum is a size_t: it does not wrap
  if kCap < a.used.toNat + sizeofSubHeader + len.toNat then { a with drops := a.drops + 1 }
  else
    let sh : SubHeader := ⟨dataId, len.toUInt16⟩
    let buf := a.buf.store a.used.toNat sh.bytes
    let used := a.used + UInt32.ofNat sizeofSubHeader
    match cache with
    | none => { a with buf := buf, used := used }
    | some p =>
      if 0 < len then
        { a with buf := buf.store used.toNat (mem.load p len.toNat), used := used + len }
      else { a with buf := buf, used := used }

/-- Fill in the header and publish. An empty frame is not published. -/
def flush (a : ReportAggregator) (timestampMs : UInt64) (seq : UInt32) :
    Option Bytes × ReportAggregator :=
  if !a.sink || a.used.toNat ≤ sizeofReportHeader then (none, a)
  else
    let hdr : ReportHeader :=
      ⟨a.taskId, timestampMs, seq, a.used - UInt32.ofNat sizeofReportHeader⟩
    let buf := hdr.write a.buf
    (some (Mem.load buf 0 a.used.toNat), { a with buf := buf, used := 0 })

end ReportAggregator

/-! ## Records -/

/-- A slice of a report. -/
structure Record where
  dataId : UInt16
  data : Bytes
  deriving DecidableEq

def Record.bytes (r : Record) : Bytes :=
  (SubHeader.mk r.dataId (UInt16.ofNat r.data.length)).bytes ++ r.data

/-- The body of a report. -/
def encode (recs : List Record) : Bytes := recs.flatMap Record.bytes

@[simp] theorem encode_nil : encode [] = [] := rfl

@[simp] theorem encode_cons (r : Record) (recs : List Record) :
    encode (r :: recs) = r.bytes ++ encode recs := rfl

theorem encode_append (recs recs' : List Record) : encode (recs ++ recs') = encode recs ++ encode recs' :=
  List.flatMap_append

@[simp] theorem Record.length_bytes (r : Record) :
    r.bytes.length = sizeofSubHeader + r.data.length := by simp [Record.bytes]

theorem length_data_le {r : Record} {recs : List Record} (h : r ∈ recs) :
    r.data.length ≤ (encode recs).length := by
  obtain ⟨pre, post, rfl⟩ := List.append_of_mem h
  rw [encode_append, encode_cons, List.length_append, List.length_append, Record.length_bytes]
  omega

theorem encode_length_pos {recs : List Record} (h : recs ≠ []) : 0 < (encode recs).length := by
  cases recs with
  | nil => exact absurd rfl h
  | cons r recs =>
    rw [encode_cons, List.length_append, Record.length_bytes, sizeofSubHeader]
    omega

/-! ## What the buffer holds -/

/-- The buffer holds the records `recs` behind the room for the header. -/
structure Collected (a : ReportAggregator) (recs : List Record) : Prop where
  used : a.used.toNat = sizeofReportHeader + (encode recs).length
  cap : a.used.toNat ≤ kCap
  body : a.buf.load sizeofReportHeader (encode recs).length = encode recs

theorem Collected.beginFrame (a : ReportAggregator) (taskId : UInt32) :
    Collected (a.beginFrame taskId) [] := ⟨rfl, (by decide : sizeofReportHeader ≤ kCap), rfl⟩

/-- A slice that does not fit changes only the drop counter. -/
theorem add_of_full {a : ReportAggregator} {len : UInt32}
    (h : kCap < a.used.toNat + sizeofSubHeader + len.toNat) (mem : Mem) (dataId : UInt16)
    (cache : Option Nat) : a.add mem dataId cache len = { a with drops := a.drops + 1 } := by
  rw [ReportAggregator.add, if_pos h]

/-- A slice that fits is copied behind its sub-header. -/
theorem add_of_fits {a : ReportAggregator} {len : UInt32}
    (h : a.used.toNat + sizeofSubHeader + len.toNat ≤ kCap) (mem : Mem) (dataId : UInt16)
    (p : Nat) : a.add mem dataId (some p) len = { a with
      buf := (a.buf.store a.used.toNat (SubHeader.mk dataId len.toUInt16).bytes).store
        (a.used.toNat + sizeofSubHeader) (mem.load p len.toNat)
      used := UInt32.ofNat (a.used.toNat + sizeofSubHeader + len.toNat) } := by
  have hsub : (a.used + UInt32.ofNat sizeofSubHeader).toNat = a.used.toNat + sizeofSubHeader := by
    unfold sizeofSubHeader kCap at *
    rw [UInt32.toNat_add, UInt32.toNat_ofNat']
    omega
  have hall : a.used + UInt32.ofNat sizeofSubHeader + len
      = UInt32.ofNat (a.used.toNat + sizeofSubHeader + len.toNat) := by
    rw [← UInt32.toNat_inj, UInt32.toNat_add, hsub, UInt32.toNat_ofNat']
  rw [ReportAggregator.add, if_neg (by omega)]
  by_cases hpos : 0 < len
  · simp only [if_pos hpos, hsub, hall]
  · have hlen : len = 0 := by
      rw [UInt32.lt_iff_toNat_lt] at hpos
      exact UInt32.toNat_inj.mp (by simpa using hpos)
    subst hlen
    simp only [if_neg hpos, ← hsub, UInt32.toNat_zero, Nat.add_zero, Mem.load_zero, Mem.store_nil,
      UInt32.ofNat_toNat]

/-- **`add` appends the slice as a record.** -/
theorem Collected.add {a : ReportAggregator} {recs : List Record} (h : Collected a recs)
    {len : UInt32} (hfit : a.used.toNat + sizeofSubHeader + len.toNat ≤ kCap) (mem : Mem)
    (dataId : UInt16) (p : Nat) :
    Collected (a.add mem dataId (some p) len) (recs ++ [⟨dataId, mem.load p len.toNat⟩]) := by
  have hlen : len.toUInt16 = UInt16.ofNat (mem.load p len.toNat).length := by
    rw [Mem.length_load, ← UInt16.toNat_inj, UInt32.toNat_toUInt16, UInt16.toNat_ofNat']
  have henc : encode (recs ++ [⟨dataId, mem.load p len.toNat⟩])
      = encode recs ++ ((SubHeader.mk dataId len.toUInt16).bytes ++ mem.load p len.toNat) := by
    rw [encode_append, encode_cons, encode_nil, List.append_nil, Record.bytes, ← hlen]
  have hcount : (encode (recs ++ [⟨dataId, mem.load p len.toNat⟩])).length
      = (encode recs).length + (sizeofSubHeader + len.toNat) := by
    rw [henc]
    simp
  have hused := h.used
  have hnew : (UInt32.ofNat (a.used.toNat + sizeofSubHeader + len.toNat)).toNat
      = a.used.toNat + sizeofSubHeader + len.toNat := by
    rw [UInt32.toNat_ofNat']
    unfold kCap at hfit
    omega
  rw [add_of_fits hfit]
  refine ⟨?_, ?_, ?_⟩
  · rw [hcount, hnew]
    omega
  · rw [hnew]
    exact hfit
  · rw [hcount, henc, Mem.load_add, Mem.load_add, ← hused]
    rw [Mem.load_store_disjoint (by omega), Mem.load_store_disjoint (by omega), h.body]
    rw [Mem.load_store_disjoint (by omega), Mem.load_store_eq (SubHeader.length_bytes _)]
    rw [Mem.load_store_eq (Mem.length_load _ _ _)]

/-! ## A run of `add` -/

/-- The arguments of one `add`, with a cache slot present. -/
structure AddCall where
  dataId : UInt16
  cache : Nat
  len : UInt32

def AddCall.record (mem : Mem) (c : AddCall) : Record := ⟨c.dataId, mem.load c.cache c.len.toNat⟩

def ReportAggregator.addCall (mem : Mem) (a : ReportAggregator) (c : AddCall) : ReportAggregator :=
  a.add mem c.dataId (some c.cache) c.len

/-- The records of the calls that fit, when `used` bytes are taken before them. -/
def accepted (mem : Mem) : Nat → List AddCall → List Record
  | _, [] => []
  | used, c :: cs =>
    if used + sizeofSubHeader + c.len.toNat ≤ kCap then
      c.record mem :: accepted mem (used + sizeofSubHeader + c.len.toNat) cs
    else accepted mem used cs

theorem Collected.foldl_add (mem : Mem) : ∀ (calls : List AddCall) {a : ReportAggregator}
    {recs : List Record}, Collected a recs →
    Collected (calls.foldl (ReportAggregator.addCall mem) a)
      (recs ++ accepted mem a.used.toNat calls)
  | [], a, recs, h => by
    rw [accepted, List.append_nil]
    exact h
  | c :: cs, a, recs, h => by
    rw [List.foldl_cons, accepted]
    by_cases hfit : a.used.toNat + sizeofSubHeader + c.len.toNat ≤ kCap
    · have hadd := h.add hfit mem c.dataId c.cache
      have hused : (a.addCall mem c).used.toNat = a.used.toNat + sizeofSubHeader + c.len.toNat := by
        have h1 := hadd.used
        have h0 := h.used
        rw [encode_append, encode_cons, encode_nil, List.append_nil, List.length_append,
          Record.length_bytes, Mem.length_load] at h1
        exact h1.trans (by omega)
      have happ : recs ++ c.record mem :: accepted mem (a.addCall mem c).used.toNat cs
          = (recs ++ [c.record mem]) ++ accepted mem (a.addCall mem c).used.toNat cs := by simp
      rw [if_pos hfit, ← hused, happ]
      exact foldl_add mem cs hadd
    · have hdrop : a.addCall mem c = { a with drops := a.drops + 1 } :=
        add_of_full (by omega) mem c.dataId _
      rw [if_neg hfit, hdrop]
      exact foldl_add mem cs ⟨h.used, h.cap, h.body⟩

theorem foldl_addCall_sink (mem : Mem) : ∀ (calls : List AddCall) (a : ReportAggregator),
    (calls.foldl (ReportAggregator.addCall mem) a).sink = a.sink
      ∧ (calls.foldl (ReportAggregator.addCall mem) a).taskId = a.taskId
  | [], a => ⟨rfl, rfl⟩
  | c :: cs, a => by
    have hone : (a.addCall mem c).sink = a.sink ∧ (a.addCall mem c).taskId = a.taskId := by
      simp only [ReportAggregator.addCall, ReportAggregator.add]
      split
      · exact ⟨rfl, rfl⟩
      · split <;> exact ⟨rfl, rfl⟩
    rw [List.foldl_cons]
    exact ⟨(foldl_addCall_sink mem cs _).1.trans hone.1, (foldl_addCall_sink mem cs _).2.trans hone.2⟩

/-! ## Flush -/

/-- **A non-empty frame is published as its header followed by the records.** -/
theorem Collected.flush {a : ReportAggregator} {recs : List Record} (h : Collected a recs)
    (hsink : a.sink = true) (hrecs : recs ≠ []) (timestampMs : UInt64) (seq : UInt32) :
    ∃ buf, a.flush timestampMs seq =
        (some (ReportHeader.bytes ⟨a.taskId, timestampMs, seq, UInt32.ofNat (encode recs).length⟩
          (a.buf.load 4 4) ++ encode recs), { a with buf := buf, used := 0 })
      ∧ Mem.load buf 4 4 = a.buf.load 4 4 := by
  have hpos := encode_length_pos hrecs
  have hused := h.used
  have hlt := a.used.toNat_lt
  have hsize : (UInt32.ofNat sizeofReportHeader).toNat = sizeofReportHeader := rfl
  have hpay : a.used - UInt32.ofNat sizeofReportHeader = UInt32.ofNat (encode recs).length := by
    rw [← UInt32.toNat_inj, UInt32.toNat_sub_of_le _ _ (by
      rw [UInt32.le_iff_toNat_le, hsize]; omega), hsize, UInt32.toNat_ofNat']
    omega
  let hdr : ReportHeader := ⟨a.taskId, timestampMs, seq, UInt32.ofNat (encode recs).length⟩
  have hframe : Mem.load (hdr.write a.buf) 0 a.used.toNat
      = hdr.bytes (a.buf.load 4 4) ++ encode recs := by
    rw [hused, Mem.load_add, Nat.zero_add, ReportHeader.load_head,
      ReportHeader.load_write (le_refl _), h.body]
  refine ⟨hdr.write a.buf, ?_, ReportHeader.load_padding _ _⟩
  rw [ReportAggregator.flush, hsink, if_neg (by simp; omega), hpay, ← hframe]

/-- An empty frame is not published. -/
theorem Collected.flush_nil {a : ReportAggregator} (h : Collected a []) (timestampMs : UInt64)
    (seq : UInt32) : a.flush timestampMs seq = (none, a) := by
  have hused := h.used
  rw [encode_nil, List.length_nil] at hused
  rw [ReportAggregator.flush, if_pos (by simp [hused])]

end Dts.Data
