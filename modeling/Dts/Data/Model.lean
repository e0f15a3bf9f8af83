import Dts.Infra.Bytes

/-!
# Data model of the data subsystem

`data_config.h` and `data_model.h`: the configured constants and the three structures whose bytes
are read or written. A structure is given by the byte offset of each field, as an LP64
little-endian ABI lays it out (`ReportHeader` has four bytes of padding before `timestampMs`, so
`sizeof` is 24).
-/

namespace Dts.Data

open Infra

/-! ## Configuration -/

/-- Slots of every hash region. -/
def kCellSlotCap : Nat := 384

/-- Milliseconds of a tick. -/
def kTickMs : UInt64 := 100

/-- One second, in ticks. -/
def kPeriod1S : UInt32 := 10

/-- A slot not updated for this many periods has expired. -/
def kTtlPeriods : UInt32 := 3

/-- A frame that takes longer than this is a warning. -/
def kFrameBudgetWarnUs : UInt64 := 3000

/-- And longer than this, an alarm. -/
def kFrameBudgetAlarmUs : UInt64 := 5000

/-- The key of a measured cell: `cellId` in the high half. -/
def cellHashKey (cellId cpId : UInt32) : UInt64 := (cellId.toUInt64 <<< 32) ||| cpId.toUInt64

/-- And of a terminal. -/
def ueHashKey (cellId ueId : UInt32) : UInt64 := (cellId.toUInt64 <<< 32) ||| ueId.toUInt64

/-! ## Structures -/

/-- What a raw frame is about. -/
inductive DataType where
  | CELL
  | UE
  deriving DecidableEq

/-- The value of the enumerator. -/
def DataType.code : DataType → UInt16
  | .CELL => 0
  | .UE => 1

/-- `sizeof(CacheHead)`: `type` at 0, the object ids at 4, `lastTick` at 12, `periodTicks` at 16. -/
def sizeofCacheHead : UInt32 := 20

/-- `CacheHead` field offsets. The object ids are never accessed. -/
def CacheHead.typeOff : Nat := 0
def CacheHead.lastTickOff : Nat := 12
def CacheHead.periodTicksOff : Nat := 16

/-- Header of one record of a report. -/
structure SubHeader where
  dataId : UInt16
  len : UInt16
  deriving DecidableEq

/-- `dataId` at 0, `len` at 2. -/
def sizeofSubHeader : Nat := 4

/-- The bytes of a `SubHeader`, as the assignments through a pointer leave them. -/
def SubHeader.bytes (sh : SubHeader) : Bytes := leBytes 2 sh.dataId.toNat ++ leBytes 2 sh.len.toNat

/-- `memcpy` of a `SubHeader` out of a byte string. -/
def SubHeader.read (bs : Bytes) (off : Nat) : SubHeader where
  dataId := UInt16.ofNat (leNat (slice bs off 2))
  len := UInt16.ofNat (leNat (slice bs (off + 2) 2))

/-- Header of a report. -/
structure ReportHeader where
  taskId : UInt32
  timestampMs : UInt64
  seq : UInt32
  payloadLen : UInt32
  deriving DecidableEq

/-- `taskId` at 0, `timestampMs` at 8, `seq` at 16, `payloadLen` at 20. -/
def sizeofReportHeader : Nat := 24

/-- The four field assignments through a `ReportHeader*` at the start of a buffer. -/
def ReportHeader.write (m : Mem) (h : ReportHeader) : Mem :=
  (((m.store 0 (leBytes 4 h.taskId.toNat)).store 8 (leBytes 8 h.timestampMs.toNat)).store 16
    (leBytes 4 h.seq.toNat)).store 20 (leBytes 4 h.payloadLen.toNat)

/-- `memcpy` of a `ReportHeader` from the start of a byte string. -/
def ReportHeader.read (bs : Bytes) : ReportHeader where
  taskId := UInt32.ofNat (leNat (slice bs 0 4))
  timestampMs := UInt64.ofNat (leNat (slice bs 8 8))
  seq := UInt32.ofNat (leNat (slice bs 16 4))
  payloadLen := UInt32.ofNat (leNat (slice bs 20 4))

/-! ## Reading back what was written -/

theorem ofNat_leNat_u16 (x : UInt16) : UInt16.ofNat (leNat (leBytes 2 x.toNat)) = x := by
  rw [leNat_leBytes, Nat.mod_eq_of_lt (show x.toNat < 256 ^ 2 from x.toNat_lt), UInt16.ofNat_toNat]

theorem ofNat_leNat_u32 (x : UInt32) : UInt32.ofNat (leNat (leBytes 4 x.toNat)) = x := by
  rw [leNat_leBytes, Nat.mod_eq_of_lt (show x.toNat < 256 ^ 4 from x.toNat_lt), UInt32.ofNat_toNat]

theorem ofNat_leNat_u64 (x : UInt64) : UInt64.ofNat (leNat (leBytes 8 x.toNat)) = x := by
  rw [leNat_leBytes, Nat.mod_eq_of_lt (show x.toNat < 256 ^ 8 from x.toNat_lt), UInt64.ofNat_toNat]

@[simp] theorem SubHeader.length_bytes (sh : SubHeader) : sh.bytes.length = sizeofSubHeader := by
  simp [SubHeader.bytes, sizeofSubHeader]

/-- **A sub-header is read back from wherever it lies.** -/
theorem SubHeader.read_bytes (sh : SubHeader) (pre post : Bytes) :
    SubHeader.read (pre ++ (sh.bytes ++ post)) pre.length = sh := by
  have h1 : slice (pre ++ (sh.bytes ++ post)) pre.length 2 = leBytes 2 sh.dataId.toNat := by
    rw [slice_append_right (le_refl _), Nat.sub_self, SubHeader.bytes, List.append_assoc]
    exact slice_zero_append _ _
  have h2 : slice (pre ++ (sh.bytes ++ post)) (pre.length + 2) 2 = leBytes 2 sh.len.toNat := by
    rw [slice_append_right (by omega), SubHeader.bytes, List.append_assoc,
      slice_append_right (by simp)]
    simpa using slice_zero_append (leBytes 2 sh.len.toNat) post
  rw [SubHeader.read, h1, h2, ofNat_leNat_u16, ofNat_leNat_u16]

/-- The header fields do not reach past `sizeof`. -/
theorem ReportHeader.load_write {m : Mem} {h : ReportHeader} {a n : Nat}
    (ha : sizeofReportHeader ≤ a) : (ReportHeader.write m h).load a n = m.load a n := by
  unfold sizeofReportHeader at ha
  simp only [ReportHeader.write]
  rw [Mem.load_store_disjoint (by simp; omega), Mem.load_store_disjoint (by simp; omega),
    Mem.load_store_disjoint (by simp; omega), Mem.load_store_disjoint (by simp; omega)]

/-- The bytes of a header, with the four bytes of padding that lie after `taskId`. -/
def ReportHeader.bytes (h : ReportHeader) (padding : Bytes) : Bytes :=
  leBytes 4 h.taskId.toNat ++ (padding ++ (leBytes 8 h.timestampMs.toNat ++
    (leBytes 4 h.seq.toNat ++ leBytes 4 h.payloadLen.toNat)))

theorem ReportHeader.length_bytes (h : ReportHeader) {padding : Bytes} (hp : padding.length = 4) :
    (h.bytes padding).length = sizeofReportHeader := by
  simp [ReportHeader.bytes, hp, sizeofReportHeader]

/-- The assignments leave the padding as it is. -/
theorem ReportHeader.load_padding (m : Mem) (h : ReportHeader) :
    (ReportHeader.write m h).load 4 4 = m.load 4 4 := by
  simp only [ReportHeader.write]
  rw [Mem.load_store_disjoint (by simp), Mem.load_store_disjoint (by simp),
    Mem.load_store_disjoint (by simp), Mem.load_store_disjoint (by simp)]

/-- The first `sizeof` bytes of the buffer after the assignments. -/
theorem ReportHeader.load_head (m : Mem) (h : ReportHeader) :
    (ReportHeader.write m h).load 0 sizeofReportHeader = h.bytes (m.load 4 4) := by
  have h0 : (ReportHeader.write m h).load 0 4 = leBytes 4 h.taskId.toNat := by
    simp only [ReportHeader.write]
    rw [Mem.load_store_disjoint (by simp), Mem.load_store_disjoint (by simp),
      Mem.load_store_disjoint (by simp), Mem.load_store_eq (by simp)]
  have h8 : (ReportHeader.write m h).load 8 8 = leBytes 8 h.timestampMs.toNat := by
    simp only [ReportHeader.write]
    rw [Mem.load_store_disjoint (by simp), Mem.load_store_disjoint (by simp),
      Mem.load_store_eq (by simp)]
  have h16 : (ReportHeader.write m h).load 16 4 = leBytes 4 h.seq.toNat := by
    simp only [ReportHeader.write]
    rw [Mem.load_store_disjoint (by simp), Mem.load_store_eq (by simp)]
  have h20 : (ReportHeader.write m h).load 20 4 = leBytes 4 h.payloadLen.toNat := by
    simp only [ReportHeader.write]
    rw [Mem.load_store_eq (by simp)]
  rw [show sizeofReportHeader = 4 + (4 + (8 + (4 + 4))) from rfl, Mem.load_add, Mem.load_add,
    Mem.load_add, Mem.load_add]
  rw [h0, Nat.zero_add, ReportHeader.load_padding, h8, h16, h20, ReportHeader.bytes]

/-- **A header is read back from its bytes.** -/
theorem ReportHeader.read_bytes (h : ReportHeader) {padding : Bytes} (hp : padding.length = 4)
    (rest : Bytes) : ReportHeader.read (h.bytes padding ++ rest) = h := by
  have h0 : slice (h.bytes padding ++ rest) 0 4 = leBytes 4 h.taskId.toNat := by
    rw [ReportHeader.bytes, List.append_assoc]
    exact slice_zero_append (leBytes 4 h.taskId.toNat) _
  have h8 : slice (h.bytes padding ++ rest) 8 8 = leBytes 8 h.timestampMs.toNat := by
    simp only [ReportHeader.bytes, List.append_assoc]
    rw [slice_append_right (by simp), slice_append_right (by simp [hp])]
    simpa [hp] using slice_zero_append (leBytes 8 h.timestampMs.toNat) _
  have h16 : slice (h.bytes padding ++ rest) 16 4 = leBytes 4 h.seq.toNat := by
    simp only [ReportHeader.bytes, List.append_assoc]
    rw [slice_append_right (by simp), slice_append_right (by simp [hp]),
      slice_append_right (by simp [hp])]
    simpa [hp] using slice_zero_append (leBytes 4 h.seq.toNat) _
  have h20 : slice (h.bytes padding ++ rest) 20 4 = leBytes 4 h.payloadLen.toNat := by
    simp only [ReportHeader.bytes, List.append_assoc]
    rw [slice_append_right (by simp), slice_append_right (by simp [hp]),
      slice_append_right (by simp [hp]), slice_append_right (by simp [hp])]
    simpa [hp] using slice_zero_append (leBytes 4 h.payloadLen.toNat) rest
  simp only [ReportHeader.read, h0, h8, h16, h20, ofNat_leNat_u32, ofNat_leNat_u64]

end Dts.Data
