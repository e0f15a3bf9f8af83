import Dts.Data.Aggregator
import Dts.Data.Extractor

/-!
# Data factory

`data_factory_v2.cpp`. The data thread hands every raw frame to `process`, which cuts it into
slices and publishes them as one report, and calls `onTick` every 100 ms. `process` returns what
reaches the sink next to the new state.

The time a frame takes (`us`) comes from the environment. Log output is left out.
-/

namespace Dts.Data

open Infra

/-- Measurement modes: take frames without cutting them, cut without publishing, or everything. -/
inductive Bypass where
  | FULL
  | RECV
  | PROCESS
  deriving DecidableEq

structure DataStats where
  frames : UInt64 := 0
  frameMaxUs : UInt64 := 0
  frameBudgetWarn : UInt64 := 0
  frameBudgetAlarm : UInt64 := 0
  dropPoolFull : UInt64 := 0
  dropSliceOverCap : UInt64 := 0
  keyFail : UInt64 := 0
  ticks : UInt32 := 0
  deriving DecidableEq

/-- The factory with the memory manager and the registry it uses. -/
structure DataFactory where
  tick : UInt32
  currentTask : UInt32
  seq : UInt32
  procCount : UInt64
  sink : Bool
  agg : ReportAggregator
  stats : DataStats
  budgetWarnUs : UInt64
  budgetAlarmUs : UInt64
  forEachTotal : UInt64
  flushTotal : UInt64
  skipSink : UInt64
  skipTask : UInt64
  bypass : Bypass
  mem : DataMemManager
  reg : ExtractorRegistry

/-- The key of the measurement object of a frame; 0 when the frame has no complete head. -/
def extractRawKey (dataType : UInt16) (raw : RawFrame) : UInt64 :=
  match raw.data with
  | none => 0
  | some bs =>
    if raw.len.toNat < 2 + 4 * 2 then 0
    else
      let cellId := UInt32.ofNat (leNat (slice bs 2 4))
      let second := UInt32.ofNat (leNat (slice bs (2 + 4) 4))
      if dataType == DataType.CELL.code then cellHashKey cellId second
      else ueHashKey cellId second

/-! ## Cutting a frame -/

/-- What the visit of the extractors changes. -/
structure Cut where
  mem : DataMemManager
  agg : ReportAggregator
  forEachTotal : UInt64

/-- The visit of one extractor. -/
def cutSlice (block : Nat) (raw : RawFrame) (c : Cut) (spec : ExtractorSpec) : Cut :=
  match spec.proc with
  | none => c
  | some proc =>
    let cache := if spec.needCache then c.mem.slotOf block spec.dataId
      else c.mem.fixedSlot spec.dataId
    match cache with
    | none => c
    | some cache =>
      let (n, mem) := proc.extra raw c.mem.mem cache
      if n < 0 then { c with mem := { c.mem with mem := mem } }
      else
        let mem := proc.hton mem cache spec.cacheSize
        { mem := { c.mem with mem := mem }
          agg := c.agg.add mem spec.dataId (some cache) spec.cacheSize
          forEachTotal := c.forEachTotal + 1 }

/-- Budget accounting of a processed frame. -/
def DataStats.account (s : DataStats) (warnUs alarmUs us : UInt64) : DataStats :=
  let s := { s with
    frames := s.frames + 1
    frameMaxUs := if s.frameMaxUs < us then us else s.frameMaxUs }
  if alarmUs ≤ us then { s with frameBudgetAlarm := s.frameBudgetAlarm + 1 }
  else if warnUs ≤ us then { s with frameBudgetWarn := s.frameBudgetWarn + 1 }
  else s

namespace DataFactory

/-- Cut the frame into the block of its measurement object and publish the slices. -/
def cutAndFlush (f : DataFactory) (raw : RawFrame) (dataType : UInt16) (us : UInt64) (ts : UInt64)
    (block : Nat) : Option Bytes × DataFactory :=
  let cut := f.reg.forEachByDomain dataType (cutSlice block raw)
    ⟨f.mem, f.agg.beginFrame f.currentTask, f.forEachTotal⟩
  let f := { f with mem := cut.mem, agg := cut.agg, forEachTotal := cut.forEachTotal }
  if f.bypass = .PROCESS then (none, f)
  else
    let seq := f.seq + 1
    let (published, agg) := f.agg.flush ts seq
    (published, { f with
      seq := seq
      agg := agg
      flushTotal := f.flushTotal + 1
      stats := f.stats.account f.budgetWarnUs f.budgetAlarmUs us })

/-- Count a frame without a complete head. -/
def countKey (f : DataFactory) (key : UInt64) : DataFactory :=
  if key == 0 then { f with stats := { f.stats with keyFail := f.stats.keyFail + 1 } } else f

/-- A frame for which there is a sink and a task. -/
def processFrame (f : DataFactory) (raw : RawFrame) (dataType : UInt16) (us : UInt64) :
    Option Bytes × DataFactory :=
  let key := extractRawKey dataType raw
  let f := f.countKey key
  let ts := f.tick.toUInt64 * kTickMs
  match f.mem.acquireBlock dataType kPeriod1S key f.tick with
  | (none, mem) => (none, { f with
      mem := mem
      stats := { f.stats with dropPoolFull := f.stats.dropPoolFull + 1 } })
  | (some block, mem) => cutAndFlush { f with mem := mem } raw dataType us ts block

/-- One raw frame. -/
def process (f : DataFactory) (raw : RawFrame) (dataType : UInt16) (us : UInt64) :
    Option Bytes × DataFactory :=
  let f := { f with procCount := f.procCount + 1 }
  if f.bypass = .RECV then (none, f)
  else if !f.sink then (none, { f with skipSink := f.skipSink + 1 })
  else if f.currentTask == 0 then (none, { f with skipTask := f.skipTask + 1 })
  else f.processFrame raw dataType us

def onTask (f : DataFactory) (taskId : UInt32) : DataFactory := { f with currentTask := taskId }

/-- The maintenance tick. -/
def onTick (f : DataFactory) : DataFactory :=
  let tick := f.tick + 1
  { f with
    tick := tick
    stats := { f.stats with ticks := f.stats.ticks + 1 }
    mem := f.mem.evictExpired tick }

def setReportSink (f : DataFactory) (sink : Bool) : DataFactory :=
  { f with sink := sink, agg := f.agg.setSink sink }

/-- `-1` and no change unless `0 < warn ≤ alarm`. -/
def setBudget (f : DataFactory) (warnUs alarmUs : UInt64) : Int × DataFactory :=
  if warnUs == 0 || alarmUs == 0 || alarmUs < warnUs then (-1, f)
  else (0, { f with budgetWarnUs := warnUs, budgetAlarmUs := alarmUs })

/-- The statistics with the drops of the aggregator merged in. -/
def statsSnapshot (f : DataFactory) : DataStats :=
  { f.stats with dropSliceOverCap := f.stats.dropSliceOverCap + f.agg.drops }

/--
The factory after start-up: regions built, sink set. `reg` is the registry in the order the hash
map happens to have.
-/
def assemble (alloc : Nat → Nat) (mem : Mem) (reg : ExtractorRegistry) (bypass : Bypass)
    (warnUs alarmUs : UInt64) : DataFactory :=
  setReportSink {
    tick := 0
    currentTask := 0
    seq := 0
    procCount := 0
    sink := false
    agg := ⟨false, 0, 0, 0, fun _ => 0⟩
    stats := {}
    budgetWarnUs := warnUs
    budgetAlarmUs := alarmUs
    forEachTotal := 0
    flushTotal := 0
    skipSink := 0
    skipTask := 0
    bypass := bypass
    mem := DataMemManager.init alloc mem
    reg := reg } true

end DataFactory

/-! ## What `countKey` and `account` keep -/

section
variable (f : DataFactory) (key : UInt64)

/-- Only `keyFail` can change. -/
theorem countKey_eq : ∃ n, f.countKey key = { f with stats := { f.stats with keyFail := n } } := by
  unfold DataFactory.countKey
  split
  · exact ⟨_, rfl⟩
  · exact ⟨f.stats.keyFail, rfl⟩

end

section
variable (s : DataStats) (warnUs alarmUs us : UInt64)

@[simp] theorem account_frames : (s.account warnUs alarmUs us).frames = s.frames + 1 := by
  simp only [DataStats.account]
  split
  · rfl
  · split <;> rfl

@[simp] theorem account_dropPoolFull :
    (s.account warnUs alarmUs us).dropPoolFull = s.dropPoolFull := by
  simp only [DataStats.account]
  split
  · rfl
  · split <;> rfl

@[simp] theorem account_dropSliceOverCap :
    (s.account warnUs alarmUs us).dropSliceOverCap = s.dropSliceOverCap := by
  simp only [DataStats.account]
  split
  · rfl
  · split <;> rfl

end

/-! ## A frame and the clock -/

section
variable (f : DataFactory) (us : UInt64)

theorem tick_processFrame (raw : RawFrame) (dataType : UInt16) :
    (f.processFrame raw dataType us).2.tick = f.tick := by
  have hcut : ∀ (f : DataFactory) (ts : UInt64) (block : Nat),
      (f.cutAndFlush raw dataType us ts block).2.tick = f.tick := by
    intro f ts block
    unfold DataFactory.cutAndFlush
    simp only
    split
    · rfl
    · rfl
  obtain ⟨n, hkey⟩ := countKey_eq f (extractRawKey dataType raw)
  unfold DataFactory.processFrame
  simp only [hkey]
  split
  · rfl
  · rw [hcut]

/-- A frame leaves the count alone. -/
theorem tick_process (raw : RawFrame) (dataType : UInt16) :
    (f.process raw dataType us).2.tick = f.tick := by
  unfold DataFactory.process
  simp only
  split
  · rfl
  · split
    · rfl
    · split
      · rfl
      · exact tick_processFrame _ us raw dataType

end

end Dts.Data
