import Dts.Data.Factory
import Dts.Infra.Run
import Mathlib.Algebra.BigOperators.Group.List.Basic

/-!
# Runs of the data factory

`FactoryInv` holds in every state of the factory after assembly: the memory manager has the one
region of the cell table, the registry lists the extractors of the table in some order, and the
padding bytes of the report buffer have not been touched.

`FactoryInv.cut` is the effect of visiting the extractors: the aggregator collects one record for
each slice that fits, whatever the block and the slots held before.
-/

namespace Dts.Data

open Infra

/-- What happens to the factory after assembly. -/
inductive FactoryOp where
  | process (raw : RawFrame) (dataType : UInt16) (us : UInt64)
  | tick
  | task (taskId : UInt32)
  | sink (sink : Bool)
  | budget (warnUs alarmUs : UInt64)

def factoryStep (f : DataFactory) : FactoryOp → Option DataFactory
  | .process raw dataType us => some (f.process raw dataType us).2
  | .tick => some f.onTick
  | .task taskId => some (f.onTask taskId)
  | .sink sink => some (f.setReportSink sink)
  | .budget warnUs alarmUs => some (f.setBudget warnUs alarmUs).2

/-! ## The memory manager -/

/-- What stays true of the region of the cell table, whatever its slots. -/
structure IsCellRegion (r : RegionDesc) : Prop where
  domain : r.domain = DataType.CELL.code
  periodTicks : r.periodTicks = kPeriod1S
  blockSize : 0 < r.blockSize.toNat
  poolSize : r.poolSize = r.slotCap * r.blockSize.toNat
  placed : ∀ id ∈ cellDataIds, (r.slotOffset.lookup id).isSome = true

/-- The manager has that one region. -/
def CellRegions (m : DataMemManager) : Prop := ∃ r, m.regions = [r] ∧ IsCellRegion r

/-- Every dataId of the table has a slot in the block. -/
def HasSlots (m : DataMemManager) (block : Nat) : Prop :=
  ∀ id ∈ cellDataIds, (m.slotOf block id).isSome = true

-- stated for any layout: the kernel must not compute the one of the cell table
theorem isCellRegion_of_layout {lay : UInt32 × List (UInt16 × UInt32)} (pool : Nat)
    (hsize : 0 < lay.1.toNat) (hplaced : ∀ id ∈ cellDataIds, (lay.2.lookup id).isSome = true) :
    IsCellRegion ⟨DataType.CELL.code, kPeriod1S, kCellSlotCap, lay.1, pool,
      kCellSlotCap * lay.1.toNat, ⟨fun _ => false, fun _ => 0⟩, lay.2⟩ :=
  ⟨rfl, rfl, hsize, rfl, hplaced⟩

theorem isCellRegion_cellRegion (pool : Nat) : IsCellRegion (cellRegion pool) := by
  refine isCellRegion_of_layout pool (by rw [cellLayout_blockSize]; omega) ?_
  intro id hid
  have hspec : ∃ s ∈ cellDataIds.map specOf, s.dataId = id :=
    ⟨specOf id, List.mem_map_of_mem hid, by rw [specOf_of_mem hid]⟩
  rw [cellLayout]
  exact lookup_layout _ _ id (Or.inr hspec)

theorem cellRegions_init (alloc : Nat → Nat) (mem : Mem) :
    CellRegions (DataMemManager.init alloc mem) :=
  ⟨cellRegion (alloc 0), init_regions alloc mem, isCellRegion_cellRegion _⟩

theorem findRegion_cell {m : DataMemManager} {r r' : RegionDesc} {d : UInt16} {p : UInt32}
    (hm : m.regions = [r]) (hr : findRegion m.regions d p = some r') : r' = r := by
  have hmem := List.mem_of_find?_eq_some hr
  rwa [hm, List.mem_singleton] at hmem

/-- Every slot of the region is a block with a slot for each dataId. -/
theorem hasSlots_blockAt {m : DataMemManager} {r : RegionDesc} (hm : m.regions = [r])
    (h : IsCellRegion r) {i : Nat} (hi : i < r.slotCap) : HasSlots m (r.blockAt i) := by
  intro id hid
  have hlast : (i + 1) * r.blockSize.toNat ≤ r.poolSize := by
    rw [h.poolSize]
    exact Nat.mul_le_mul_right _ hi
  have hsize := h.blockSize
  rw [Nat.add_mul, Nat.one_mul] at hlast
  have hregion : m.regionOf (r.blockAt i) = some r := by
    rw [DataMemManager.regionOf, hm]
    refine List.find?_cons_of_pos ?_
    have hlow : r.pool ≤ r.blockAt i := Nat.le_add_right _ _
    have hhigh : r.blockAt i < r.pool + r.poolSize := by
      rw [RegionDesc.blockAt]
      omega
    rw [decide_eq_true hlow, decide_eq_true hhigh]
    rfl
  simp only [DataMemManager.slotOf, hregion, Option.isSome_map]
  exact h.placed id hid

/-- `acquireBlock` keeps the region, and any block it returns has its slots. -/
theorem acquireBlock_cell {m : DataMemManager} (h : CellRegions m) (d : UInt16) (p : UInt32)
    (k : UInt64) (t : UInt32) :
    CellRegions (m.acquireBlock d p k t).2 ∧
      ∀ b, (m.acquireBlock d p k t).1 = some b →
        d = DataType.CELL.code ∧ HasSlots (m.acquireBlock d p k t).2 b := by
  obtain ⟨r, hm, hcell⟩ := h
  cases hr : findRegion m.regions d p with
  | none =>
    simp only [DataMemManager.acquireBlock, hr]
    exact ⟨⟨r, hm, hcell⟩, fun b hb => by simp at hb⟩
  | some r' =>
    cases findRegion_cell hm hr
    have hfor : r.isFor d p = true := findRegion_isFor hr
    have hd : d = DataType.CELL.code := by
      simp only [RegionDesc.isFor, Bool.and_eq_true, beq_iff_eq] at hfor
      rw [← hfor.1, hcell.domain]
    cases hs : r.slots.scan (r.start k) k with
    | none =>
      simp only [DataMemManager.acquireBlock, hr, hs]
      exact ⟨⟨r, hm, hcell⟩, fun b hb => by simp at hb⟩
    | some i =>
      simp only [DataMemManager.acquireBlock, hr, hs]
      by_cases hused : r.slots.used i = true
      · simp only [hused, if_true]
        refine ⟨⟨r, hm, hcell⟩, fun b hb => ⟨hd, ?_⟩⟩
        cases hb
        exact hasSlots_blockAt hm hcell i.isLt
      · simp only [hused, Bool.false_eq_true, if_false]
        have hcell' : IsCellRegion { r with slots := r.slots.occupy i k } :=
          ⟨hcell.domain, hcell.periodTicks, hcell.blockSize, hcell.poolSize, hcell.placed⟩
        have hupd : updateRegion d p (fun _ => { r with slots := r.slots.occupy i k }) m.regions
            = [{ r with slots := r.slots.occupy i k }] := by
          rw [hm, updateRegion, if_pos hfor]
        refine ⟨⟨_, hupd, hcell'⟩, fun b hb => ⟨hd, ?_⟩⟩
        cases hb
        exact hasSlots_blockAt hupd hcell' i.isLt

theorem evictExpired_cell {m : DataMemManager} (h : CellRegions m) (t : UInt32) :
    CellRegions (m.evictExpired t) := by
  obtain ⟨r, hm, hcell⟩ := h
  refine ⟨DataMemManager.evictRegion m.mem t r, ?_, ?_⟩
  · rw [DataMemManager.evictExpired, hm]
    rfl
  · exact ⟨hcell.domain, hcell.periodTicks, hcell.blockSize, hcell.poolSize, hcell.placed⟩

/-! ## Cutting a frame -/

def sliceRecord (raw : RawFrame) (id : UInt16) : Record := ⟨id, sliceOf raw id⟩

/-- The records of the slices that fit. -/
def fitting (raw : RawFrame) (ids : List UInt16) : List Record :=
  (ids.filter fun id => decide (Fits raw id)).map (sliceRecord raw)

/-- What cutting keeps of the state it starts from, next to the collected records. -/
structure CutInv (start : Cut) (recs : List Record) (c : Cut) : Prop where
  collected : Collected c.agg recs
  regions : c.mem.regions = start.mem.regions
  sink : c.agg.sink = start.agg.sink
  taskId : c.agg.taskId = start.agg.taskId
  drops : c.agg.drops = start.agg.drops
  padding : c.agg.buf.load 4 4 = start.agg.buf.load 4 4

/-- The extractor of a slice that does not fit changes nothing. -/
theorem cutSlice_of_short {block : Nat} {raw : RawFrame} {c : Cut} {id : UInt16}
    (hid : id ∈ cellDataIds) (h : ¬ Fits raw id) :
    cutSlice block raw c (cellExtractor id) = c := by
  have hneg : (-1 : Int32) < 0 := by decide
  simp only [cutSlice, cellExtractor, extra_of_short hid h, if_pos hneg]
  split <;> rfl

/-- The extractor of a slice that fits adds it, through the cache slot of its dataId. -/
theorem cutSlice_of_fits {block : Nat} {raw : RawFrame} {c : Cut} {id : UInt16} {cache : Nat}
    (hid : id ∈ cellDataIds) (h : Fits raw id) (hslot : c.mem.slotOf block id = some cache) :
    cutSlice block raw c (cellExtractor id) =
      { mem := { c.mem with mem := c.mem.mem.store cache (sliceOf raw id) }
        agg := c.agg.add (c.mem.mem.store cache (sliceOf raw id)) id (some cache)
          (specOf id).cacheSize
        forEachTotal := c.forEachTotal + 1 } := by
  have hcache : (specOf id).needCache = true := by rw [specOf_of_mem hid]
  simp only [cutSlice, cellExtractor, hcache, if_true, hslot, extra_of_fits hid h,
    if_neg (cacheSize_toInt32 hid), CCellSlice.hton]

theorem CutInv.cutSlice {start c : Cut} {recs : List Record} {block : Nat} {id : UInt16}
    (hc : CutInv start recs c) (raw : RawFrame) (hid : id ∈ cellDataIds)
    (hslots : HasSlots start.mem block)
    (hroom : c.agg.used.toNat + sizeofSubHeader + (specOf id).cacheSize.toNat ≤ kCap) :
    CutInv start (recs ++ fitting raw [id]) (cutSlice block raw c (cellExtractor id)) := by
  by_cases hfit : Fits raw id
  · have hslot : (c.mem.slotOf block id).isSome = true := by
      have := hslots id hid
      rwa [DataMemManager.slotOf, DataMemManager.regionOf, ← hc.regions] at this
    obtain ⟨cache, hslot⟩ := Option.isSome_iff_exists.mp hslot
    have hload : Mem.load (c.mem.mem.store cache (sliceOf raw id)) cache (specOf id).cacheSize.toNat
        = sliceOf raw id := Mem.load_store_eq (length_sliceOf hfit)
    have hrecs : fitting raw [id] = [⟨id, Mem.load (c.mem.mem.store cache (sliceOf raw id)) cache
        (specOf id).cacheSize.toNat⟩] := by
      rw [hload, fitting, List.filter_cons_of_pos (by simpa using hfit)]
      rfl
    have hused := hc.collected.used
    unfold sizeofReportHeader at hused
    rw [cutSlice_of_fits hid hfit hslot, hrecs]
    refine ⟨hc.collected.add hroom _ id cache, hc.regions, ?_, ?_, ?_, ?_⟩
    · exact (congrArg ReportAggregator.sink (add_of_fits hroom _ id cache)).trans hc.sink
    · exact (congrArg ReportAggregator.taskId (add_of_fits hroom _ id cache)).trans hc.taskId
    · exact (congrArg ReportAggregator.drops (add_of_fits hroom _ id cache)).trans hc.drops
    · simp only [add_of_fits hroom]
      rw [Mem.load_store_disjoint (by omega), Mem.load_store_disjoint (by omega), hc.padding]
  · rw [cutSlice_of_short hid hfit, fitting, List.filter_cons_of_neg (by simpa using hfit)]
    simpa using hc

/-- The room that the slices of a list of dataIds take in a report at most. -/
def roomFor (ids : List UInt16) : Nat :=
  (ids.map fun id => sizeofSubHeader + (specOf id).cacheSize.toNat).sum

/-- Visiting the extractors of a list of dataIds collects the slices that fit. -/
theorem CutInv.foldl {start : Cut} {block : Nat} {raw : RawFrame}
    (hslots : HasSlots start.mem block) : ∀ (ids : List UInt16) {c : Cut} {recs : List Record},
    CutInv start recs c → (∀ id ∈ ids, id ∈ cellDataIds) →
    c.agg.used.toNat + roomFor ids ≤ kCap →
    CutInv start (recs ++ fitting raw ids)
      ((ids.map cellExtractor).foldl (Dts.Data.cutSlice block raw) c)
  | [], c, recs, hc, _, _ => by
    rw [fitting, List.filter_nil, List.map_nil, List.append_nil]
    exact hc
  | id :: ids, c, recs, hc, hids, hroom => by
    rw [roomFor, List.map_cons, List.sum_cons] at hroom
    have hid := hids id List.mem_cons_self
    have hone := hc.cutSlice raw hid hslots (by omega)
    have hgrow : (Dts.Data.cutSlice block raw c (cellExtractor id)).agg.used.toNat + roomFor ids
        ≤ kCap := by
      have h0 := hc.collected.used
      have h1 := hone.collected.used
      have hle : (encode (fitting raw [id])).length
          ≤ sizeofSubHeader + (specOf id).cacheSize.toNat := by
        by_cases hfit : Fits raw id
        · rw [fitting, List.filter_cons_of_pos (by simpa using hfit)]
          simp [sliceRecord, length_sliceOf hfit]
        · rw [fitting, List.filter_cons_of_neg (by simpa using hfit)]
          simp
      rw [encode_append, List.length_append] at h1
      unfold roomFor
      omega
    have happ : recs ++ fitting raw (id :: ids) = (recs ++ fitting raw [id]) ++ fitting raw ids := by
      rw [List.append_assoc, fitting, fitting, fitting, ← List.map_append, ← List.filter_append]
      rfl
    rw [List.map_cons, List.foldl_cons, happ]
    exact CutInv.foldl hslots ids hone (fun x hx => hids x (List.mem_cons_of_mem _ hx)) hgrow

/-- All 500 slices together fit into a report. -/
theorem roomFor_cellDataIds : roomFor cellDataIds = 4 * 500 + (kRawLen - 10) := by
  have hsum : ∀ l : List UInt16,
      roomFor l = 4 * l.length + (l.map fun id => (specOf id).cacheSize.toNat).sum := by
    intro l
    induction l with
    | nil => rfl
    | cons id l ih =>
      unfold roomFor at ih ⊢
      rw [List.map_cons, List.sum_cons, ih, List.length_cons, List.map_cons, List.sum_cons]
      unfold sizeofSubHeader
      omega
  rw [hsum, cacheSizes_eq, sum_kCellCacheSizes, length_cellDataIds]

/-! ## The invariant of the factory -/

/-- Holds of the factory from assembly on. -/
structure FactoryInv (bypass : Bypass) (f : DataFactory) : Prop where
  bypass : f.bypass = bypass
  mem : CellRegions f.mem
  reg : f.reg.Perm (initExtractors [])
  sink : f.agg.sink = f.sink
  padding : f.agg.buf.load 4 4 = [0, 0, 0, 0]

/-- The dataIds of the registry, in its order. -/
def regIds (f : DataFactory) : List UInt16 := f.reg.map ExtractorSpec.dataId

/-- The records of a frame, in the order of the registry. -/
def frameRecords (f : DataFactory) (raw : RawFrame) : List Record := fitting raw (regIds f)

section
variable {b : Bypass} {f : DataFactory}

theorem FactoryInv.regIds_perm (h : FactoryInv b f) : (regIds f).Perm cellDataIds := by
  have hperm := h.reg
  rw [initExtractors_nil] at hperm
  have hids : (cellDataIds.map cellExtractor).map ExtractorSpec.dataId = cellDataIds := by
    rw [List.map_map]
    exact List.map_id _
  rw [regIds, ← hids]
  exact hperm.map _

theorem FactoryInv.reg_eq (h : FactoryInv b f) : f.reg = (regIds f).map cellExtractor := by
  have hperm := h.reg
  rw [initExtractors_nil] at hperm
  rw [regIds, List.map_map]
  refine (List.map_id _).symm.trans (List.map_congr_left ?_)
  intro s hs
  obtain ⟨id, -, rfl⟩ := List.mem_map.mp (hperm.subset hs)
  rfl

theorem FactoryInv.mem_regIds (h : FactoryInv b f) {id : UInt16} :
    id ∈ regIds f ↔ id ∈ cellDataIds := h.regIds_perm.mem_iff

/-- The visit for the cell domain meets every extractor. -/
theorem FactoryInv.filter_reg (h : FactoryInv b f) :
    (f.reg.filter fun s => s.dataType == DataType.CELL.code) = (regIds f).map cellExtractor := by
  rw [h.reg_eq, List.filter_eq_self.mpr]
  intro s hs
  obtain ⟨id, hid, rfl⟩ := List.mem_map.mp hs
  rw [(cellExtractor_of_mem (h.mem_regIds.mp hid)).1]
  rfl

/-- **Cutting collects one record for each slice that fits.** -/
theorem FactoryInv.cut (h : FactoryInv b f) (raw : RawFrame) {m : DataMemManager} {block : Nat}
    (hslots : HasSlots m block) :
    CutInv ⟨m, f.agg.beginFrame f.currentTask, f.forEachTotal⟩ (frameRecords f raw)
      (f.reg.forEachByDomain DataType.CELL.code (cutSlice block raw)
        ⟨m, f.agg.beginFrame f.currentTask, f.forEachTotal⟩) := by
  have hroom : roomFor (regIds f) = 4 * 500 + (kRawLen - 10) := by
    rw [← roomFor_cellDataIds]
    exact (h.regIds_perm.map _).sum_eq
  have hstart : CutInv ⟨m, f.agg.beginFrame f.currentTask, f.forEachTotal⟩ []
      ⟨m, f.agg.beginFrame f.currentTask, f.forEachTotal⟩ :=
    ⟨Collected.beginFrame _ _, rfl, rfl, rfl, rfl, rfl⟩
  rw [ExtractorRegistry.forEachByDomain, h.filter_reg]
  exact hstart.foldl hslots (regIds f) (fun id hid => h.mem_regIds.mp hid) (by
    rw [hroom]
    exact (by decide : sizeofReportHeader + (4 * 500 + (kRawLen - 10)) ≤ kCap))

/-- The report of a list of records; an empty one is not published. -/
def reportOf (taskId : UInt32) (timestampMs : UInt64) (seq : UInt32) (recs : List Record) :
    Option Bytes :=
  if recs = [] then none
  else some (ReportHeader.bytes ⟨taskId, timestampMs, seq, UInt32.ofNat (encode recs).length⟩
    [0, 0, 0, 0] ++ encode recs)

/-- What a call that gets as far as `flush` publishes, and what it leaves. -/
structure Flushed (f : DataFactory) (recs : List Record) (m : DataMemManager)
    (r : Option Bytes × DataFactory) : Prop where
  published : r.1 = reportOf f.currentTask (f.tick.toUInt64 * kTickMs) (f.seq + 1) recs
  seq : r.2.seq = f.seq + 1
  frames : r.2.stats.frames = f.stats.frames + 1
  dropPoolFull : r.2.stats.dropPoolFull = f.stats.dropPoolFull
  dropSliceOverCap : r.2.statsSnapshot.dropSliceOverCap = f.statsSnapshot.dropSliceOverCap
  sink : r.2.sink = f.sink
  currentTask : r.2.currentTask = f.currentTask
  regions : r.2.mem.regions = m.regions

theorem cutAndFlush_flushed (h : FactoryInv .FULL f) (hsink : f.sink = true) (raw : RawFrame)
    (us : UInt64) {block : Nat} (hslots : HasSlots f.mem block) :
    Flushed f (frameRecords f raw) f.mem
        (f.cutAndFlush raw DataType.CELL.code us (f.tick.toUInt64 * kTickMs) block) ∧
      FactoryInv .FULL
        (f.cutAndFlush raw DataType.CELL.code us (f.tick.toUInt64 * kTickMs) block).2 := by
  have hcut := h.cut raw hslots
  have hmem : CellRegions (f.reg.forEachByDomain DataType.CELL.code (cutSlice block raw)
      ⟨f.mem, f.agg.beginFrame f.currentTask, f.forEachTotal⟩).mem := by
    obtain ⟨r, hr, hcell⟩ := h.mem
    exact ⟨r, hcut.regions.trans hr, hcell⟩
  simp only [DataFactory.cutAndFlush, h.bypass]
  generalize f.reg.forEachByDomain DataType.CELL.code (cutSlice block raw)
    ⟨f.mem, f.agg.beginFrame f.currentTask, f.forEachTotal⟩ = cut at hcut hmem ⊢
  have hs : cut.agg.sink = f.sink := hcut.sink.trans h.sink
  have ht : cut.agg.taskId = f.currentTask := hcut.taskId
  have hd : cut.agg.drops = f.agg.drops := hcut.drops
  have hp : cut.agg.buf.load 4 4 = [0, 0, 0, 0] := hcut.padding.trans h.padding
  rw [if_neg (by decide)]
  -- without records `flush` publishes nothing, but the number is taken
  by_cases hrecs : frameRecords f raw = []
  · have hcol := hcut.collected
    rw [hrecs] at hcol
    rw [hcol.flush_nil, hrecs]
    exact ⟨⟨rfl, rfl, by simp, by simp, by simp [DataFactory.statsSnapshot, hd],
      rfl, rfl, hcut.regions⟩, ⟨rfl, hmem, h.reg, hs, hp⟩⟩
  · obtain ⟨buf, hflush, hpad⟩ := hcut.collected.flush (hs.trans hsink) hrecs
      (f.tick.toUInt64 * kTickMs) (f.seq + 1)
    rw [hflush]
    refine ⟨⟨?_, rfl, by simp, by simp, by simp [DataFactory.statsSnapshot, hd],
      rfl, rfl, hcut.regions⟩, ⟨rfl, hmem, h.reg, hs, hpad.trans hp⟩⟩
    rw [reportOf, if_neg hrecs, ht, hp]

/-! ## One call of `process` -/

/-- The call gets as far as `flush`. -/
def Reaches (f : DataFactory) (raw : RawFrame) (dataType : UInt16) : Prop :=
  f.bypass = .FULL ∧ f.sink = true ∧ f.currentTask ≠ 0 ∧
    (f.mem.acquireBlock dataType kPeriod1S (extractRawKey dataType raw) f.tick).1.isSome = true

/-- With a task and a sink the frame is processed. -/
theorem process_eq_processFrame (hrecv : f.bypass ≠ .RECV) (hsink : f.sink = true)
    (htask : f.currentTask ≠ 0) (raw : RawFrame) (dataType : UInt16) (us : UInt64) :
    f.process raw dataType us
      = { f with procCount := f.procCount + 1 }.processFrame raw dataType us := by
  simp only [DataFactory.process]
  rw [if_neg hrecv, if_neg (by simp [hsink]), if_neg (by simpa using htask)]

theorem processFrame_of_reaches (h : FactoryInv b f) {raw : RawFrame} {dataType : UInt16}
    (hr : Reaches f raw dataType) (us : UInt64) :
    dataType = DataType.CELL.code ∧
      Flushed f (frameRecords f raw)
        (f.mem.acquireBlock dataType kPeriod1S (extractRawKey dataType raw) f.tick).2
        (f.processFrame raw dataType us) ∧
      FactoryInv b (f.processFrame raw dataType us).2 := by
  obtain ⟨hfull, hsink, -, hblock⟩ := hr
  cases h.bypass.symm.trans hfull
  obtain ⟨hm, hslots⟩ :=
    acquireBlock_cell h.mem dataType kPeriod1S (extractRawKey dataType raw) f.tick
  obtain ⟨block, hblock⟩ := Option.isSome_iff_exists.mp hblock
  obtain ⟨n, hcount⟩ := countKey_eq f (extractRawKey dataType raw)
  -- only the facts about the acquired block are used from here on
  simp only [DataFactory.processFrame, hcount]
  generalize f.mem.acquireBlock dataType kPeriod1S (extractRawKey dataType raw) f.tick = res
    at hm hslots hblock ⊢
  obtain ⟨res, mem⟩ := res
  subst hblock
  obtain ⟨rfl, hhas⟩ := hslots block rfl
  obtain ⟨hflushed, hinv⟩ := cutAndFlush_flushed
    (f := { f with stats := { f.stats with keyFail := n }, mem := mem })
    ⟨h.bypass, hm, h.reg, h.sink, h.padding⟩ hsink raw us hhas
  exact ⟨rfl, ⟨hflushed.published, hflushed.seq, hflushed.frames, hflushed.dropPoolFull,
    hflushed.dropSliceOverCap, hflushed.sink, hflushed.currentTask, hflushed.regions⟩, hinv⟩

/-- **A call that gets as far as `flush`** is for the cell domain and publishes its records. -/
theorem process_of_reaches (h : FactoryInv b f) {raw : RawFrame} {dataType : UInt16}
    (hr : Reaches f raw dataType) (us : UInt64) :
    dataType = DataType.CELL.code ∧
      Flushed f (frameRecords f raw)
        (f.mem.acquireBlock dataType kPeriod1S (extractRawKey dataType raw) f.tick).2
        (f.process raw dataType us) ∧
      FactoryInv b (f.process raw dataType us).2 := by
  obtain ⟨hd, hflushed, hinv⟩ := processFrame_of_reaches
    (f := { f with procCount := f.procCount + 1 }) ⟨h.bypass, h.mem, h.reg, h.sink, h.padding⟩ hr us
  rw [process_eq_processFrame (by rw [hr.1]; decide) hr.2.1 hr.2.2.1]
  exact ⟨hd, ⟨hflushed.published, hflushed.seq, hflushed.frames, hflushed.dropPoolFull,
    hflushed.dropSliceOverCap, hflushed.sink, hflushed.currentTask, hflushed.regions⟩, hinv⟩

/-- What a call that stops earlier leaves. -/
structure Stopped (f : DataFactory) (r : Option Bytes × DataFactory) : Prop where
  published : r.1 = none
  seq : r.2.seq = f.seq
  frames : r.2.stats.frames = f.stats.frames
  dropSliceOverCap : r.2.statsSnapshot.dropSliceOverCap = f.statsSnapshot.dropSliceOverCap

/-- In `PROCESS` mode nothing is published. -/
theorem cutAndFlush_process (h : FactoryInv .PROCESS f) (raw : RawFrame) (us ts : UInt64)
    {block : Nat} (hslots : HasSlots f.mem block) :
    Stopped f (f.cutAndFlush raw DataType.CELL.code us ts block) ∧
      FactoryInv .PROCESS (f.cutAndFlush raw DataType.CELL.code us ts block).2 := by
  have hcut := h.cut raw hslots
  simp only [DataFactory.cutAndFlush, h.bypass, if_true]
  generalize f.reg.forEachByDomain DataType.CELL.code (cutSlice block raw)
    ⟨f.mem, f.agg.beginFrame f.currentTask, f.forEachTotal⟩ = cut at hcut ⊢
  have hd : cut.agg.drops = f.agg.drops := hcut.drops
  obtain ⟨r, hr, hcell⟩ := h.mem
  exact ⟨⟨rfl, rfl, rfl, by simp [DataFactory.statsSnapshot, hd]⟩, ⟨rfl,
    ⟨r, hcut.regions.trans hr, hcell⟩, h.reg, hcut.sink.trans h.sink, hcut.padding.trans h.padding⟩⟩

theorem processFrame_of_not_reaches (h : FactoryInv b f) {raw : RawFrame} {dataType : UInt16}
    (hr : ¬ Reaches f raw dataType) (hsink : f.sink = true) (htask : f.currentTask ≠ 0)
    (hrecv : f.bypass ≠ .RECV) (us : UInt64) : Stopped f (f.processFrame raw dataType us) ∧
      FactoryInv b (f.processFrame raw dataType us).2 := by
  obtain ⟨hm, hslots⟩ :=
    acquireBlock_cell h.mem dataType kPeriod1S (extractRawKey dataType raw) f.tick
  obtain ⟨n, hcount⟩ := countKey_eq f (extractRawKey dataType raw)
  have hres : f.bypass = .FULL →
      (f.mem.acquireBlock dataType kPeriod1S (extractRawKey dataType raw) f.tick).1 = none := by
    intro hfull
    rw [← Option.not_isSome_iff_eq_none]
    exact fun hsome => hr ⟨hfull, hsink, htask, hsome⟩
  simp only [DataFactory.processFrame, hcount]
  generalize f.mem.acquireBlock dataType kPeriod1S (extractRawKey dataType raw) f.tick = res
    at hm hslots hres ⊢
  obtain ⟨res, mem⟩ := res
  cases res with
  | none => exact ⟨⟨rfl, rfl, rfl, rfl⟩, ⟨h.bypass, hm, h.reg, h.sink, h.padding⟩⟩
  | some block =>
    -- a block was found, so only the mode can have stopped the call
    have hproc : b = .PROCESS := by
      rw [← h.bypass]
      cases hb : f.bypass with
      | FULL => exact absurd (hres hb) (by simp)
      | RECV => exact absurd hb hrecv
      | PROCESS => rfl
    subst hproc
    obtain ⟨rfl, hhas⟩ := hslots block rfl
    obtain ⟨hstop, hinv⟩ := cutAndFlush_process
      (f := { f with stats := { f.stats with keyFail := n }, mem := mem })
      ⟨h.bypass, hm, h.reg, h.sink, h.padding⟩ raw us (f.tick.toUInt64 * kTickMs) hhas
    exact ⟨⟨hstop.published, hstop.seq, hstop.frames, hstop.dropSliceOverCap⟩, hinv⟩

/-- **A call that stops before `flush`** publishes nothing. -/
theorem process_of_not_reaches (h : FactoryInv b f) {raw : RawFrame} {dataType : UInt16}
    (hr : ¬ Reaches f raw dataType) (us : UInt64) : Stopped f (f.process raw dataType us) ∧
      FactoryInv b (f.process raw dataType us).2 := by
  simp only [DataFactory.process]
  by_cases hrecv : f.bypass = .RECV
  · rw [if_pos hrecv]
    exact ⟨⟨rfl, rfl, rfl, rfl⟩, ⟨h.bypass, h.mem, h.reg, h.sink, h.padding⟩⟩
  · rw [if_neg hrecv]
    by_cases hsink : f.sink = true
    · rw [if_neg (by simp [hsink])]
      by_cases htask : f.currentTask = 0
      · rw [if_pos (by simp [htask])]
        exact ⟨⟨rfl, rfl, rfl, rfl⟩, ⟨h.bypass, h.mem, h.reg, h.sink, h.padding⟩⟩
      · rw [if_neg (by simpa using htask)]
        obtain ⟨hstop, hinv⟩ := processFrame_of_not_reaches
          (f := { f with procCount := f.procCount + 1 })
          ⟨h.bypass, h.mem, h.reg, h.sink, h.padding⟩ hr hsink htask hrecv us
        exact ⟨⟨hstop.published, hstop.seq, hstop.frames, hstop.dropSliceOverCap⟩, hinv⟩
    · rw [if_pos (by simpa using hsink)]
      exact ⟨⟨rfl, rfl, rfl, rfl⟩, ⟨h.bypass, h.mem, h.reg, h.sink, h.padding⟩⟩

/-! ## Runs -/

theorem factoryInv_assemble (alloc : Nat → Nat) (mem : Mem) {reg : ExtractorRegistry}
    (hreg : reg.Perm (initExtractors [])) (bypass : Bypass) (warnUs alarmUs : UInt64) :
    FactoryInv bypass (DataFactory.assemble alloc mem reg bypass warnUs alarmUs) :=
  ⟨rfl, cellRegions_init alloc mem, hreg, rfl, rfl⟩

/-- Every operation keeps the invariant. -/
theorem factoryStep_inv {g : DataFactory} (op : FactoryOp) (h : FactoryInv b f)
    (hstep : factoryStep f op = some g) : FactoryInv b g := by
  cases op with
  | process raw dataType us =>
    cases hstep
    by_cases hr : Reaches f raw dataType
    · exact (process_of_reaches h hr us).2.2
    · exact (process_of_not_reaches h hr us).2
  | tick =>
    cases hstep
    exact ⟨h.bypass, evictExpired_cell h.mem _, h.reg, h.sink, h.padding⟩
  | task taskId =>
    cases hstep
    exact ⟨h.bypass, h.mem, h.reg, h.sink, h.padding⟩
  | sink sink =>
    cases hstep
    exact ⟨h.bypass, h.mem, h.reg, rfl, h.padding⟩
  | budget warnUs alarmUs =>
    cases hstep
    unfold DataFactory.setBudget
    split <;> exact ⟨h.bypass, h.mem, h.reg, h.sink, h.padding⟩

/-- **The invariant holds in every reachable state.** -/
theorem factoryInv_of_reachable {alloc : Nat → Nat} {mem : Mem} {reg : ExtractorRegistry}
    {bypass : Bypass} {warnUs alarmUs : UInt64} (hreg : reg.Perm (initExtractors []))
    (hf : Reachable factoryStep (DataFactory.assemble alloc mem reg bypass warnUs alarmUs) f) :
    FactoryInv bypass f :=
  hf.invariant (factoryInv_assemble alloc mem hreg bypass warnUs alarmUs)
    fun _ op _ hs hstep => factoryStep_inv op hs hstep

end

end Dts.Data
