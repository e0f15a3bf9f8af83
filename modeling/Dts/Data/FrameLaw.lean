import Dts.Data.FactoryRun

/-!
# What one frame does

The two laws of `DataFactory::Process`, for every state that is reached after assembly.

* `process_report` — the report of a frame has exactly one record for each slice that lies in the
  frame, with the bytes of the frame and nothing else
* `noSilentLoss_iff` — a call accounts for its frame exactly when the region of its data type
  exists and the frame either meets a full pool or has a slice. An unknown data type counts as a
  full pool, and a frame without a slice is counted as processed although nothing is published.
-/

namespace Dts.Data

open Infra

section
variable {f : DataFactory}

theorem fitting_eq_nil {raw : RawFrame} {ids : List UInt16} :
    fitting raw ids = [] ↔ ∀ id ∈ ids, ¬ Fits raw id := by
  rw [fitting, List.map_eq_nil_iff, List.filter_eq_nil_iff]
  simp

theorem frameRecords_perm {b : Bypass} (h : FactoryInv b f) (raw : RawFrame) :
    (frameRecords f raw).Perm (fitting raw cellDataIds) := (h.regIds_perm.filter _).map _

theorem frameRecords_eq_nil {b : Bypass} (h : FactoryInv b f) {raw : RawFrame} :
    frameRecords f raw = [] ↔ ∀ id ∈ cellDataIds, ¬ Fits raw id := by
  rw [← fitting_eq_nil, ← List.length_eq_zero_iff, ← List.length_eq_zero_iff,
    (frameRecords_perm h raw).length_eq]

/-- The body of a report is shorter than its capacity. -/
theorem length_encode_frameRecords {b : Bypass} (h : FactoryInv b f) (raw : RawFrame) :
    sizeofReportHeader + (encode (frameRecords f raw)).length ≤ kCap := by
  have hle : ∀ ids : List UInt16, (encode (fitting raw ids)).length ≤ roomFor ids := by
    intro ids
    induction ids with
    | nil => exact Nat.zero_le _
    | cons id ids ih =>
      rw [roomFor, List.map_cons, List.sum_cons]
      unfold fitting roomFor at *
      by_cases hfit : Fits raw id
      · rw [List.filter_cons_of_pos (by simpa using hfit), List.map_cons, encode_cons,
          List.length_append, Record.length_bytes, sliceRecord, length_sliceOf hfit]
        omega
      · rw [List.filter_cons_of_neg (by simpa using hfit)]
        omega
  have hroom : roomFor (regIds f) = 4 * 500 + (kRawLen - 10) := by
    rw [← roomFor_cellDataIds]
    exact (h.regIds_perm.map _).sum_eq
  have hfits := hle (regIds f)
  rw [hroom] at hfits
  exact (Nat.add_le_add_left hfits _).trans (by decide)

/--
**The report of a frame.** Once a block is found for a cell frame, exactly one report is published
if some slice lies in the frame, and none otherwise. The report is determined by the task, the
time, the sequence number and the frame: its records are those of the slices that fit, each with
its bytes of the frame, and none is dropped for capacity.
-/
theorem process_report {alloc : Nat → Nat} {mem : Mem} {reg : ExtractorRegistry}
    {warnUs alarmUs : UInt64} (hreg : reg.Perm (initExtractors []))
    (hf : Reachable factoryStep (DataFactory.assemble alloc mem reg .FULL warnUs alarmUs) f)
    (hsink : f.sink = true) (htask : f.currentTask ≠ 0) (raw : RawFrame) (us : UInt64)
    (hblock : (f.mem.acquireBlock DataType.CELL.code kPeriod1S
      (extractRawKey DataType.CELL.code raw) f.tick).1.isSome = true) :
    ((∃ id ∈ cellDataIds, Fits raw id) → ∃ (hdr : ReportHeader) (recs : List Record),
      (f.process raw DataType.CELL.code us).1 = some (hdr.bytes [0, 0, 0, 0] ++ encode recs) ∧
      hdr.taskId = f.currentTask ∧
      hdr.timestampMs = f.tick.toUInt64 * kTickMs ∧
      hdr.seq = f.seq + 1 ∧
      hdr.payloadLen.toNat = (encode recs).length ∧
      recs.Perm ((cellDataIds.filter fun id => decide (Fits raw id)).map fun id =>
        ⟨id, sliceOf raw id⟩) ∧
      (f.process raw DataType.CELL.code us).2.statsSnapshot.dropSliceOverCap
        = f.statsSnapshot.dropSliceOverCap) ∧
    ((∀ id ∈ cellDataIds, ¬ Fits raw id) → (f.process raw DataType.CELL.code us).1 = none) := by
  have hinv := factoryInv_of_reachable hreg hf
  have hflush := (process_of_reaches hinv ⟨hinv.bypass, hsink, htask, hblock⟩ us).2.1
  refine ⟨fun ⟨id, hid, hfit⟩ => ?_, fun hnone => ?_⟩
  · have hne : frameRecords f raw ≠ [] := fun hnil => (frameRecords_eq_nil hinv).mp hnil id hid hfit
    have hlen := length_encode_frameRecords hinv raw
    unfold kCap at hlen
    refine ⟨⟨f.currentTask, f.tick.toUInt64 * kTickMs, f.seq + 1,
      UInt32.ofNat (encode (frameRecords f raw)).length⟩, frameRecords f raw, ?_, rfl, rfl, rfl, ?_,
      frameRecords_perm hinv raw, hflush.dropSliceOverCap⟩
    · rw [hflush.published, reportOf, if_neg hne]
    · rw [UInt32.toNat_ofNat']
      omega
  · rw [hflush.published, reportOf, if_pos ((frameRecords_eq_nil hinv).mpr hnone)]

/-- `acquireBlock` fails for want of a region or of a slot. -/
theorem acquireBlock_isSome_iff (m : DataMemManager) (d : UInt16) (p : UInt32) (k : UInt64)
    (t : UInt32) : (m.acquireBlock d p k t).1.isSome = true ↔
      ∃ r, findRegion m.regions d p = some r ∧
        ¬ ∀ i, r.slots.used i = true ∧ r.slots.keys i ≠ k := by
  cases hr : findRegion m.regions d p with
  | none => simp [DataMemManager.acquireBlock, hr]
  | some r =>
    simp only [DataMemManager.acquireBlock, hr, Option.some.injEq, exists_eq_left']
    rw [← ProbeTable.scan_eq_none_iff (r.start k)]
    cases hs : r.slots.scan (r.start k) k with
    | none => simp
    | some i =>
      simp only [reduceCtorEq, not_false_eq_true, iff_true]
      split <;> rfl

/-- A measurement object that has got a block gets one again. -/
theorem acquireBlock_again {m m' : DataMemManager} {d : UInt16} {p : UInt32} {k : UInt64}
    {t : UInt32} (h : (m.acquireBlock d p k t).1.isSome = true)
    (hm : m'.regions = (m.acquireBlock d p k t).2.regions) (t' : UInt32) :
    (m'.acquireBlock d p k t').1.isSome = true := by
  obtain ⟨r, hr, hroom⟩ := (acquireBlock_isSome_iff m d p k t).mp h
  rw [← ProbeTable.scan_eq_none_iff (r.start k)] at hroom
  obtain ⟨i, hi⟩ := Option.ne_none_iff_exists'.mp hroom
  have hstop := (ProbeTable.scan_eq_some_iff.mp hi).choose_spec.2.1
  refine (acquireBlock_isSome_iff m' d p k t').mpr ?_
  simp only [DataMemManager.acquireBlock, hr, hi] at hm
  by_cases hused : r.slots.used i = true
  · simp only [hused, if_true] at hm
    refine ⟨r, by rw [hm, hr], fun hall => (hall i).2 ?_⟩
    simpa [ProbeTable.stops, hused] using hstop
  · simp only [hused, Bool.false_eq_true, if_false] at hm
    have hfor : r.isFor d p = true := findRegion_isFor hr
    refine ⟨{ r with slots := r.slots.occupy i k }, ?_, fun hall => (hall i).2 ?_⟩
    · rw [hm]
      exact findRegion_replace hr hfor
    · exact Function.update_self i k r.slots.keys

/-- The next frame of the object gets as far as `flush` too. -/
theorem reaches_again {b : Bypass} (h : FactoryInv b f) {raw raw' : RawFrame} {dataType : UInt16}
    (hr : Reaches f raw dataType)
    (hkey : extractRawKey dataType raw' = extractRawKey dataType raw) (us : UInt64) :
    Reaches (f.process raw dataType us).2 raw' dataType := by
  obtain ⟨-, hflush, hg⟩ := process_of_reaches h hr us
  obtain ⟨hfull, hsink, htask, hblock⟩ := hr
  refine ⟨hg.bypass.trans (h.bypass.symm.trans hfull), hflush.sink.trans hsink,
    by rw [hflush.currentTask]; exact htask, ?_⟩
  rw [hkey]
  exact acquireBlock_again hblock hflush.regions _

/-- A frame of the bytes 1, 2, 3, ... -/
def numberedFrame (len : UInt32) : RawFrame where
  data := some ((List.range len.toNat).map fun i => UInt8.ofNat (i + 1))
  len := len
  readable := by
    intro bs hbs
    cases hbs
    rw [List.length_map, List.length_range]

/-- A factory right after assembly that got task 7. -/
def readyFactory : DataFactory :=
  (DataFactory.assemble (fun _ => 4096) (fun _ => 0) (initExtractors []) .FULL kFrameBudgetWarnUs
    kFrameBudgetAlarmUs).onTask 7

theorem readyFactory_reachable : Reachable factoryStep
    (DataFactory.assemble (fun _ => 4096) (fun _ => 0) (initExtractors []) .FULL kFrameBudgetWarnUs
      kFrameBudgetAlarmUs) readyFactory :=
  (Reachable.refl _).tail (a := FactoryOp.task 7) rfl

/-- All slots are free, so every key gets a block. -/
theorem readyFactory_block (key : UInt64) : (readyFactory.mem.acquireBlock DataType.CELL.code
    kPeriod1S key readyFactory.tick).1.isSome = true := by
  refine (acquireBlock_isSome_iff _ _ _ _ _).mpr ⟨_, findRegion_init _ _, ?_⟩
  intro h
  exact Bool.false_ne_true (h (⟨0, by decide⟩ : Fin kCellSlotCap)).1

theorem reachable_process {f₀ : DataFactory} (h : Reachable factoryStep f₀ f) (raw : RawFrame)
    (dataType : UInt16) (us : UInt64) :
    Reachable factoryStep f₀ (f.process raw dataType us).2 :=
  h.tail (a := FactoryOp.process raw dataType us) rfl

/-- 177 bytes hold the first slice and nothing else, and the next frame of the cell holds more. -/
theorem process_report_second : ∃ (hdr : ReportHeader) (recs : List Record),
    ((readyFactory.process (numberedFrame 177) DataType.CELL.code 0).2.process (numberedFrame 1000)
      DataType.CELL.code 0).1 = some (hdr.bytes [0, 0, 0, 0] ++ encode recs) ∧ hdr.taskId = 7 ∧
    ⟨1, sliceOf (numberedFrame 1000) 1⟩ ∈ recs ∧ ⟨10, sliceOf (numberedFrame 1000) 10⟩ ∈ recs := by
  have hinv := factoryInv_of_reachable (List.Perm.refl _) readyFactory_reachable
  have hkey : extractRawKey DataType.CELL.code (numberedFrame 1000) =
      extractRawKey DataType.CELL.code (numberedFrame 177) := by decide +kernel
  have hready : Reaches readyFactory (numberedFrame 177) DataType.CELL.code :=
    ⟨rfl, rfl, by decide, readyFactory_block _⟩
  have hagain := reaches_again hinv hready hkey 0
  have htask := (process_of_reaches hinv hready 0).2.1.currentTask
  have hserved := reachable_process readyFactory_reachable (numberedFrame 177) DataType.CELL.code 0
  generalize (readyFactory.process (numberedFrame 177) DataType.CELL.code 0).2 = served
    at hagain htask hserved ⊢
  obtain ⟨hdr, recs, hpub, hdr_task, -, -, -, hrecs, -⟩ := (process_report (List.Perm.refl _)
    hserved hagain.2.1 hagain.2.2.1 (numberedFrame 1000) 0 hagain.2.2.2).1
      (exists_fits_iff.mpr ⟨rfl, by decide⟩)
  have hrecord (id : UInt16) (hid : id ∈ cellDataIds ∧ Fits (numberedFrame 1000) id) :
      ⟨id, sliceOf (numberedFrame 1000) id⟩ ∈ recs :=
    hrecs.mem_iff.mpr (List.mem_map_of_mem (List.mem_filter.mpr ⟨hid.1, decide_eq_true hid.2⟩))
  exact ⟨hdr, recs, hpub, hdr_task.trans htask,
    hrecord 1 ⟨mem_cellDataIds.mpr (by decide), by decide⟩,
    hrecord 10 ⟨mem_cellDataIds.mpr (by decide), by decide⟩⟩

/-! ## No silent loss -/

/-- All slots of the region of the data type are held by other measurement objects. -/
def PoolFull (f : DataFactory) (raw : RawFrame) (dataType : UInt16) : Prop :=
  ∃ r, findRegion f.mem.regions dataType kPeriod1S = some r ∧
    ∀ i, r.slots.used i = true ∧ r.slots.keys i ≠ extractRawKey dataType raw

/--
A call publishes a report and counts a frame, or publishes nothing and counts one drop; and it
counts a full pool only when the pool is full.
-/
def NoSilentLoss (f : DataFactory) (raw : RawFrame) (dataType : UInt16) (us : UInt64) : Prop :=
  let before := f.statsSnapshot
  let after := (f.process raw dataType us).2.statsSnapshot
  (((f.process raw dataType us).1.isSome = true ∧ after.frames = before.frames + 1) ∨
    ((f.process raw dataType us).1 = none ∧
      ((after.dropPoolFull = before.dropPoolFull + 1 ∧
          after.dropSliceOverCap = before.dropSliceOverCap) ∨
        (after.dropPoolFull = before.dropPoolFull ∧
          after.dropSliceOverCap = before.dropSliceOverCap + 1)))) ∧
  (after.dropPoolFull ≠ before.dropPoolFull → PoolFull f raw dataType)

/-- The region of the data type exists, and the pool is full or some registered slice fits. -/
def Accountable (f : DataFactory) (raw : RawFrame) (dataType : UInt16) : Prop :=
  (findRegion f.mem.regions dataType kPeriod1S).isSome = true ∧
    (PoolFull f raw dataType ∨ ∃ s ∈ f.reg, Fits raw s.dataId)

theorem ne_add_one (x : UInt64) : x ≠ x + 1 := by
  intro h
  have := congrArg UInt64.toNat h
  have hlt := x.toNat_lt
  rw [UInt64.toNat_add, UInt64.toNat_one] at this
  omega

/-- A call that finds no block counts a full pool. -/
theorem processFrame_of_no_block {raw : RawFrame} {dataType : UInt16} (us : UInt64)
    (hnone : (f.mem.acquireBlock dataType kPeriod1S (extractRawKey dataType raw) f.tick).1 = none) :
    (f.processFrame raw dataType us).1 = none ∧
      (f.processFrame raw dataType us).2.statsSnapshot.dropPoolFull
        = f.statsSnapshot.dropPoolFull + 1 ∧
      (f.processFrame raw dataType us).2.statsSnapshot.dropSliceOverCap
        = f.statsSnapshot.dropSliceOverCap := by
  obtain ⟨n, hcount⟩ := countKey_eq f (extractRawKey dataType raw)
  simp only [DataFactory.processFrame, hcount]
  generalize f.mem.acquireBlock dataType kPeriod1S (extractRawKey dataType raw) f.tick = res
    at hnone ⊢
  obtain ⟨res, m⟩ := res
  subst hnone
  exact ⟨rfl, rfl, rfl⟩

/--
**Accounting of frames.** With a sink and a task, a call accounts for its frame exactly when the
region of the data type exists and the pool is full or some slice fits.
-/
theorem noSilentLoss_iff {alloc : Nat → Nat} {mem : Mem} {reg : ExtractorRegistry}
    {warnUs alarmUs : UInt64} (hreg : reg.Perm (initExtractors []))
    (hf : Reachable factoryStep (DataFactory.assemble alloc mem reg .FULL warnUs alarmUs) f)
    (hsink : f.sink = true) (htask : f.currentTask ≠ 0) (raw : RawFrame) (dataType : UInt16)
    (us : UInt64) : NoSilentLoss f raw dataType us ↔ Accountable f raw dataType := by
  have hinv := factoryInv_of_reachable hreg hf
  have hfits : (∃ s ∈ f.reg, Fits raw s.dataId) ↔ frameRecords f raw ≠ [] := by
    rw [Ne, frameRecords, fitting_eq_nil, regIds]
    simp
  by_cases hblock : (f.mem.acquireBlock dataType kPeriod1S (extractRawKey dataType raw)
      f.tick).1.isSome = true
  · -- a block is found: the call reaches `flush`
    obtain ⟨r, hr, hroom⟩ := (acquireBlock_isSome_iff _ _ _ _ _).mp hblock
    have hnotFull : ¬ PoolFull f raw dataType := by
      rintro ⟨r', hr', hall⟩
      rw [hr] at hr'
      cases hr'
      exact hroom hall
    have hflush := (process_of_reaches hinv ⟨hinv.bypass, hsink, htask, hblock⟩ us).2.1
    have hpool : (f.process raw dataType us).2.statsSnapshot.dropPoolFull
        = f.statsSnapshot.dropPoolFull := hflush.dropPoolFull
    unfold NoSilentLoss Accountable
    simp only [hflush.dropSliceOverCap, hpool, hr, Option.isSome_some, hnotFull, false_or, true_and,
      hfits, ne_eq, not_true_eq_false, false_implies, and_true, ne_add_one, and_false,
      or_false, hflush.published, reportOf]
    by_cases hrecs : frameRecords f raw = []
    · simp [hrecs]
    · simp only [hrecs, if_false, Option.isSome_some, not_false_eq_true, true_and, iff_true]
      exact hflush.frames
  · -- no block: `dropPoolFull` is counted
    rw [Option.not_isSome_iff_eq_none] at hblock
    obtain ⟨hpub, hpool, hslice⟩ := processFrame_of_no_block
      (f := { f with procCount := f.procCount + 1 }) us hblock
    rw [← process_eq_processFrame (by rw [hinv.bypass]; decide) hsink htask] at hpub hpool hslice
    -- with a region, a block is only refused when the pool is full
    have hsome : (findRegion f.mem.regions dataType kPeriod1S).isSome = true →
        PoolFull f raw dataType := by
      intro hregion
      obtain ⟨r, hr⟩ := Option.isSome_iff_exists.mp hregion
      refine ⟨r, hr, ?_⟩
      by_contra hroom
      have := (acquireBlock_isSome_iff f.mem dataType kPeriod1S (extractRawKey dataType raw)
        f.tick).mpr ⟨r, hr, hroom⟩
      rw [hblock] at this
      simp at this
    constructor
    · intro hlaw
      have hfull : PoolFull f raw dataType := hlaw.2 (by rw [hpool]; exact (ne_add_one _).symm)
      obtain ⟨r, hr, -⟩ := id hfull
      exact ⟨by rw [hr]; rfl, Or.inl hfull⟩
    · intro hacc
      exact ⟨Or.inr ⟨hpub, Or.inl ⟨hpool, hslice⟩⟩, fun _ => hsome hacc.1⟩

/-- A frame that holds the first slice is accounted for. -/
theorem noSilentLoss_first : NoSilentLoss readyFactory (numberedFrame 177) DataType.CELL.code 0 := by
  refine (noSilentLoss_iff (List.Perm.refl _) readyFactory_reachable rfl (by decide) _ _ _).mpr ?_
  have hfits : Fits (numberedFrame 177) 1 := by decide
  have hmem : cellExtractor 1 ∈ readyFactory.reg := by
    refine (List.Perm.of_eq initExtractors_nil).mem_iff.mpr ?_
    exact List.mem_map_of_mem (mem_cellDataIds.mpr (by decide))
  exact ⟨by rw [show readyFactory.mem = DataMemManager.init _ _ from rfl, findRegion_init]; rfl,
    Or.inr ⟨cellExtractor 1, hmem, hfits⟩⟩

/-- A call that reaches `flush` without a record changes no drop counter. -/
theorem not_noSilentLoss_of_empty {b : Bypass} (h : FactoryInv b f) {raw : RawFrame}
    {dataType : UInt16} (hr : Reaches f raw dataType) (hnil : frameRecords f raw = [])
    (us : UInt64) : ¬ NoSilentLoss f raw dataType us := by
  have hflush := (process_of_reaches h hr us).2.1
  have hpub := hflush.published
  rw [reportOf, if_pos hnil] at hpub
  rintro ⟨⟨hsome, -⟩ | ⟨-, ⟨hpool, -⟩ | ⟨-, hslice⟩⟩, -⟩
  · rw [hpub] at hsome
    exact Bool.false_ne_true hsome
  · exact ne_add_one _ (hflush.dropPoolFull.symm.trans hpool)
  · exact ne_add_one _ (hflush.dropSliceOverCap.symm.trans hslice)

/--
A frame of 16 bytes has a head but no slice: it is counted as processed, nothing is published and
no drop is counted.
-/
theorem not_noSilentLoss_short : ¬ NoSilentLoss readyFactory (numberedFrame 16) DataType.CELL.code 0 := by
  have hinv := factoryInv_of_reachable (List.Perm.refl _) readyFactory_reachable
  have hr : Reaches readyFactory (numberedFrame 16) DataType.CELL.code :=
    ⟨rfl, rfl, by decide, readyFactory_block _⟩
  refine not_noSilentLoss_of_empty hinv hr ((frameRecords_eq_nil hinv).mpr fun id hid hfit => ?_) 0
  exact absurd (exists_fits_iff.mp ⟨id, hid, hfit⟩).2 (by decide)

end

end Dts.Data
