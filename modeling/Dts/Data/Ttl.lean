import Dts.Data.FactoryRun
import Dts.Data.Layout

/-!
# Expiry of blocks

A block that has not been acquired for `kTtlPeriods` periods is released by `onTick`. The counter
`tick` and the stamps `lastTick` have 32 bits, and the slices of every frame are written right
behind the stamps.

`Timed` counts the `onTick` calls without a bound and remembers at which count each block was last
acquired. `TtlLaw` says that the slots follow these true times, and `ttlLaw_of_run` proves it for
every run of the factory.
-/

namespace Dts.Data

open Infra

/-! ## True times -/

/-- The factory, the number of `onTick` calls, and the number at which a block was last acquired. -/
structure Timed where
  factory : DataFactory
  now : ℕ
  refreshed : Nat → Option ℕ

/-- The block that `acquireBlock` returns in a call of `process`, if the call gets that far. -/
def acquiredBlock (f : DataFactory) (raw : RawFrame) (dataType : UInt16) : Option Nat :=
  if f.bypass = .RECV ∨ f.sink = false ∨ f.currentTask = 0 then none
  else (f.mem.acquireBlock dataType kPeriod1S (extractRawKey dataType raw) f.tick).1

def timedStep (s : Timed) (op : FactoryOp) : Option Timed :=
  (factoryStep s.factory op).map fun f =>
    match op with
    | .process raw dataType _ =>
      match acquiredBlock s.factory raw dataType with
      | some block => ⟨f, s.now, Function.update s.refreshed block (some s.now)⟩
      | none => ⟨f, s.now, s.refreshed⟩
    | .tick => ⟨f, s.now + 1, s.refreshed⟩
    | _ => ⟨f, s.now, s.refreshed⟩

/-- The stamp in the head of a block. -/
def lastTickAt (mem : Mem) (r : RegionDesc) (i : Nat) : UInt32 :=
  UInt32.ofNat (leNat (mem.load (r.blockAt i + CacheHead.lastTickOff) 4))

def ttl (r : RegionDesc) : UInt32 := kTtlPeriods * r.periodTicks

/-- **The slots follow the true times.** -/
structure TtlLaw (s : Timed) : Prop where
  /-- the counter wraps -/
  clock : s.factory.tick = UInt32.ofNat s.now
  /-- the stamp of a block is the tick at which it was last acquired -/
  stamp : ∀ r ∈ s.factory.mem.regions, ∀ i : Fin r.slotCap, ∀ a,
    s.refreshed (r.blockAt i) = some a → lastTickAt s.factory.mem.mem r i = UInt32.ofNat a
  /-- a block acquired at `a` survives up to `a + ttl` and is gone at `a + ttl + 1` -/
  used_iff : ∀ r ∈ s.factory.mem.regions, ∀ i : Fin r.slotCap, r.slots.used i = true ↔
    ∃ a, s.refreshed (r.blockAt i) = some a ∧ s.now ≤ a + (ttl r).toNat
  /-- the same in 32 bits, for a block that was acquired and that no earlier `onTick` released -/
  modular : ∀ r ∈ s.factory.mem.regions, ∀ i : Fin r.slotCap, r.slots.used i = true ↔
    (∃ a, s.refreshed (r.blockAt i) = some a ∧ s.now - 1 ≤ a + (ttl r).toNat) ∧
      s.factory.tick - lastTickAt s.factory.mem.mem r i ≤ ttl r

/-! ## 32-bit distances -/

/-- The distance of two counts that the counter shows. -/
theorem ofNat_sub_ofNat {n a : ℕ} (h : a ≤ n) :
    UInt32.ofNat n - UInt32.ofNat a = UInt32.ofNat (n - a) := by
  rw [← UInt32.toNat_inj, UInt32.toNat_sub]
  simp only [UInt32.toNat_ofNat']
  omega

/-- A distance of less than a full turn is the true one. -/
theorem ofNat_sub_le_iff {n a : ℕ} {t : UInt32} (h : a ≤ n) (hturn : n - a < 2 ^ 32) :
    UInt32.ofNat n - UInt32.ofNat a ≤ t ↔ n ≤ a + t.toNat := by
  rw [ofNat_sub_ofNat h, UInt32.le_iff_toNat_le, UInt32.toNat_ofNat', Nat.mod_eq_of_lt hturn]
  omega

/-! ## The region -/

/-- The manager has the region of the cell table, whatever its slots. -/
def Shaped (pool : Nat) (m : DataMemManager) : Prop :=
  m.regions.map RegionDesc.blank = [cellRegion pool]

-- stated for any layout: the kernel must not compute the one of the cell table
theorem blank_of_layout (lay : UInt32 × List (UInt16 × UInt32)) (pool : Nat) :
    RegionDesc.blank ⟨DataType.CELL.code, kPeriod1S, kCellSlotCap, lay.1, pool,
      kCellSlotCap * lay.1.toNat, ⟨fun _ => false, fun _ => 0⟩, lay.2⟩ =
    ⟨DataType.CELL.code, kPeriod1S, kCellSlotCap, lay.1, pool,
      kCellSlotCap * lay.1.toNat, ⟨fun _ => false, fun _ => 0⟩, lay.2⟩ := rfl

theorem blank_cellRegion (pool : Nat) : (cellRegion pool).blank = cellRegion pool :=
  blank_of_layout cellLayout pool

theorem shaped_init (alloc : Nat → Nat) (mem : Mem) :
    Shaped (alloc 0) (DataMemManager.init alloc mem) := by
  rw [Shaped, init_regions, List.map_singleton, blank_cellRegion]

theorem Shaped.layoutLaw {pool : Nat} {m : DataMemManager} (h : Shaped pool m) :
    LayoutLaw (cellDataIds.map specOf) m := by
  have hinit := shaped_init (fun _ => pool) m.mem
  exact layoutLaw_of_blank (h.trans hinit.symm)

/-- What the proofs use of the region. -/
structure CellShape (pool : Nat) (r : RegionDesc) : Prop where
  blank : r.blank = cellRegion pool
  domain : r.domain = DataType.CELL.code
  periodTicks : r.periodTicks = kPeriod1S
  blockSize : 24 ≤ r.blockSize.toNat

theorem Shaped.exists_region {pool : Nat} {m : DataMemManager} (h : Shaped pool m) :
    ∃ r, m.regions = [r] ∧ CellShape pool r := by
  obtain ⟨r, hm, hblank⟩ := List.map_eq_singleton_iff.mp h
  refine ⟨r, hm, hblank, ?_, ?_, ?_⟩
  · show r.blank.domain = _
    rw [hblank, cellRegion]
  · show r.blank.periodTicks = _
    rw [hblank, cellRegion]
  · show 24 ≤ r.blank.blockSize.toNat
    rw [hblank, cellRegion_blockSize]
    omega

theorem CellShape.ttl {pool : Nat} {r : RegionDesc} (h : CellShape pool r) :
    (Dts.Data.ttl r).toNat = 30 := by
  rw [Dts.Data.ttl, h.periodTicks]
  decide

theorem CellShape.serves {pool : Nat} {r : RegionDesc} (h : CellShape pool r) {id : UInt16}
    (hid : id ∈ cellDataIds) : r.serves (specOf id) = true := by
  rw [specOf_of_mem hid]
  simp [RegionDesc.serves, RegionDesc.isFor, h.domain, h.periodTicks, kPeriod1S]

/-! ## Stamps -/

/-- The heads of the blocks of `r` are the same. -/
def HeadsKept (r : RegionDesc) (mem mem' : Mem) : Prop :=
  ∀ i < r.slotCap, ∀ off n, off + n ≤ sizeofCacheHead.toNat →
    mem'.load (r.blockAt i + off) n = mem.load (r.blockAt i + off) n

theorem HeadsKept.lastTickAt {r : RegionDesc} {mem mem' : Mem} (h : HeadsKept r mem mem')
    {i : Nat} (hi : i < r.slotCap) : lastTickAt mem' r i = Dts.Data.lastTickAt mem r i := by
  rw [Dts.Data.lastTickAt, Dts.Data.lastTickAt, h i hi CacheHead.lastTickOff 4 (by decide)]

theorem lastTickAt_store_same (mem : Mem) (r : RegionDesc) (i : Nat) (t : UInt32) :
    lastTickAt (mem.store (r.blockAt i + CacheHead.lastTickOff) (leBytes 4 t.toNat)) r i = t := by
  rw [lastTickAt, Mem.load_store_eq (length_leBytes _ _), ofNat_leNat_u32]

/-- A store into the head of one block does not reach the stamp of another. -/
theorem lastTickAt_store_ne {mem : Mem} {r : RegionDesc} (hsize : 24 ≤ r.blockSize.toNat)
    {i j : Nat} (hij : i ≠ j) {off : Nat} {bs : Bytes} (hoff : off + bs.length ≤ 20) :
    lastTickAt (mem.store (r.blockAt i + off) bs) r j = lastTickAt mem r j := by
  rw [lastTickAt, lastTickAt, CacheHead.lastTickOff, Mem.load_store_disjoint]
  have hstore : off + bs.length ≤ r.blockSize.toNat := by omega
  have hstamp : 12 + 4 ≤ r.blockSize.toNat := by omega
  simp only [RegionDesc.blockAt]
  rcases Nat.lt_or_gt_of_ne hij with h | h
  · have := stride_le hstore h
    omega
  · have := stride_le hstamp h
    omega

/-- What `acquireBlock` does when it returns a block: the slot of the block. -/
structure Acquires (m : DataMemManager) (r : RegionDesc) (t : UInt32) (i : Fin r.slotCap)
    (res : Option Nat × DataMemManager) : Prop where
  block : res.1 = some (r.blockAt i)
  region : ∃ keys, res.2.regions =
    [{ r with slots := ⟨Function.update r.slots.used i true, keys⟩ }]
  stamp : lastTickAt res.2.mem r i = t
  others : ∀ j, i.val ≠ j → lastTickAt res.2.mem r j = lastTickAt m.mem r j

/-- **`acquireBlock`** returns nothing and changes nothing, or stamps the block it returns. -/
theorem acquireBlock_acquires {m : DataMemManager} {r : RegionDesc} (hm : m.regions = [r])
    (hsize : 24 ≤ r.blockSize.toNat) (d : UInt16) (p : UInt32) (k : UInt64) (t : UInt32) :
    m.acquireBlock d p k t = (none, m) ∨ ∃ i, Acquires m r t i (m.acquireBlock d p k t) := by
  cases hr : findRegion m.regions d p with
  | none =>
    simp only [DataMemManager.acquireBlock, hr]
    exact Or.inl trivial
  | some r' =>
    cases findRegion_cell hm hr
    have hfor : r.isFor d p = true := findRegion_isFor hr
    cases hs : r.slots.scan (r.start k) k with
    | none =>
      simp only [DataMemManager.acquireBlock, hr, hs]
      exact Or.inl trivial
    | some i =>
      simp only [DataMemManager.acquireBlock, hr, hs]
      right
      refine ⟨i, ?_⟩
      have hlen : CacheHead.lastTickOff + (leBytes 4 t.toNat).length ≤ 20 := by
        rw [length_leBytes]
        decide
      by_cases hused : r.slots.used i = true
      · -- the key is found, and only the stamp changes
        simp only [hused, if_true]
        have hself : Function.update r.slots.used i true = r.slots.used := by
          rw [← hused, Function.update_eq_self]
        constructor
        case block => rfl
        case region => exact ⟨r.slots.keys, by rw [hself]; exact hm⟩
        case stamp => exact lastTickAt_store_same _ _ _ _
        case others => exact fun j hj => lastTickAt_store_ne hsize hj hlen
      · -- a free slot is taken, and the whole head is written
        simp only [hused, Bool.false_eq_true, if_false]
        constructor
        case block => rfl
        case region =>
          refine ⟨Function.update r.slots.keys i k, ?_⟩
          show updateRegion d p _ m.regions = _
          rw [hm, updateRegion, if_pos hfor]
          rfl
        case stamp => exact lastTickAt_store_same _ _ _ _
        case others =>
          intro j hj
          rw [lastTickAt_store_ne hsize hj hlen,
            lastTickAt_store_ne hsize hj (by rw [length_leBytes]; decide),
            lastTickAt_store_ne hsize hj (by rw [length_leBytes]; decide)]

/-! ## Cutting a frame -/

/-- One state of the manager and a later one, with no call of the hash table in between. -/
structure SlicesOnly (m m' : DataMemManager) : Prop where
  regions : m'.regions = m.regions
  heads : ∀ r ∈ m.regions, HeadsKept r m.mem m'.mem

theorem SlicesOnly.refl (m : DataMemManager) : SlicesOnly m m :=
  ⟨rfl, fun _ _ _ _ _ _ _ => rfl⟩

theorem SlicesOnly.trans {m₁ m₂ m₃ : DataMemManager} (h : SlicesOnly m₁ m₂)
    (h' : SlicesOnly m₂ m₃) : SlicesOnly m₁ m₃ := by
  refine ⟨h'.regions.trans h.regions, ?_⟩
  intro r hr i hi off n hle
  have hr' : r ∈ m₂.regions := by rwa [h.regions]
  rw [h'.heads r hr' i hi off n hle, h.heads r hr i hi off n hle]

/-- The slice of a dataId goes between the heads. -/
theorem slicesOnly_cutSlice {pool : Nat} {c : Cut} {r : RegionDesc} (hm : c.mem.regions = [r])
    (hr : CellShape pool r) {i : Nat} (hi : i < r.slotCap) (raw : RawFrame) {id : UInt16}
    (hid : id ∈ cellDataIds) :
    SlicesOnly c.mem (cutSlice (r.blockAt i) raw c (cellExtractor id)).mem := by
  by_cases hfit : Fits raw id
  · have hshaped : Shaped pool c.mem := by rw [Shaped, hm, List.map_singleton, hr.blank]
    have hlaw := hshaped.layoutLaw
    have hmem : r ∈ c.mem.regions := by rw [hm]; exact List.mem_singleton_self r
    have hspec : specOf id ∈ cellDataIds.map specOf := List.mem_map_of_mem hid
    have hdataId : (specOf id).dataId = id := by rw [specOf_of_mem hid]
    obtain ⟨a, ha, -, -⟩ := hlaw.within r hmem i hi (specOf id) hspec (hr.serves hid)
    have hheads := hlaw.heads r hmem i hi (specOf id) hspec (hr.serves hid) a ha
    rw [hdataId] at ha
    rw [cutSlice_of_fits hid hfit ha]
    refine ⟨rfl, ?_⟩
    intro r' hr' j hj off n hle
    have hlen := length_sliceOf hfit
    refine Mem.load_store_disjoint ?_
    rcases hheads r' hr' j hj with h | h
    · omega
    · omega
  · rw [cutSlice_of_short hid hfit]
    exact SlicesOnly.refl _

/-- So do the slices of a whole frame. -/
theorem slicesOnly_foldl {pool : Nat} {r : RegionDesc} (hr : CellShape pool r) {i : Nat}
    (hi : i < r.slotCap) (raw : RawFrame) : ∀ (ids : List UInt16) (c : Cut),
    (∀ id ∈ ids, id ∈ cellDataIds) → c.mem.regions = [r] →
    SlicesOnly c.mem ((ids.map cellExtractor).foldl (cutSlice (r.blockAt i) raw) c).mem
  | [], c, _, _ => SlicesOnly.refl c.mem
  | id :: ids, c, hids, hm => by
    have hone := slicesOnly_cutSlice hm hr hi raw (hids id List.mem_cons_self)
    rw [List.map_cons, List.foldl_cons]
    exact hone.trans (slicesOnly_foldl hr hi raw ids _
      (fun x hx => hids x (List.mem_cons_of_mem _ hx)) (hone.regions.trans hm))

/-! ## One call of `process` -/

section

variable {b : Bypass} {f : DataFactory} {raw : RawFrame} {dataType : UInt16}

theorem cutAndFlush_mem (f : DataFactory) (raw : RawFrame) (dataType : UInt16) (us ts : UInt64)
    (block : Nat) :
    (f.cutAndFlush raw dataType us ts block).2.mem =
      (f.reg.forEachByDomain dataType (cutSlice block raw)
        ⟨f.mem, f.agg.beginFrame f.currentTask, f.forEachTotal⟩).mem := by
  simp only [DataFactory.cutAndFlush]
  split
  · rfl
  · rfl

/-- Without a block nothing happens to the memory. -/
theorem process_of_none (hnone : acquiredBlock f raw dataType = none)
    (hmiss : ∀ t, (f.mem.acquireBlock dataType kPeriod1S (extractRawKey dataType raw) t).1 = none →
      (f.mem.acquireBlock dataType kPeriod1S (extractRawKey dataType raw) t).2 = f.mem)
    (us : UInt64) :
    (f.process raw dataType us).2.mem = f.mem := by
  simp only [DataFactory.process]
  by_cases hrecv : f.bypass = .RECV
  · rw [if_pos hrecv]
  · rw [if_neg hrecv]
    by_cases hsink : f.sink = true
    · rw [if_neg (by simp [hsink])]
      by_cases htask : f.currentTask = 0
      · rw [if_pos (by simp [htask])]
      · rw [if_neg (by simpa using htask)]
        rw [acquiredBlock, if_neg (by simp [hrecv, hsink, htask])] at hnone
        have hmem := hmiss f.tick hnone
        obtain ⟨n, hcount⟩ := countKey_eq { f with procCount := f.procCount + 1 }
          (extractRawKey dataType raw)
        simp only [DataFactory.processFrame, hcount]
        generalize f.mem.acquireBlock dataType kPeriod1S (extractRawKey dataType raw) f.tick = res
          at hnone hmem ⊢
        obtain ⟨res, mem⟩ := res
        subst hnone hmem
        rfl
    · rw [if_pos (by simpa using hsink)]

/-- **With a block, the slices of the frame are written.** -/
theorem process_of_some {block : Nat} (hsome : acquiredBlock f raw dataType = some block)
    (us : UInt64) :
    (f.process raw dataType us).2.mem =
      (f.reg.forEachByDomain dataType (cutSlice block raw)
        ⟨(f.mem.acquireBlock dataType kPeriod1S (extractRawKey dataType raw) f.tick).2,
          f.agg.beginFrame f.currentTask, f.forEachTotal⟩).mem := by
  rw [acquiredBlock] at hsome
  split at hsome
  · simp at hsome
  · next hgo =>
    rw [not_or, not_or, Bool.not_eq_false] at hgo
    rw [process_eq_processFrame hgo.1 hgo.2.1 hgo.2.2]
    obtain ⟨n, hcount⟩ := countKey_eq { f with procCount := f.procCount + 1 }
      (extractRawKey dataType raw)
    simp only [DataFactory.processFrame, hcount]
    generalize f.mem.acquireBlock dataType kPeriod1S (extractRawKey dataType raw) f.tick = res
      at hsome ⊢
    obtain ⟨res, mem⟩ := res
    subst hsome
    exact cutAndFlush_mem _ _ _ _ _ _

end

/-! ## The invariant -/

/-- The slots of region `r` at the true time `s.now`. -/
structure SlotsInv (s : Timed) (r : RegionDesc) : Prop where
  past : ∀ (i : Fin r.slotCap) (a : ℕ), s.refreshed (r.blockAt i) = some a → a ≤ s.now
  stamp : ∀ (i : Fin r.slotCap) (a : ℕ), s.refreshed (r.blockAt i) = some a →
    lastTickAt s.factory.mem.mem r i = UInt32.ofNat a
  used_iff : ∀ i : Fin r.slotCap, r.slots.used i = true ↔
    ∃ a, s.refreshed (r.blockAt i) = some a ∧ s.now ≤ a + 30

/-- Holds of the factory and the true times from assembly on. -/
structure TimedInv (b : Bypass) (pool : Nat) (s : Timed) : Prop where
  factory : FactoryInv b s.factory
  clock : s.factory.tick = UInt32.ofNat s.now
  slots : ∃ r, s.factory.mem.regions = [r] ∧ CellShape pool r ∧ SlotsInv s r

section

variable {b : Bypass} {pool : Nat} {s : Timed}

theorem ttlLaw_of_inv (h : TimedInv b pool s) : TtlLaw s := by
  obtain ⟨r₀, hm, hshape, hslots⟩ := h.slots
  have hone : ∀ r ∈ s.factory.mem.regions, r = r₀ := by
    intro r hr
    rwa [hm, List.mem_singleton] at hr
  constructor
  case clock => exact h.clock
  case stamp =>
    intro r hr
    obtain rfl := hone r hr
    exact hslots.stamp
  case used_iff =>
    intro r hr
    obtain rfl := hone r hr
    rw [hshape.ttl]
    exact hslots.used_iff
  case modular =>
    intro r hr i
    obtain rfl := hone r hr
    rw [hslots.used_iff, hshape.ttl]
    constructor
    · rintro ⟨a, ha, hle⟩
      have hpast := hslots.past i a ha
      refine ⟨⟨a, ha, by omega⟩, ?_⟩
      rw [h.clock, hslots.stamp i a ha, ofNat_sub_le_iff hpast (by omega), hshape.ttl]
      exact hle
    · rintro ⟨⟨a, ha, hheld⟩, hmod⟩
      have hpast := hslots.past i a ha
      rw [h.clock, hslots.stamp i a ha, ofNat_sub_le_iff hpast (by omega), hshape.ttl] at hmod
      exact ⟨a, ha, hmod⟩

theorem timedInv_assemble (alloc : Nat → Nat) (mem : Mem) {reg : ExtractorRegistry}
    (hreg : reg.Perm (initExtractors [])) (bypass : Bypass) (warnUs alarmUs : UInt64) :
    TimedInv bypass (alloc 0)
      ⟨DataFactory.assemble alloc mem reg bypass warnUs alarmUs, 0, fun _ => none⟩ := by
  refine ⟨factoryInv_assemble alloc mem hreg bypass warnUs alarmUs, rfl, ?_⟩
  have hinit : (DataFactory.assemble alloc mem reg bypass warnUs alarmUs).mem.regions =
      [cellRegion (alloc 0)] := init_regions alloc mem
  obtain ⟨r, hm, hshape⟩ := (shaped_init alloc mem).exists_region
  refine ⟨r, hm, hshape, ?_⟩
  have hr : r = cellRegion (alloc 0) := List.singleton_inj.mp (hm.symm.trans hinit)
  subst hr
  constructor
  · intro i a ha
    simp at ha
  · intro i a ha
    simp at ha
  · intro i
    constructor
    · intro hused
      exact absurd hused Bool.false_ne_true
    · rintro ⟨a, ha, -⟩
      simp at ha

/-! ## Steps -/

/-- An operation that touches neither the clock nor the memory. -/
theorem TimedInv.of_mem {f : DataFactory} (h : TimedInv b pool s) (hf : FactoryInv b f)
    (hmem : f.mem = s.factory.mem) (htick : f.tick = s.factory.tick) :
    TimedInv b pool ⟨f, s.now, s.refreshed⟩ := by
  obtain ⟨r, hm, hshape, hslots⟩ := h.slots
  refine ⟨hf, htick.trans h.clock, r, (congrArg _ hmem).trans hm, hshape, hslots.past, ?_,
    hslots.used_iff⟩
  rw [hmem]
  exact hslots.stamp

/-- The tick releases the blocks that are too old and no others. -/
theorem timedInv_tick (h : TimedInv b pool s) :
    TimedInv b pool ⟨s.factory.onTick, s.now + 1, s.refreshed⟩ := by
  obtain ⟨r, hm, hshape, hslots⟩ := h.slots
  have hclock : s.factory.tick + 1 = UInt32.ofNat (s.now + 1) := by
    rw [h.clock, UInt32.ofNat_add]
    rfl
  refine ⟨factoryStep_inv .tick h.factory rfl, hclock, ?_⟩
  refine ⟨DataMemManager.evictRegion s.factory.mem.mem (s.factory.tick + 1) r, ?_, ?_, ?_⟩
  · show s.factory.mem.regions.map _ = _
    rw [hm, List.map_singleton]
  · exact ⟨hshape.blank, hshape.domain, hshape.periodTicks, hshape.blockSize⟩
  · constructor
    case past => exact fun i a ha => Nat.le_succ_of_le (hslots.past i a ha)
    case stamp => exact hslots.stamp
    case used_iff =>
      intro (i : Fin r.slotCap)
      show (r.slots.used i && !DataMemManager.expired s.factory.mem.mem r (s.factory.tick + 1) i)
        = true ↔ ∃ a, s.refreshed (r.blockAt i) = some a ∧ s.now + 1 ≤ a + 30
      have hexp : ∀ a, s.refreshed (r.blockAt i) = some a → s.now ≤ a + 30 →
          (DataMemManager.expired s.factory.mem.mem r (s.factory.tick + 1) i = false ↔
            s.now + 1 ≤ a + 30) := by
        intro a ha hle
        have hpast := hslots.past i a ha
        have hdist := ofNat_sub_le_iff (t := ttl r) (n := s.now + 1) (a := a) (by omega) (by omega)
        rw [hshape.ttl, ← hclock, ← hslots.stamp i a ha, ← UInt32.not_lt] at hdist
        rw [← hdist]
        exact decide_eq_false_iff_not
      rw [Bool.and_eq_true, Bool.not_eq_true', hslots.used_iff]
      constructor
      · rintro ⟨⟨a, ha, hle⟩, hkept⟩
        exact ⟨a, ha, (hexp a ha hle).mp hkept⟩
      · rintro ⟨a, ha, hle⟩
        have hle' : s.now ≤ a + 30 := Nat.le_of_succ_le hle
        exact ⟨⟨a, ha, hle'⟩, (hexp a ha hle').mpr hle⟩

/-- Acquiring a block at the current tick. -/
theorem SlotsInv.refresh {r : RegionDesc} (h : SlotsInv s r) (hsize : 24 ≤ r.blockSize.toNat)
    {i : Fin r.slotCap} {f : DataFactory} {keys : Fin r.slotCap → UInt64}
    (hstamp : lastTickAt f.mem.mem r i = UInt32.ofNat s.now)
    (hothers : ∀ j : Fin r.slotCap, i ≠ j →
      lastTickAt f.mem.mem r j = lastTickAt s.factory.mem.mem r j) :
    SlotsInv ⟨f, s.now, Function.update s.refreshed (r.blockAt i) (some s.now)⟩
      { r with slots := ⟨Function.update r.slots.used i true, keys⟩ } := by
  have hne : ∀ j : Fin r.slotCap, i ≠ j → r.blockAt j ≠ r.blockAt i := by
    intro j hij heq
    exact hij (Fin.ext (RegionDesc.blockAt_injective (by omega) heq).symm)
  have hself : ∀ a, Function.update s.refreshed (r.blockAt i) (some s.now) (r.blockAt i) = some a
      ↔ s.now = a := by
    intro a
    rw [Function.update_self, Option.some_inj]
  have hother : ∀ j : Fin r.slotCap, i ≠ j →
      Function.update s.refreshed (r.blockAt i) (some s.now) (r.blockAt j) =
        s.refreshed (r.blockAt j) := fun j hij => Function.update_of_ne (hne j hij) _ _
  constructor
  case past =>
    intro (j : Fin r.slotCap) a (ha : Function.update s.refreshed _ _ (r.blockAt j) = some a)
    show a ≤ s.now
    by_cases hij : i = j
    · subst hij
      exact ((hself a).mp ha).ge
    · rw [hother j hij] at ha
      exact h.past j a ha
  case stamp =>
    intro (j : Fin r.slotCap) a (ha : Function.update s.refreshed _ _ (r.blockAt j) = some a)
    show lastTickAt f.mem.mem r j = UInt32.ofNat a
    by_cases hij : i = j
    · subst hij
      rw [hstamp, (hself a).mp ha]
    · rw [hother j hij] at ha
      rw [hothers j hij, h.stamp j a ha]
  case used_iff =>
    intro (j : Fin r.slotCap)
    show Function.update r.slots.used i true j = true ↔
      ∃ a, Function.update s.refreshed _ _ (r.blockAt j) = some a ∧ s.now ≤ a + 30
    by_cases hij : i = j
    · subst hij
      rw [Function.update_self]
      exact ⟨fun _ => ⟨s.now, (hself _).mpr rfl, Nat.le_add_right _ _⟩, fun _ => rfl⟩
    · rw [Function.update_of_ne (Ne.symm hij), hother j hij]
      exact h.used_iff j

/-- A frame refreshes the block of its object and leaves the others as they are. -/
theorem timedInv_process (h : TimedInv b pool s) (raw : RawFrame) (dataType : UInt16) (us : UInt64)
    {t : Timed} (ht : timedStep s (.process raw dataType us) = some t) : TimedInv b pool t := by
  have hinv : FactoryInv b (s.factory.process raw dataType us).2 :=
    factoryStep_inv (.process raw dataType us) h.factory rfl
  obtain ⟨r, hm, hshape, hslots⟩ := h.slots
  have htick := tick_process s.factory us raw dataType
  have hacq := acquireBlock_acquires hm hshape.blockSize dataType kPeriod1S
    (extractRawKey dataType raw)
  simp only [timedStep, factoryStep, Option.map_some, Option.some_inj] at ht
  cases hblock : acquiredBlock s.factory raw dataType with
  | none =>
    simp only [hblock] at ht
    subst ht
    have hmem := process_of_none hblock (by
      intro t hnone
      rcases hacq t with he | ⟨i, he⟩
      · rw [he]
      · rw [he.block] at hnone
        simp at hnone) us
    exact h.of_mem hinv hmem htick
  | some block =>
    simp only [hblock] at ht
    subst ht
    have hmem := process_of_some hblock us
    have hres : (s.factory.mem.acquireBlock dataType kPeriod1S (extractRawKey dataType raw)
        s.factory.tick).1 = some block := by
      rw [acquiredBlock] at hblock
      split at hblock
      · simp at hblock
      · exact hblock
    obtain ⟨rfl, -⟩ := (acquireBlock_cell h.factory.mem dataType kPeriod1S
      (extractRawKey dataType raw) s.factory.tick).2 block hres
    rcases hacq s.factory.tick with he | ⟨i, he⟩
    · rw [he] at hres
      simp at hres
    · obtain ⟨keys, hregions⟩ := he.region
      obtain rfl : r.blockAt i = block := Option.some.inj (he.block.symm.trans hres)
      have hshape' : CellShape pool
          { r with slots := ⟨Function.update r.slots.used i true, keys⟩ } :=
        ⟨hshape.blank, hshape.domain, hshape.periodTicks, hshape.blockSize⟩
      -- the slices go between the heads, so the stamps are those that `acquireBlock` left
      have hcut := slicesOnly_foldl hshape' i.isLt raw (regIds s.factory)
        ⟨_, s.factory.agg.beginFrame s.factory.currentTask, s.factory.forEachTotal⟩
        (fun id hid => h.factory.mem_regIds.mp hid) hregions
      rw [ExtractorRegistry.forEachByDomain, h.factory.filter_reg] at hmem
      have hstamps := hcut.heads _ (by rw [hregions]; exact List.mem_singleton_self _)
      have hkept : ∀ j : Fin r.slotCap, lastTickAt
          (s.factory.process raw DataType.CELL.code us).2.mem.mem r j = lastTickAt
          (s.factory.mem.acquireBlock DataType.CELL.code kPeriod1S
            (extractRawKey DataType.CELL.code raw) s.factory.tick).2.mem r j := by
        intro j
        rw [hmem]
        exact hstamps.lastTickAt j.isLt
      refine ⟨hinv, htick.trans h.clock, _, (congrArg _ hmem).trans (hcut.regions.trans hregions),
        hshape', hslots.refresh hshape.blockSize ?_ ?_⟩
      · rw [hkept, he.stamp, h.clock]
      · intro j hij
        rw [hkept, he.others j (fun hval => hij (Fin.ext hval))]

/-- Every operation keeps the invariant. -/
theorem timedStep_inv {t : Timed} (op : FactoryOp) (h : TimedInv b pool s)
    (ht : timedStep s op = some t) : TimedInv b pool t := by
  cases op with
  | process raw dataType us => exact timedInv_process h raw dataType us ht
  | tick =>
    cases ht
    exact timedInv_tick h
  | task taskId =>
    cases ht
    exact h.of_mem (factoryStep_inv (.task taskId) h.factory rfl) rfl rfl
  | sink sink =>
    cases ht
    exact h.of_mem (factoryStep_inv (.sink sink) h.factory rfl) rfl rfl
  | budget warnUs alarmUs =>
    cases ht
    refine h.of_mem (factoryStep_inv (.budget warnUs alarmUs) h.factory rfl) ?_ ?_
    · unfold DataFactory.setBudget
      split <;> rfl
    · unfold DataFactory.setBudget
      split <;> rfl

end

/-! ## The law along runs -/

/--
**Expiry is exact.** In every run of the factory, of any length and with any frames, a slot is used
exactly as long as its block was acquired at most `ttl` ticks ago.
-/
theorem ttlLaw_of_run (alloc : Nat → Nat) (mem : Mem) (reg : ExtractorRegistry)
    (hreg : reg.Perm (initExtractors [])) (bypass : Bypass) (warnUs alarmUs : UInt64)
    (ops : List FactoryOp) :
    AllStates timedStep TtlLaw
      ⟨DataFactory.assemble alloc mem reg bypass warnUs alarmUs, 0, fun _ => none⟩ ops := by
  refine (allStates_iff_prefixes ops _).mpr ?_
  intro pre _ t ht
  have hstart := timedInv_assemble alloc mem hreg bypass warnUs alarmUs
  exact ttlLaw_of_inv (Reachable.invariant ⟨pre, ht⟩ hstart fun _ op _ => timedStep_inv op)

/-- A frame with the first slice only. -/
def headFrame : RawFrame where
  data := some (List.replicate 200 1)
  len := 200
  readable := by
    rintro _ ⟨⟩
    rw [List.length_replicate]
    decide

/-- A frame in the first tick, and 31 ticks after it. -/
theorem ttlLaw_of_run_expiry :
    AllStates timedStep TtlLaw
      ⟨DataFactory.assemble (fun _ => 4096) (fun _ => 0) (initExtractors []) .FULL 3000 5000, 0,
        fun _ => none⟩
      ([.task 1, .tick, .process headFrame 0 10] ++ List.replicate 31 .tick) :=
  ttlLaw_of_run _ _ _ (List.Perm.refl _) _ _ _ _

end Dts.Data
