import Dts.Data.Ids
import Dts.Infra.Probe

/-!
# Cache memory of the data thread

`data_mem_manager.cpp`. A hash region holds `slotCap` equal blocks, one for each measurement
object; a block is a `CacheHead` followed by the packed slices of the dataIds of the region.
Blocks are addresses into one flat memory, so that a `CacheHead*` is a number and `nullptr` is
`none`.

* `init` builds the regions of a spec table; `alloc i` is the address `operator new` returns for
  the pool of region `i`
* `acquireBlock`, `findBlock`, `evictExpired` are the hash table operations
* `slotOf` resolves a block and a dataId to the address of the slice
-/

namespace Dts.Data

open Infra

/-- `AlignUp`, in 32 bits. -/
def alignUp (v align : UInt32) : UInt32 := (v + align - 1) &&& ~~~(align - 1)

/-- A hash region. `slots` is the pair of vectors `used` / `keys`. -/
structure RegionDesc where
  domain : UInt16
  periodTicks : UInt32
  slotCap : Nat
  blockSize : UInt32
  pool : Nat
  poolSize : Nat
  slots : ProbeTable slotCap UInt64
  /-- Offset of each dataId in a block, latest entry first. -/
  slotOffset : List (UInt16 × UInt32)

namespace RegionDesc

/-- The address of a block. -/
def blockAt (r : RegionDesc) (idx : Nat) : Nat := r.pool + idx * r.blockSize.toNat

/-- The slot a key is looked for first. -/
def start (r : RegionDesc) (hashKey : UInt64) : Nat := hashKey.toNat % r.slotCap

/-- The region of a domain and a period. -/
def isFor (domain : UInt16) (periodTicks : UInt32) (r : RegionDesc) : Bool :=
  r.domain == domain && r.periodTicks == periodTicks

end RegionDesc

/-- `DataMemManager::Impl` together with the memory its pools lie in. -/
structure DataMemManager where
  regions : List RegionDesc
  fixedSlots : List (UInt16 × Nat × UInt32)
  mem : Mem

/-! ## Regions of a list -/

/-- The first one that fits. -/
def findRegion (regions : List RegionDesc) (domain : UInt16) (periodTicks : UInt32) :
    Option RegionDesc :=
  regions.find? (RegionDesc.isFor domain periodTicks)

/-- Write through the pointer that `findRegion` returned. -/
def updateRegion (domain : UInt16) (periodTicks : UInt32) (f : RegionDesc → RegionDesc) :
    List RegionDesc → List RegionDesc
  | [] => []
  | r :: rs =>
    if r.isFor domain periodTicks then f r :: rs
    else r :: updateRegion domain periodTicks f rs

/-! ## Init -/

/-- The region pushed for the first dataId of its kind. The head is aligned to 8. -/
def newRegion (s : DataIdSpec) : RegionDesc where
  domain := s.dataType
  periodTicks := s.periodTicks
  slotCap := kCellSlotCap
  blockSize := alignUp sizeofCacheHead 8
  pool := 0
  poolSize := 0
  slots := ⟨fun _ => false, fun _ => 0⟩
  slotOffset := []

/-- Append the slice of a dataId to the block layout. -/
def placeSlot (s : DataIdSpec) (r : RegionDesc) : RegionDesc :=
  { r with
    slotOffset := (s.dataId, r.blockSize) :: r.slotOffset
    blockSize := r.blockSize + s.cacheSize }

/-- One round of the region-building loop. -/
def addSpec (regions : List RegionDesc) (s : DataIdSpec) : List RegionDesc :=
  if !s.needCache then regions
  else
    let regions := match findRegion regions s.dataType s.periodTicks with
      | some _ => regions
      | none => regions ++ [newRegion s]
    updateRegion s.dataType s.periodTicks (placeSlot s) regions

/-- One round of the allocation loop. -/
def allocPool (alloc : Nat → Nat) (i : Nat) (r : RegionDesc) : RegionDesc :=
  { r with
    pool := alloc i
    poolSize := r.slotCap * r.blockSize.toNat
    slots := ⟨fun _ => false, fun _ => 0⟩ }

/-- `Init` over a spec table. -/
def initWith (specs : List DataIdSpec) (alloc : Nat → Nat) (mem : Mem) : DataMemManager where
  regions := (specs.foldl addSpec []).mapIdx (allocPool alloc)
  fixedSlots := []
  mem := mem

namespace DataMemManager

def init (alloc : Nat → Nat) (mem : Mem) : DataMemManager :=
  initWith (cellDataIds.map specOf) alloc mem

/-! ## The hash table -/

/--
Find or create the block of a key. A hit refreshes `lastTick`; a new block also gets its type and
period. `none` when the probe meets neither the key nor an unused slot.
-/
def acquireBlock (m : DataMemManager) (domain : UInt16) (periodTicks : UInt32) (hashKey : UInt64)
    (nowTick : UInt32) : Option Nat × DataMemManager :=
  match findRegion m.regions domain periodTicks with
  | none => (none, m)
  | some r =>
    match r.slots.scan (r.start hashKey) hashKey with
    | none => (none, m)
    | some idx =>
      let h := r.blockAt idx
      let setTick := fun (mem : Mem) =>
        mem.store (h + CacheHead.lastTickOff) (leBytes 4 nowTick.toNat)
      if r.slots.used idx then (some h, { m with mem := setTick m.mem })
      else
        let r' := { r with slots := r.slots.occupy idx hashKey }
        let mem := m.mem.store (h + CacheHead.typeOff) (leBytes 2 domain.toNat)
        let mem := mem.store (h + CacheHead.periodTicksOff) (leBytes 4 periodTicks.toNat)
        (some h, { m with
          regions := updateRegion domain periodTicks (fun _ => r') m.regions
          mem := setTick mem })

/-- Find only: neither created nor refreshed. -/
def findBlock (m : DataMemManager) (domain : UInt16) (periodTicks : UInt32) (hashKey : UInt64) :
    Option Nat :=
  match findRegion m.regions domain periodTicks with
  | none => none
  | some r => (r.slots.lookup (r.start hashKey) hashKey).map fun idx : Fin r.slotCap => r.blockAt idx

/-- The region whose pool a block pointer lies in. -/
def regionOf (m : DataMemManager) (block : Nat) : Option RegionDesc :=
  m.regions.find? fun r => r.pool ≤ block && block < r.pool + r.poolSize

/-- The place of a dataId in a block of a region. -/
def slotOf (m : DataMemManager) (block : Nat) (dataId : UInt16) : Option Nat :=
  match m.regionOf block with
  | none => none
  | some r => (r.slotOffset.lookup dataId).map fun off => block + off.toNat

/-- The place of a dataId that has no object. -/
def fixedSlot (m : DataMemManager) (dataId : UInt16) : Option Nat :=
  (m.fixedSlots.lookup dataId).map Prod.fst

/-- The slots of a region whose last update is more than `kTtlPeriods` periods ago. -/
def expired (mem : Mem) (r : RegionDesc) (nowTick : UInt32) (idx : Fin r.slotCap) : Bool :=
  let lastTick := UInt32.ofNat (leNat (mem.load (r.blockAt idx + CacheHead.lastTickOff) 4))
  decide (kTtlPeriods * r.periodTicks < nowTick - lastTick)

def evictRegion (mem : Mem) (nowTick : UInt32) (r : RegionDesc) : RegionDesc :=
  { r with slots := r.slots.release (expired mem r nowTick) }

/-- `EvictExpired` goes over all regions. -/
def evictExpired (m : DataMemManager) (nowTick : UInt32) : DataMemManager :=
  { m with regions := m.regions.map (evictRegion m.mem nowTick) }

end DataMemManager

/-! ## Lookup after update -/

theorem findRegion_isFor {rs : List RegionDesc} {d : UInt16} {p : UInt32} {r : RegionDesc}
    (h : findRegion rs d p = some r) : r.isFor d p = true := List.find?_some h

theorem findRegion_updateRegion {d : UInt16} {p : UInt32} {f : RegionDesc → RegionDesc}
    (hf : ∀ r, r.isFor d p = true → (f r).isFor d p = true) : ∀ rs : List RegionDesc,
    findRegion (updateRegion d p f rs) d p = (findRegion rs d p).map f
  | [] => rfl
  | r :: rs => by
    have ih := findRegion_updateRegion hf rs
    unfold findRegion at ih ⊢
    by_cases hr : r.isFor d p = true
    · rw [updateRegion, if_pos hr, List.find?_cons_of_pos (hf r hr), List.find?_cons_of_pos hr]
      rfl
    · rw [updateRegion, if_neg hr, List.find?_cons_of_neg hr, List.find?_cons_of_neg hr, ih]

theorem findRegion_replace {rs : List RegionDesc} {d : UInt16} {p : UInt32} {r r' : RegionDesc}
    (hr : findRegion rs d p = some r) (hr' : r'.isFor d p = true) :
    findRegion (updateRegion d p (fun _ => r') rs) d p = some r' := by
  rw [findRegion_updateRegion (fun _ _ => hr'), hr]
  rfl

theorem findRegion_map {d : UInt16} {p : UInt32} {f : RegionDesc → RegionDesc}
    (hf : ∀ r, (f r).isFor d p = r.isFor d p) (rs : List RegionDesc) :
    findRegion (rs.map f) d p = (findRegion rs d p).map f := by
  unfold findRegion
  rw [List.find?_map]
  congr 2
  exact funext hf

/-- Blocks of different slots have different addresses. -/
theorem RegionDesc.blockAt_injective {r : RegionDesc} (h : 0 < r.blockSize.toNat) {i j : Nat}
    (hij : r.blockAt i = r.blockAt j) : i = j := by
  simp only [RegionDesc.blockAt] at hij
  exact Nat.eq_of_mul_eq_mul_right h (by omega)

/-! ## The table that `init` builds -/

/-- The layout that a list of specs of one region produces: block size and slot offsets. -/
def layout : List DataIdSpec → UInt32 × List (UInt16 × UInt32) → UInt32 × List (UInt16 × UInt32)
  | [], acc => acc
  | s :: specs, acc => layout specs (acc.1 + s.cacheSize, (s.dataId, acc.1) :: acc.2)

theorem foldl_addSpec_single {d : UInt16} {p : UInt32} : ∀ (specs : List DataIdSpec)
    (r : RegionDesc), r.isFor d p = true →
    (∀ s ∈ specs, s.needCache = true ∧ s.dataType = d ∧ s.periodTicks = p) →
    specs.foldl addSpec [r] = [{ r with
      blockSize := (layout specs (r.blockSize, r.slotOffset)).1
      slotOffset := (layout specs (r.blockSize, r.slotOffset)).2 }]
  | [], r, _, _ => rfl
  | s :: specs, r, hr, h => by
    obtain ⟨hneed, hd, hp⟩ := h s List.mem_cons_self
    have hfind : findRegion [r] d p = some r := List.find?_cons_of_pos hr
    have hone : addSpec [r] s = [placeSlot s r] := by
      simp [addSpec, hneed, hd, hp, hfind, updateRegion, hr]
    rw [List.foldl_cons, hone, foldl_addSpec_single specs (placeSlot s r) hr
      (fun x hx => h x (List.mem_cons_of_mem _ hx))]
    rfl

/-- Every dataId of the list is placed, and earlier entries stay. -/
theorem lookup_layout : ∀ (specs : List DataIdSpec) (acc : UInt32 × List (UInt16 × UInt32))
    (id : UInt16), (acc.2.lookup id).isSome = true ∨ (∃ s ∈ specs, s.dataId = id) →
    ((layout specs acc).2.lookup id).isSome = true
  | [], acc, id, h => by
    rcases h with h | ⟨s, hs, -⟩
    · exact h
    · simp at hs
  | s :: specs, acc, id, h => by
    rw [layout]
    refine lookup_layout specs _ id ?_
    by_cases hid : id = s.dataId
    · left; simp [hid]
    · rcases h with h | ⟨x, hx, hxid⟩
      · left
        rw [List.lookup_cons, beq_false_of_ne hid]
        exact h
      · rcases List.mem_cons.mp hx with rfl | hx
        · exact absurd hxid.symm hid
        · exact Or.inr ⟨x, hx, hxid⟩

/-- The block layout of the cell table. -/
def cellLayout : UInt32 × List (UInt16 × UInt32) :=
  layout (cellDataIds.map specOf) (alignUp sizeofCacheHead 8, [])

/-- The one region of the cell table. -/
def cellRegion (pool : Nat) : RegionDesc where
  domain := DataType.CELL.code
  periodTicks := kPeriod1S
  slotCap := kCellSlotCap
  blockSize := cellLayout.1
  pool := pool
  poolSize := kCellSlotCap * cellLayout.1.toNat
  slots := ⟨fun _ => false, fun _ => 0⟩
  slotOffset := cellLayout.2

/-- **`init` builds one region**, for the cell domain and the 1 s period. -/
theorem init_regions (alloc : Nat → Nat) (mem : Mem) :
    (DataMemManager.init alloc mem).regions = [cellRegion (alloc 0)] := by
  have hall : ∀ s ∈ cellDataIds.map specOf,
      s.needCache = true ∧ s.dataType = DataType.CELL.code ∧ s.periodTicks = kPeriod1S := by
    intro s hs
    obtain ⟨id, hid, rfl⟩ := List.mem_map.mp hs
    rw [specOf_of_mem hid]
    exact ⟨rfl, rfl, rfl⟩
  obtain ⟨s, specs, hspecs⟩ := List.exists_cons_of_ne_nil
    (show cellDataIds.map specOf ≠ [] by simp [cellDataIds, kCellDataIdCount])
  obtain ⟨hneed, hd, hp⟩ := hall s (by rw [hspecs]; exact List.mem_cons_self)
  have hfirst : addSpec [] s = [placeSlot s (newRegion s)] := by
    simp [addSpec, hneed, findRegion, updateRegion, RegionDesc.isFor, newRegion]
  have hlay : cellLayout = layout specs
      (alignUp sizeofCacheHead 8 + s.cacheSize, [(s.dataId, alignUp sizeofCacheHead 8)]) := by
    rw [cellLayout, hspecs, layout]
  have hfold : (cellDataIds.map specOf).foldl addSpec [] = [{ newRegion s with
      blockSize := cellLayout.1, slotOffset := cellLayout.2 }] := by
    rw [hlay, hspecs, List.foldl_cons, hfirst]
    refine foldl_addSpec_single specs (placeSlot s (newRegion s)) ?_ fun x hx =>
      hall x (by rw [hspecs]; exact List.mem_cons_of_mem _ hx)
    simp [RegionDesc.isFor, placeSlot, newRegion, hd, hp]
  simp only [DataMemManager.init, initWith]
  rw [hfold]
  simp only [List.mapIdx_cons, List.mapIdx_nil, allocPool, cellRegion, newRegion, hd, hp]

theorem findRegion_init (alloc : Nat → Nat) (mem : Mem) :
    findRegion (DataMemManager.init alloc mem).regions DataType.CELL.code kPeriod1S
      = some (cellRegion (alloc 0)) := by
  rw [init_regions]
  rfl

theorem layout_blockSize : ∀ (specs : List DataIdSpec) (acc : UInt32 × List (UInt16 × UInt32)),
    acc.1.toNat + (specs.map fun s => s.cacheSize.toNat).sum < 2 ^ 32 →
    (layout specs acc).1.toNat = acc.1.toNat + (specs.map fun s => s.cacheSize.toNat).sum
  | [], acc, _ => by simp [layout]
  | s :: specs, acc, h => by
    simp only [List.map_cons, List.sum_cons] at h ⊢
    have hs : (acc.1 + s.cacheSize).toNat = acc.1.toNat + s.cacheSize.toNat := by
      rw [UInt32.toNat_add]
      omega
    rw [layout, layout_blockSize specs _ (by rw [hs]; omega), hs]
    omega

/-- A cell block is its aligned head and the 32758 bytes of slices. -/
theorem cellLayout_blockSize : cellLayout.1.toNat = 24 + (kRawLen - 10) := by
  have hsum : ((cellDataIds.map specOf).map fun s => s.cacheSize.toNat).sum = kRawLen - 10 := by
    rw [List.map_map, ← sum_kCellCacheSizes, ← cacheSizes_eq]
    rfl
  have hhead : (alignUp sizeofCacheHead 8).toNat = 24 := by decide
  rw [cellLayout, layout_blockSize _ _ (by rw [hsum, hhead]; decide), hsum, hhead]

theorem cellLayout_fst : cellLayout.1 = 32782 := UInt32.toNat_inj.mp cellLayout_blockSize

theorem cellRegion_blockSize (pool : Nat) :
    (cellRegion pool).blockSize.toNat = 24 + (kRawLen - 10) := by
  unfold cellRegion
  exact cellLayout_blockSize

end Dts.Data
