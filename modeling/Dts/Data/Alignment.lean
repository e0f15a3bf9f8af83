import Dts.Data.Layout

/-!
# Alignment of the blocks

`operator new` gives every pool an address that is a multiple of `kAlign`. The head of a block is
rounded up to a multiple of 8, but the slices behind it are packed, and their sizes are whatever the
table says. So the block size, which is the distance from one `CacheHead` to the next, can be any
number, and the head of the second block has any address.

`alignedLaw_iff` is about every table: the blocks are aligned if and only if the slices of each domain
and period add up to a multiple of 4. Those of the cell table do not.
-/

namespace Dts.Data

open Infra

/-- `alignof(CacheHead)`: the ids and the ticks are `uint32_t`. -/
def alignofCacheHead : ℕ := 4

def kAlign : ℕ := 64

/-- The addresses that `operator new` returns for the pools. -/
structure PoolAlloc where
  base : ℕ → ℕ
  aligned : ∀ i, kAlign ∣ base i

/-! ## The law and its condition -/

/-- **The law.** -/
structure AlignedLaw (m : DataMemManager) : Prop where
  blocks : ∀ r ∈ m.regions, ∀ i < r.slotCap, alignofCacheHead ∣ r.blockAt i
  /-- the fields that `acquireBlock` writes and `evictExpired` reads -/
  fields : ∀ r ∈ m.regions, ∀ i < r.slotCap, 2 ∣ r.blockAt i + CacheHead.typeOff ∧
    4 ∣ r.blockAt i + CacheHead.lastTickOff ∧ 4 ∣ r.blockAt i + CacheHead.periodTicksOff
  acquired : ∀ d p key now block, (m.acquireBlock d p key now).1 = some block →
    alignofCacheHead ∣ block
  found : ∀ d p key block, m.findBlock d p key = some block → alignofCacheHead ∣ block

/-- The bytes of the slices of a domain and period. -/
def sliceBytes (specs : List DataIdSpec) (d : UInt16) (p : UInt32) : ℕ :=
  ((specs.filter (ofKind d p)).map fun s => s.cacheSize.toNat).sum

/-- In every region the slices add up to a multiple of the alignment. -/
def SlicesAligned (specs : List DataIdSpec) : Prop :=
  ∀ s ∈ specs, s.needCache = true → alignofCacheHead ∣ sliceBytes specs s.dataType s.periodTicks

instance (specs : List DataIdSpec) : Decidable (SlicesAligned specs) :=
  inferInstanceAs (Decidable (∀ s ∈ specs, _ → _))

/-! ## Block sizes -/

/-- The sum in 32 bits keeps what is left over by 4. -/
theorem layout_blockSize_mod : ∀ (specs : List DataIdSpec) (acc : UInt32 × List (UInt16 × UInt32)),
    (layout specs acc).1.toNat % 4 =
      (acc.1.toNat + (specs.map fun s => s.cacheSize.toNat).sum) % 4
  | [], acc => by simp [layout]
  | s :: specs, acc => by
    rw [layout, layout_blockSize_mod specs, UInt32.toNat_add, List.map_cons, List.sum_cons]
    omega

theorem Built.dvd_blockSize_iff {specs : List DataIdSpec} {r : RegionDesc} (h : Built specs r) :
    alignofCacheHead ∣ r.blockSize.toNat ↔
      alignofCacheHead ∣ sliceBytes specs r.domain r.periodTicks := by
  have hhead : (alignUp sizeofCacheHead 8).toNat = 24 := by decide
  have hmod := layout_blockSize_mod (specs.filter (ofKind r.domain r.periodTicks))
    (alignUp sizeofCacheHead 8, [])
  rw [← (Prod.mk.inj h.layout).1, hhead] at hmod
  unfold alignofCacheHead sliceBytes
  omega

/-- A region has specs, and they are of its kind. -/
theorem exists_spec_of_mem {specs : List DataIdSpec} {alloc : ℕ → ℕ} {mem : Mem} {r : RegionDesc}
    (hr : r ∈ (initWith specs alloc mem).regions) :
    ∃ s ∈ specs, s.needCache = true ∧ s.dataType = r.domain ∧ s.periodTicks = r.periodTicks := by
  obtain ⟨i, hi, rfl⟩ := List.mem_mapIdx.mp hr
  have hfind := findRegion_of_mem (nodup_foldl_addSpec specs [] List.nodup_nil)
    (List.getElem_mem hi)
  rw [findRegion_foldl] at hfind
  obtain ⟨s, hs⟩ : ∃ s, s ∈ specs.filter (ofKind (specs.foldl addSpec [])[i].domain
      (specs.foldl addSpec [])[i].periodTicks) := by
    refine List.exists_mem_of_ne_nil _ ?_
    intro hnil
    rw [hnil] at hfind
    cases hfind
  obtain ⟨hmem, hkind⟩ := List.mem_filter.mp hs
  simp only [ofKind, Bool.and_eq_true, beq_iff_eq] at hkind
  exact ⟨s, hmem, hkind.1.1, hkind.1.2, hkind.2⟩

section
variable {specs : List DataIdSpec} {pools : PoolAlloc} {mem : Mem} {r : RegionDesc}

/-- The blocks of a region are aligned when its slices are. -/
theorem forall_blockAt_iff (hr : r ∈ (initWith specs pools.base mem).regions) :
    (∀ i < r.slotCap, alignofCacheHead ∣ r.blockAt i) ↔
      alignofCacheHead ∣ sliceBytes specs r.domain r.periodTicks := by
  have hbuilt := (pooled_initWith hr).toBuilt
  have hpool : alignofCacheHead ∣ r.pool := by
    obtain ⟨i, hi, rfl⟩ := List.mem_mapIdx.mp hr
    exact Nat.dvd_trans (by decide) (pools.aligned i)
  have hcap : 1 < r.slotCap := by
    rw [hbuilt.slotCap]
    decide
  rw [← hbuilt.dvd_blockSize_iff, ← forall_dvd_stride_iff hpool hcap]
  rfl

end

/-! ## The law -/

theorem alignedLaw_of_blocks {m : DataMemManager}
    (h : ∀ r ∈ m.regions, ∀ i < r.slotCap, alignofCacheHead ∣ r.blockAt i) : AlignedLaw m where
  blocks := h
  fields := by
    intro r hr i hi
    have hblock := h r hr i hi
    unfold alignofCacheHead at hblock
    unfold CacheHead.typeOff CacheHead.lastTickOff CacheHead.periodTicksOff
    omega
  acquired := by
    intro d p key now block hblock
    unfold DataMemManager.acquireBlock at hblock
    split at hblock
    · cases hblock
    · rename_i r hfind
      split at hblock
      · cases hblock
      · rename_i idx hscan
        have hr := h r (List.mem_of_find?_eq_some hfind) idx idx.isLt
        simp only at hblock
        split at hblock
        · cases hblock
          exact hr
        · cases hblock
          exact hr
  found := by
    intro d p key block hblock
    unfold DataMemManager.findBlock at hblock
    split at hblock
    · cases hblock
    · rename_i r hfind
      obtain ⟨idx, -, rfl⟩ := Option.map_eq_some_iff.mp hblock
      exact h r (List.mem_of_find?_eq_some hfind) idx idx.isLt

/--
**Alignment.** For every table, wherever `operator new` puts the pools: the heads of all blocks are
aligned if and only if the slices of every domain and period add up to a multiple of 4.
-/
theorem alignedLaw_iff (specs : List DataIdSpec) (pools : PoolAlloc) (mem : Mem) :
    AlignedLaw (initWith specs pools.base mem) ↔ SlicesAligned specs := by
  constructor
  · intro h s hs hneed
    obtain ⟨r, hr, hserves⟩ : ∃ r ∈ (initWith specs pools.base mem).regions, r.serves s = true :=
      exists_region_initWith hs hneed
    simp only [RegionDesc.serves, RegionDesc.isFor, Bool.and_eq_true, beq_iff_eq] at hserves
    rw [← hserves.2.1, ← hserves.2.2]
    exact (forall_blockAt_iff hr).mp (h.blocks r hr)
  · intro h
    refine alignedLaw_of_blocks fun r hr => (forall_blockAt_iff hr).mpr ?_
    obtain ⟨s, hs, hneed, hdomain, hperiod⟩ := exists_spec_of_mem hr
    rw [← hdomain, ← hperiod]
    exact h s hs hneed

/-- A pool at 64, and the pools of other regions behind it. -/
def pools64 : PoolAlloc := ⟨fun i => 64 * (i + 1), fun _ => Nat.dvd_mul_right _ _⟩

/-- The slices of the cell table take 32758 bytes, and its second block begins at 32846. -/
theorem not_alignedLaw_cell : (cellRegion 64).blockAt 1 = 32846 ∧
    ¬ AlignedLaw (DataMemManager.init pools64.base fun _ => 0) := by
  have haddr : (cellRegion 64).blockAt 1 = 32846 := by
    have hpool : (cellRegion 64).pool = 64 := rfl
    rw [RegionDesc.blockAt, hpool, cellRegion_blockSize]
    rfl
  refine ⟨haddr, fun h => ?_⟩
  have hregion : cellRegion 64 ∈ (DataMemManager.init pools64.base fun _ => 0).regions := by
    have hbase : pools64.base 0 = 64 := rfl
    rw [init_regions, hbase]
    exact List.mem_singleton_self _
  have hsecond := h.blocks _ hregion 1 (by decide : 1 < kCellSlotCap)
  rw [haddr] at hsecond
  exact absurd hsecond (by decide)

end Dts.Data
