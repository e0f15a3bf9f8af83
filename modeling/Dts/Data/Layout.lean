import Dts.Data.MemManager
import Dts.Infra.Packed
import Mathlib.Data.List.Pairwise
import Mathlib.Algebra.Order.BigOperators.Group.List

/-!
# The layout that `Init` builds

`DataMemManager::Init` goes over a spec table once: the first dataId of a domain and period makes a
region, each dataId adds its slice to the block of its region. Then every region gets a pool of
`slotCap` blocks from `operator new`.

`LayoutLaw` is what everybody who writes through `slotOf` relies on: no two slices overlap, no slice
overlaps a `CacheHead`, and all lie in the pool of their region. `layoutLaw_initWith` proves it for
every table of distinct dataIds.
-/

namespace Dts.Data

open Infra

/-! ## The law -/

/-- The spec of a cached dataId of the domain and period of `r`. -/
def RegionDesc.serves (r : RegionDesc) (s : DataIdSpec) : Bool :=
  s.needCache && r.isFor s.dataType s.periodTicks

/-- **No write through a slot reaches anything but that slot.** -/
structure LayoutLaw (specs : List DataIdSpec) (m : DataMemManager) : Prop where
  /-- every cached dataId has a region -/
  region : ∀ s ∈ specs, s.needCache = true → ∃ r ∈ m.regions, r.serves s = true
  /-- a block pointer leads to the region that owns the block -/
  owner : ∀ r ∈ m.regions, ∀ i < r.slotCap, m.regionOf (r.blockAt i) = some r
  /-- every dataId of a region has a slot in each of its blocks, inside the pool -/
  within : ∀ r ∈ m.regions, ∀ i < r.slotCap, ∀ s ∈ specs, r.serves s = true →
    ∃ a, m.slotOf (r.blockAt i) s.dataId = some a ∧ r.pool ≤ a ∧
      a + s.cacheSize.toNat ≤ r.pool + r.poolSize
  /-- the slots of different blocks or dataIds of a region do not overlap -/
  disjoint : ∀ r ∈ m.regions, ∀ i < r.slotCap, ∀ j < r.slotCap, ∀ s ∈ specs, ∀ s' ∈ specs,
    r.serves s = true → r.serves s' = true → (i, s.dataId) ≠ (j, s'.dataId) →
    ∀ a b, m.slotOf (r.blockAt i) s.dataId = some a → m.slotOf (r.blockAt j) s'.dataId = some b →
      a + s.cacheSize.toNat ≤ b ∨ b + s'.cacheSize.toNat ≤ a
  /-- nor does a slot overlap the head of any block -/
  heads : ∀ r ∈ m.regions, ∀ i < r.slotCap, ∀ s ∈ specs, r.serves s = true →
    ∀ a, m.slotOf (r.blockAt i) s.dataId = some a → ∀ r' ∈ m.regions, ∀ j < r'.slotCap,
      a + s.cacheSize.toNat ≤ r'.blockAt j ∨ r'.blockAt j + sizeofCacheHead.toNat ≤ a

/-- The specs that make up the block of a region. -/
def ofKind (d : UInt16) (p : UInt32) (s : DataIdSpec) : Bool :=
  s.needCache && s.dataType == d && s.periodTicks == p

/-- The block of every domain and period fits in 32 bits. -/
def BlocksFit (specs : List DataIdSpec) : Prop :=
  ∀ d p, 24 + ((specs.filter (ofKind d p)).map fun s => s.cacheSize.toNat).sum < 2 ^ 32

def RegionDesc.Apart (r r' : RegionDesc) : Prop :=
  r.pool + r.poolSize ≤ r'.pool ∨ r'.pool + r'.poolSize ≤ r.pool

instance : DecidableRel RegionDesc.Apart := fun _ _ => inferInstanceAs (Decidable (_ ∨ _))

instance : Std.Symm RegionDesc.Apart := ⟨fun _ _ => Or.symm⟩

/-- Storage from `operator new` that is live together does not overlap. -/
def PoolsApart (m : DataMemManager) : Prop := m.regions.Pairwise RegionDesc.Apart

instance (m : DataMemManager) : Decidable (PoolsApart m) :=
  inferInstanceAs (Decidable (m.regions.Pairwise RegionDesc.Apart))

/-! ## One round of the region-building loop -/

theorem findRegion_updateRegion_ne {d d' : UInt16} {p p' : UInt32} {f : RegionDesc → RegionDesc}
    (hf : ∀ r, (f r).isFor d' p' = r.isFor d' p') (hne : (d, p) ≠ (d', p')) :
    ∀ rs : List RegionDesc, findRegion (updateRegion d p f rs) d' p' = findRegion rs d' p'
  | [] => rfl
  | r :: rs => by
    have ih := findRegion_updateRegion_ne hf hne rs
    unfold findRegion at ih ⊢
    rw [updateRegion]
    by_cases hr : r.isFor d p = true
    · -- a region of the one key is not of the other
      have hother : r.isFor d' p' = false := by
        simp only [RegionDesc.isFor, Bool.and_eq_true, beq_iff_eq] at hr
        rw [← Bool.not_eq_true]
        simp only [RegionDesc.isFor, Bool.and_eq_true, beq_iff_eq, hr.1, hr.2]
        rintro ⟨rfl, rfl⟩
        exact hne rfl
      rw [if_pos hr, List.find?_cons, List.find?_cons, hf, hother]
    · rw [if_neg hr, List.find?_cons, List.find?_cons, ih]

theorem findRegion_append (rs rs' : List RegionDesc) (d : UInt16) (p : UInt32) :
    findRegion (rs ++ rs') d p = (findRegion rs d p).or (findRegion rs' d p) := by
  rw [findRegion, List.find?_append]
  rfl

/-- **What a round does** to the region of a domain and period. -/
theorem findRegion_addSpec (rs : List RegionDesc) (s : DataIdSpec) (d : UInt16) (p : UInt32) :
    findRegion (addSpec rs s) d p =
      if ofKind d p s then some (placeSlot s ((findRegion rs d p).getD (newRegion s)))
      else findRegion rs d p := by
  unfold addSpec
  by_cases hneed : s.needCache = true
  · rw [if_neg (by simp [hneed])]
    have hplace : ∀ r, (placeSlot s r).isFor d p = r.isFor d p := fun _ => rfl
    by_cases hkey : (s.dataType, s.periodTicks) = (d, p)
    · obtain ⟨rfl, rfl⟩ := Prod.mk.inj hkey
      have hnew : (newRegion s).isFor s.dataType s.periodTicks = true := by
        simp [RegionDesc.isFor, newRegion]
      have hkind : ofKind s.dataType s.periodTicks s = true := by simp [ofKind, hneed]
      rw [if_pos hkind]
      cases hfind : findRegion rs s.dataType s.periodTicks with
      | some r =>
        simp only
        rw [findRegion_updateRegion (f := placeSlot s) (fun _ h => h), hfind]
        rfl
      | none =>
        simp only
        rw [findRegion_updateRegion (f := placeSlot s) (fun _ h => h), findRegion_append, hfind]
        simp [findRegion, hnew]
    · have hkind : ofKind d p s = false := by
        rw [← Bool.not_eq_true]
        simp only [ofKind, Bool.and_eq_true, beq_iff_eq]
        rintro ⟨⟨-, rfl⟩, rfl⟩
        exact hkey rfl
      have hnew : (newRegion s).isFor d p = false := by
        rw [← Bool.not_eq_true]
        simp only [RegionDesc.isFor, newRegion, Bool.and_eq_true, beq_iff_eq]
        rintro ⟨rfl, rfl⟩
        exact hkey rfl
      rw [findRegion_updateRegion_ne hplace hkey, hkind]
      cases hfind : findRegion rs s.dataType s.periodTicks with
      | some r => rfl
      | none =>
        simp only [findRegion_append]
        simp [findRegion, hnew]
  · rw [if_pos (by simpa using hneed)]
    have hkind : ofKind d p s = false := by simp [ofKind, hneed]
    rw [hkind]
    rfl

/-! ## The whole loop -/

/-- **What the loop does** to the region of a domain and period: only the specs of its kind. -/
theorem findRegion_foldl (d : UInt16) (p : UInt32) : ∀ (specs : List DataIdSpec)
    (rs : List RegionDesc), findRegion (specs.foldl addSpec rs) d p =
      (specs.filter (ofKind d p)).foldl
        (fun o s => some (placeSlot s (o.getD (newRegion s)))) (findRegion rs d p)
  | [], _ => rfl
  | s :: specs, rs => by
    rw [List.foldl_cons, findRegion_foldl d p specs, findRegion_addSpec, List.filter_cons]
    by_cases hkind : ofKind d p s = true
    · rw [if_pos hkind, if_pos hkind, List.foldl_cons]
    · rw [if_neg hkind, if_neg hkind]

/-- The layout of a region after a list of slices. -/
theorem foldl_placeSlot : ∀ (l : List DataIdSpec) (r : RegionDesc),
    l.foldl (fun o s => some (placeSlot s (o.getD (newRegion s)))) (some r) =
      some { r with
        blockSize := (layout l (r.blockSize, r.slotOffset)).1
        slotOffset := (layout l (r.blockSize, r.slotOffset)).2 }
  | [], _ => rfl
  | s :: l, r => by
    rw [List.foldl_cons]
    exact foldl_placeSlot l (placeSlot s r)

/-- `r` has the block layout of the specs of its kind. -/
structure Built (specs : List DataIdSpec) (r : RegionDesc) : Prop where
  slotCap : r.slotCap = kCellSlotCap
  layout : (r.blockSize, r.slotOffset) =
    layout (specs.filter (ofKind r.domain r.periodTicks)) (alignUp sizeofCacheHead 8, [])

theorem built_of_find {specs : List DataIdSpec} {d : UInt16} {p : UInt32} {r : RegionDesc}
    (h : findRegion (specs.foldl addSpec []) d p = some r) : Built specs r := by
  have hfor := findRegion_isFor h
  simp only [RegionDesc.isFor, Bool.and_eq_true, beq_iff_eq] at hfor
  obtain ⟨rfl, rfl⟩ := hfor
  rw [findRegion_foldl] at h
  cases hl : specs.filter (ofKind r.domain r.periodTicks) with
  | nil =>
    rw [hl] at h
    simp [findRegion] at h
  | cons s l =>
    rw [hl, List.foldl_cons, foldl_placeSlot, Option.some_inj] at h
    constructor
    · rw [← h]
      rfl
    · rw [hl, layout, ← h]
      rfl

/-- A cached dataId has a region when the loop ends. -/
theorem exists_find {specs : List DataIdSpec} {s : DataIdSpec} (hs : s ∈ specs)
    (hneed : s.needCache = true) :
    ∃ r, findRegion (specs.foldl addSpec []) s.dataType s.periodTicks = some r := by
  have hmem : s ∈ specs.filter (ofKind s.dataType s.periodTicks) :=
    List.mem_filter.mpr ⟨hs, by simp [ofKind, hneed]⟩
  rw [findRegion_foldl]
  cases hl : specs.filter (ofKind s.dataType s.periodTicks) with
  | nil => simp [hl] at hmem
  | cons x l =>
    rw [List.foldl_cons, foldl_placeSlot]
    exact ⟨_, rfl⟩

/-! ### One region for each domain and period -/

def RegionDesc.key (r : RegionDesc) : UInt16 × UInt32 := (r.domain, r.periodTicks)

theorem RegionDesc.isFor_iff {r : RegionDesc} {d : UInt16} {p : UInt32} :
    r.isFor d p = true ↔ r.key = (d, p) := by
  simp [RegionDesc.isFor, RegionDesc.key]

theorem map_key_updateRegion {d : UInt16} {p : UInt32} {f : RegionDesc → RegionDesc}
    (hf : ∀ r, (f r).key = r.key) : ∀ rs : List RegionDesc,
    (updateRegion d p f rs).map RegionDesc.key = rs.map RegionDesc.key
  | [] => rfl
  | r :: rs => by
    rw [updateRegion]
    split
    · rw [List.map_cons, List.map_cons, hf]
    · rw [List.map_cons, List.map_cons, map_key_updateRegion hf rs]

theorem nodup_addSpec {rs : List RegionDesc} (s : DataIdSpec)
    (h : (rs.map RegionDesc.key).Nodup) : ((addSpec rs s).map RegionDesc.key).Nodup := by
  unfold addSpec
  split
  · exact h
  · show (List.map RegionDesc.key (updateRegion _ _ (placeSlot s) _)).Nodup
    rw [map_key_updateRegion (f := placeSlot s) fun _ => rfl]
    cases hfind : findRegion rs s.dataType s.periodTicks with
    | some r => exact h
    | none =>
      rw [findRegion, List.find?_eq_none] at hfind
      simp only [List.map_append, List.map_cons, List.map_nil]
      rw [List.nodup_append]
      refine ⟨h, List.nodup_singleton _, ?_⟩
      intro k hk k' hk' heq
      obtain ⟨r, hr, rfl⟩ := List.mem_map.mp hk
      rw [List.mem_singleton] at hk'
      exact hfind r hr (RegionDesc.isFor_iff.mpr (heq.trans hk'))

theorem nodup_foldl_addSpec : ∀ (specs : List DataIdSpec) (rs : List RegionDesc),
    (rs.map RegionDesc.key).Nodup → ((specs.foldl addSpec rs).map RegionDesc.key).Nodup
  | [], _, h => h
  | s :: specs, rs, h => by
    rw [List.foldl_cons]
    exact nodup_foldl_addSpec specs _ (nodup_addSpec s h)

theorem findRegion_of_mem : ∀ {rs : List RegionDesc}, (rs.map RegionDesc.key).Nodup →
    ∀ {r}, r ∈ rs → findRegion rs r.domain r.periodTicks = some r
  | [], _, _, hr => by simp at hr
  | x :: rs, hnd, r, hr => by
    rw [List.map_cons, List.nodup_cons] at hnd
    rcases List.mem_cons.mp hr with rfl | hmem
    · exact List.find?_cons_of_pos (RegionDesc.isFor_iff.mpr rfl)
    · have hne : ¬ x.isFor r.domain r.periodTicks = true := by
        intro hfor
        refine hnd.1 ?_
        rw [RegionDesc.isFor_iff.mp hfor]
        exact List.mem_map_of_mem (f := RegionDesc.key) hmem
      have ih := findRegion_of_mem hnd.2 hmem
      rw [findRegion] at ih ⊢
      rw [List.find?_cons_of_neg hne, ih]

/-- **Every region that the loop builds** has the layout of its kind. -/
theorem built_of_mem {specs : List DataIdSpec} {r : RegionDesc}
    (hr : r ∈ specs.foldl addSpec []) : Built specs r :=
  built_of_find (findRegion_of_mem (nodup_foldl_addSpec specs [] List.nodup_nil) hr)

/-! ## Offsets -/

theorem lookup_layout_of_notMem : ∀ {specs : List DataIdSpec}
    {acc : UInt32 × List (UInt16 × UInt32)} {id : UInt16}, id ∉ specs.map DataIdSpec.dataId →
    (layout specs acc).2.lookup id = acc.2.lookup id
  | [], _, _, _ => rfl
  | s :: specs, acc, id, h => by
    rw [List.map_cons, List.mem_cons, not_or] at h
    rw [layout, lookup_layout_of_notMem h.2, List.lookup_cons, beq_false_of_ne h.1]

/-- The slices of a block lie packed behind its head. -/
def slotPos (l : List DataIdSpec) (base : ℕ) (id : UInt16) : ℕ :=
  packedAt DataIdSpec.dataId (fun s => s.cacheSize.toNat) l base id

/-- **Every dataId is found at its packed offset.** -/
theorem lookup_layout_mem {s : DataIdSpec} : ∀ (l : List DataIdSpec)
    (acc : UInt32 × List (UInt16 × UInt32)), (l.map DataIdSpec.dataId).Nodup → s ∈ l →
    acc.1.toNat + (l.map fun s => s.cacheSize.toNat).sum < 2 ^ 32 →
    ∃ off, (layout l acc).2.lookup s.dataId = some off ∧
      off.toNat = slotPos l acc.1.toNat s.dataId
  | [], _, _, hs, _ => by simp at hs
  | x :: l, acc, hnd, hs, hfit => by
    rw [List.map_cons, List.nodup_cons] at hnd
    rw [List.map_cons, List.sum_cons] at hfit
    rw [layout, slotPos, packedAt]
    rcases List.mem_cons.mp hs with rfl | hmem
    · rw [if_pos rfl, lookup_layout_of_notMem hnd.1, List.lookup_cons_self]
      exact ⟨acc.1, rfl, rfl⟩
    · have hne : x.dataId ≠ s.dataId := by
        intro heq
        exact hnd.1 (heq ▸ List.mem_map_of_mem hmem)
      have hsize : (acc.1 + x.cacheSize).toNat = acc.1.toNat + x.cacheSize.toNat := by
        rw [UInt32.toNat_add]
        omega
      have hrest := lookup_layout_mem l (acc.1 + x.cacheSize, (x.dataId, acc.1) :: acc.2)
        hnd.2 hmem (by rw [hsize]; omega)
      rw [hsize] at hrest
      rw [if_neg hne]
      exact hrest

/-! ## The regions with their pools -/

/-- A region with its layout and a pool of `slotCap` blocks. -/
structure Pooled (specs : List DataIdSpec) (r : RegionDesc) : Prop extends Built specs r where
  poolSize : r.poolSize = r.slotCap * r.blockSize.toNat

theorem pooled_initWith {specs : List DataIdSpec} {alloc : Nat → Nat} {mem : Mem} {r : RegionDesc}
    (hr : r ∈ (initWith specs alloc mem).regions) : Pooled specs r := by
  obtain ⟨i, hi, rfl⟩ := List.mem_mapIdx.mp hr
  have hb : Built specs (specs.foldl addSpec [])[i] := built_of_mem (List.getElem_mem hi)
  exact ⟨⟨hb.slotCap, hb.layout⟩, rfl⟩

theorem exists_region_initWith {specs : List DataIdSpec} {alloc : Nat → Nat} {mem : Mem}
    {s : DataIdSpec} (hs : s ∈ specs) (hneed : s.needCache = true) :
    ∃ r ∈ (initWith specs alloc mem).regions, r.serves s = true := by
  obtain ⟨r, hr⟩ := exists_find hs hneed
  obtain ⟨i, hi, hget⟩ := List.getElem_of_mem (List.mem_of_find?_eq_some hr)
  refine ⟨allocPool alloc i r, List.mem_mapIdx.mpr ⟨i, hi, by rw [hget]⟩, ?_⟩
  rw [RegionDesc.serves, hneed, Bool.true_and]
  exact findRegion_isFor (r := r) hr

section Block

variable {specs : List DataIdSpec} {r : RegionDesc} {s s' : DataIdSpec}

theorem mem_kind_of_serves (hs : s ∈ specs) (h : r.serves s = true) :
    s ∈ specs.filter (ofKind r.domain r.periodTicks) := by
  simp only [RegionDesc.serves, RegionDesc.isFor, Bool.and_eq_true, beq_iff_eq] at h
  rw [List.mem_filter]
  refine ⟨hs, ?_⟩
  simp only [ofKind, Bool.and_eq_true, beq_iff_eq]
  exact ⟨⟨h.1, h.2.1.symm⟩, h.2.2.symm⟩

/-- Where the slice of a dataId lies in the blocks of `r`. -/
def posIn (specs : List DataIdSpec) (r : RegionDesc) (id : UInt16) : ℕ :=
  slotPos (specs.filter (ofKind r.domain r.periodTicks)) 24 id

theorem nodup_kind (hnd : (specs.map DataIdSpec.dataId).Nodup) (d : UInt16) (p : UInt32) :
    ((specs.filter (ofKind d p)).map DataIdSpec.dataId).Nodup :=
  hnd.sublist (List.filter_sublist.map _)

theorem head_le_posIn (id : UInt16) : 24 ≤ posIn specs r id := le_packedAt id

theorem Built.blockSize_eq (h : Built specs r) (hfit : BlocksFit specs) :
    r.blockSize.toNat =
      24 + ((specs.filter (ofKind r.domain r.periodTicks)).map fun s => s.cacheSize.toNat).sum := by
  have hhead : (alignUp sizeofCacheHead 8).toNat = 24 := by decide
  rw [(Prod.mk.inj h.layout).1, layout_blockSize _ _ (by rw [hhead]; exact hfit _ _), hhead]

/-- Behind the head there is room for the slices only. -/
theorem Built.head_le (h : Built specs r) (hfit : BlocksFit specs) : 24 ≤ r.blockSize.toNat := by
  rw [h.blockSize_eq hfit]
  omega

theorem Built.posIn_add_le (h : Built specs r) (hfit : BlocksFit specs)
    (hnd : (specs.map DataIdSpec.dataId).Nodup) (hs : s ∈ specs) (hr : r.serves s = true) :
    posIn specs r s.dataId + s.cacheSize.toNat ≤ r.blockSize.toNat := by
  rw [h.blockSize_eq hfit]
  exact packedAt_add_le (nodup_kind hnd _ _) (mem_kind_of_serves hs hr)

theorem posIn_disjoint (hnd : (specs.map DataIdSpec.dataId).Nodup) (hs : s ∈ specs)
    (hs' : s' ∈ specs) (hr : r.serves s = true) (hr' : r.serves s' = true)
    (hne : s.dataId ≠ s'.dataId) :
    posIn specs r s.dataId + s.cacheSize.toNat ≤ posIn specs r s'.dataId ∨
      posIn specs r s'.dataId + s'.cacheSize.toNat ≤ posIn specs r s.dataId :=
  packedAt_disjoint (nodup_kind hnd _ _) (mem_kind_of_serves hs hr) (mem_kind_of_serves hs' hr')
    hne

theorem Built.lookup_slotOffset (h : Built specs r) (hfit : BlocksFit specs)
    (hnd : (specs.map DataIdSpec.dataId).Nodup) (hs : s ∈ specs) (hr : r.serves s = true) :
    ∃ off, r.slotOffset.lookup s.dataId = some off ∧ off.toNat = posIn specs r s.dataId := by
  have hhead : (alignUp sizeofCacheHead 8).toNat = 24 := by decide
  have hlook := lookup_layout_mem _ (alignUp sizeofCacheHead 8, [])
    (nodup_kind hnd r.domain r.periodTicks) (mem_kind_of_serves hs hr)
    (by rw [hhead]; exact hfit _ _)
  rw [hhead] at hlook
  rw [(Prod.mk.inj h.layout).2]
  exact hlook

/-- A range inside a block lies inside the pool. -/
theorem Pooled.block_le (h : Pooled specs r) {i off n : ℕ} (hi : i < r.slotCap)
    (hoff : off + n ≤ r.blockSize.toNat) : r.blockAt i + off + n ≤ r.pool + r.poolSize := by
  have hstride := stride_le hoff hi
  rw [h.poolSize, RegionDesc.blockAt]
  omega

/-- The head of a block lies inside the pool too. -/
theorem Pooled.head_le_pool (h : Pooled specs r) (hfit : BlocksFit specs) {i : ℕ}
    (hi : i < r.slotCap) : r.blockAt i + 24 ≤ r.pool + r.poolSize := by
  have hhead : 0 + 24 ≤ r.blockSize.toNat := by
    rw [Nat.zero_add]
    exact h.head_le hfit
  exact h.block_le hi hhead

/-- **The slots of a region do not overlap.** -/
theorem Built.slots_disjoint (h : Built specs r) (hfit : BlocksFit specs)
    (hnd : (specs.map DataIdSpec.dataId).Nodup) (hs : s ∈ specs) (hs' : s' ∈ specs)
    (hr : r.serves s = true) (hr' : r.serves s' = true) {i j : ℕ}
    (hne : (i, s.dataId) ≠ (j, s'.dataId)) :
    r.blockAt i + posIn specs r s.dataId + s.cacheSize.toNat ≤
        r.blockAt j + posIn specs r s'.dataId ∨
      r.blockAt j + posIn specs r s'.dataId + s'.cacheSize.toNat ≤
        r.blockAt i + posIn specs r s.dataId := by
  have hend := h.posIn_add_le hfit hnd hs hr
  have hend' := h.posIn_add_le hfit hnd hs' hr'
  simp only [RegionDesc.blockAt]
  rcases Nat.lt_trichotomy i j with hij | rfl | hij
  · have := stride_le hend hij
    omega
  · have hid : s.dataId ≠ s'.dataId := fun heq => hne (by rw [heq])
    have := posIn_disjoint hnd hs hs' hr hr' hid
    omega
  · have := stride_le hend' hij
    omega

/-- **No slot overlaps the head of a block** of its region. -/
theorem Built.slot_head_disjoint (h : Built specs r) (hfit : BlocksFit specs)
    (hnd : (specs.map DataIdSpec.dataId).Nodup) (hs : s ∈ specs) (hr : r.serves s = true)
    (i j : ℕ) :
    r.blockAt i + posIn specs r s.dataId + s.cacheSize.toNat ≤ r.blockAt j ∨
      r.blockAt j + 24 ≤ r.blockAt i + posIn specs r s.dataId := by
  have hhead : 24 ≤ posIn specs r s.dataId := head_le_posIn _
  simp only [RegionDesc.blockAt]
  rcases Nat.lt_or_ge i j with hij | hji
  · have := stride_le (h.posIn_add_le hfit hnd hs hr) hij
    omega
  · have := Nat.mul_le_mul_right r.blockSize.toNat hji
    omega

end Block

/-! ## Block pointers -/

theorem PoolsApart.eq_of_within {m : DataMemManager} (h : PoolsApart m) {r r' : RegionDesc}
    (hr : r ∈ m.regions) (hr' : r' ∈ m.regions) {a : ℕ} (ha : r.pool ≤ a ∧ a < r.pool + r.poolSize)
    (ha' : r'.pool ≤ a ∧ a < r'.pool + r'.poolSize) : r = r' := by
  by_contra hne
  rcases List.Pairwise.forall h hr hr' hne with hapart | hapart
  · omega
  · omega

/-- **A pointer into a pool leads to the region of the pool.** -/
theorem PoolsApart.regionOf_eq {m : DataMemManager} (h : PoolsApart m) {r : RegionDesc}
    (hr : r ∈ m.regions) {a : ℕ} (hle : r.pool ≤ a) (hlt : a < r.pool + r.poolSize) :
    m.regionOf a = some r := by
  cases hfind : m.regionOf a with
  | none =>
    rw [DataMemManager.regionOf, List.find?_eq_none] at hfind
    exact absurd (by simp [hle, hlt]) (hfind r hr)
  | some r' =>
    have hin := List.find?_some hfind
    simp only [Bool.and_eq_true, decide_eq_true_eq] at hin
    rw [h.eq_of_within hr (List.mem_of_find?_eq_some hfind) ⟨hle, hlt⟩ hin]

/-! ## The law -/

/-- The regions are laid out for the table, each in a pool of its own. The slots do not matter. -/
structure Laid (specs : List DataIdSpec) (m : DataMemManager) : Prop where
  pooled : ∀ r ∈ m.regions, Pooled specs r
  covers : ∀ s ∈ specs, s.needCache = true → ∃ r ∈ m.regions, r.serves s = true
  apart : PoolsApart m

section Law

variable {specs : List DataIdSpec} {m : DataMemManager} (h : Laid specs m)
  (hnd : (specs.map DataIdSpec.dataId).Nodup) (hfit : BlocksFit specs)

include h hfit

theorem Laid.regionOf_blockAt {r : RegionDesc} (hr : r ∈ m.regions) {i : ℕ} (hi : i < r.slotCap) :
    m.regionOf (r.blockAt i) = some r := by
  have hhead := (h.pooled r hr).head_le_pool hfit hi
  exact h.apart.regionOf_eq hr (Nat.le_add_right _ _) (by omega)

include hnd

/-- **Where `slotOf` points**: at the packed offset of the dataId in the block. -/
theorem Laid.slotOf_blockAt {r : RegionDesc} (hr : r ∈ m.regions) {i : ℕ} (hi : i < r.slotCap)
    {s : DataIdSpec} (hs : s ∈ specs) (hserves : r.serves s = true) :
    m.slotOf (r.blockAt i) s.dataId = some (r.blockAt i + posIn specs r s.dataId) := by
  obtain ⟨off, hlook, hoff⟩ := (h.pooled r hr).lookup_slotOffset hfit hnd hs hserves
  simp only [DataMemManager.slotOf, h.regionOf_blockAt hfit hr hi, hlook, Option.map_some, hoff]

/-- **The layout gives the law.** -/
theorem Laid.layoutLaw : LayoutLaw specs m := by
  have hslot := @Laid.slotOf_blockAt specs m h hnd hfit
  constructor
  case region => exact h.covers
  case owner =>
    intro r hr i hi
    exact h.regionOf_blockAt hfit hr hi
  case within =>
    intro r hr i hi s hs hserves
    have hp := h.pooled r hr
    refine ⟨_, hslot hr hi hs hserves, ?_, hp.block_le hi (hp.posIn_add_le hfit hnd hs hserves)⟩
    rw [RegionDesc.blockAt]
    omega
  case disjoint =>
    intro r hr i hi j hj s hs s' hs' hserves hserves' hne a b ha hb
    rw [hslot hr hi hs hserves, Option.some_inj] at ha
    rw [hslot hr hj hs' hserves', Option.some_inj] at hb
    subst ha hb
    exact (h.pooled r hr).toBuilt.slots_disjoint hfit hnd hs hs' hserves hserves' hne
  case heads =>
    intro r hr i hi s hs hserves a ha r' hr' j hj
    rw [hslot hr hi hs hserves, Option.some_inj] at ha
    subst ha
    have hsize : sizeofCacheHead.toNat = 20 := by decide
    rw [hsize]
    have hp := h.pooled r hr
    have hp' := h.pooled r' hr'
    by_cases heq : r = r'
    · subst heq
      have := hp.toBuilt.slot_head_disjoint hfit hnd hs hserves i j
      omega
    · -- the other pool lies on one side of this one
      have hend := hp.block_le hi (hp.posIn_add_le hfit hnd hs hserves)
      have hhead' := hp'.head_le_pool hfit hj
      have hle : r.pool ≤ r.blockAt i := Nat.le_add_right _ _
      have hle' : r'.pool ≤ r'.blockAt j := Nat.le_add_right _ _
      rcases List.Pairwise.forall h.apart hr hr' heq with hapart | hapart
      · omega
      · omega

end Law

theorem laid_initWith {specs : List DataIdSpec} {alloc : Nat → Nat} {mem : Mem}
    (hnew : PoolsApart (initWith specs alloc mem)) : Laid specs (initWith specs alloc mem) :=
  ⟨fun _ => pooled_initWith, fun _ => exists_region_initWith, hnew⟩

/--
**The layout law holds of every table of distinct dataIds** whose blocks fit in 32 bits, wherever
`operator new` puts the pools.
-/
theorem layoutLaw_initWith (specs : List DataIdSpec) (alloc : Nat → Nat) (mem : Mem)
    (hnd : (specs.map DataIdSpec.dataId).Nodup) (hfit : BlocksFit specs)
    (hnew : PoolsApart (initWith specs alloc mem)) :
    LayoutLaw specs (initWith specs alloc mem) :=
  (laid_initWith hnew).layoutLaw hnd hfit

theorem blocksFit_of_sum {specs : List DataIdSpec}
    (h : 24 + (specs.map fun s => s.cacheSize.toNat).sum < 2 ^ 32) : BlocksFit specs := by
  intro d p
  have hle := ((List.filter_sublist (p := ofKind d p) (l := specs)).map
    fun s => s.cacheSize.toNat).sum_le_sum (by simp)
  omega

/-- Two dataIds of one period, one of another, one that is not cached. -/
def fourSpecs : List DataIdSpec :=
  [⟨0x10, 0, 3, 10, true⟩, ⟨0x11, 0, 200, 20, true⟩, ⟨0x12, 0, 5, 10, false⟩,
    ⟨0x13, 0, 7, 10, true⟩]

theorem layoutLaw_initWith_fourSpecs :
    LayoutLaw fourSpecs (initWith fourSpecs (fun i => 0x1000 + i * 0x20000) fun _ => 0) :=
  layoutLaw_initWith _ _ _ (by decide) (blocksFit_of_sum (by decide)) (by decide)

/-! ## Later states -/

/-- A region without its slots. -/
def RegionDesc.blank (r : RegionDesc) : RegionDesc :=
  { r with slots := ⟨fun _ => false, fun _ => 0⟩ }

/-- **The law outlives `Init`**: it does not depend on the slots. -/
theorem Laid.of_blank {specs : List DataIdSpec} {m m' : DataMemManager} (h : Laid specs m)
    (heq : m'.regions.map RegionDesc.blank = m.regions.map RegionDesc.blank) : Laid specs m' := by
  constructor
  case pooled =>
    intro r hr
    have hmem : r.blank ∈ m.regions.map RegionDesc.blank := heq ▸ List.mem_map_of_mem hr
    obtain ⟨r₀, hr₀, hblank⟩ := List.mem_map.mp hmem
    have hp := h.pooled r₀ hr₀
    have hb : Pooled specs r.blank := hblank ▸ ⟨⟨hp.slotCap, hp.layout⟩, hp.poolSize⟩
    exact ⟨⟨hb.slotCap, hb.layout⟩, hb.poolSize⟩
  case covers =>
    intro s hs hneed
    obtain ⟨r₀, hr₀, hserves⟩ := h.covers s hs hneed
    have hmem : r₀.blank ∈ m'.regions.map RegionDesc.blank := heq ▸ List.mem_map_of_mem hr₀
    obtain ⟨r, hr, hblank⟩ := List.mem_map.mp hmem
    have hb : r₀.blank.serves s = true := hserves
    rw [← hblank] at hb
    exact ⟨r, hr, hb⟩
  case apart =>
    have hblank : (m.regions.map RegionDesc.blank).Pairwise RegionDesc.Apart :=
      List.pairwise_map.mpr h.apart
    rw [← heq, List.pairwise_map] at hblank
    exact hblank

/-- The cell table is laid out, wherever its one pool lies. -/
theorem laid_init (alloc : Nat → Nat) (mem : Mem) :
    Laid (cellDataIds.map specOf) (DataMemManager.init alloc mem) := by
  refine laid_initWith ?_
  have hone := init_regions alloc mem
  rw [DataMemManager.init] at hone
  rw [PoolsApart, hone]
  exact List.pairwise_singleton _ _

theorem nodup_cellSpecs : ((cellDataIds.map specOf).map DataIdSpec.dataId).Nodup := by
  have hids : (cellDataIds.map specOf).map DataIdSpec.dataId = cellDataIds := by
    rw [List.map_map]
    refine (List.map_congr_left ?_).trans (List.map_id _)
    intro id hid
    rw [Function.comp_apply, specOf_of_mem hid, id_eq]
  rw [hids]
  exact nodup_cellDataIds

theorem blocksFit_cellSpecs : BlocksFit (cellDataIds.map specOf) := by
  refine blocksFit_of_sum ?_
  have hsum : ((cellDataIds.map specOf).map fun s => s.cacheSize.toNat).sum = kRawLen - 10 := by
    rw [List.map_map, ← sum_kCellCacheSizes, ← cacheSizes_eq]
    rfl
  rw [hsum]
  decide

/-- **The law in every state of the data thread.** -/
theorem layoutLaw_of_blank {alloc : Nat → Nat} {mem : Mem} {m : DataMemManager}
    (h : m.regions.map RegionDesc.blank =
      (DataMemManager.init alloc mem).regions.map RegionDesc.blank) :
    LayoutLaw (cellDataIds.map specOf) m :=
  ((laid_init alloc mem).of_blank h).layoutLaw nodup_cellSpecs blocksFit_cellSpecs

end Dts.Data
