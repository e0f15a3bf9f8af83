import Dts.Data.MemManager

/-!
# Extractors

`extractor_registry.cpp` and `extractors.cpp`. Every dataId has an extractor that copies its slice
of the raw frame into the cache slot of the dataId. The registry is a hash map; its entries are
listed in the order in which `forEachByDomain` meets them.

`extra_of_fits` and `extra_of_short` are the two outcomes of an extractor, and
`initExtractors_nil` is the table after initialisation.
-/

namespace Dts.Data

open Infra

/-- A received frame: a pointer with at least `len` readable bytes behind it, or `nullptr`. -/
structure RawFrame where
  data : Option Bytes
  len : UInt32
  readable : ∀ bs, data = some bs → len.toNat ≤ bs.length

/-- The extractor class of the cell domain, with its raw offset and size. -/
structure CCellSlice where
  offset : UInt32
  size : UInt32

namespace CCellSlice

/-- Copy the slice to `cache`. `-1` when the frame is too short. -/
def extra (s : CCellSlice) (raw : RawFrame) (mem : Mem) (cache : Nat) : Int32 × Mem :=
  match raw.data with
  | none => (-1, mem)
  | some bs =>
    if raw.len < s.offset + s.size then (-1, mem)
    else (s.size.toInt32, mem.store cache (slice bs s.offset.toNat s.size.toNat))

/-- Byte order conversion in place. The base class leaves the bytes as they are. -/
def hton (_ : CCellSlice) (mem : Mem) (_cache : Nat) (_len : UInt32) : Mem := mem

end CCellSlice

/-- A row of the registry. -/
structure ExtractorSpec where
  dataId : UInt16
  dataType : UInt16
  cacheSize : UInt32
  periodTicks : UInt32
  needCache : Bool
  proc : Option CCellSlice

/-- The rows of the map, a list in the place of its order. -/
abbrev ExtractorRegistry := List ExtractorSpec

/-- The key of the map: the type in the high half. -/
def ExtractorSpec.key (s : ExtractorSpec) : UInt32 := (s.dataType.toUInt32 <<< 16) ||| s.dataId.toUInt32

namespace ExtractorRegistry

/-- Enter a spec. `false` when its key is taken. -/
def register (reg : ExtractorRegistry) (spec : ExtractorSpec) : Bool × ExtractorRegistry :=
  if reg.any fun s => s.key == spec.key then (false, reg) else (true, reg ++ [spec])

/-- `fn` is called for every row of this type. -/
def forEachByDomain {σ : Type*} (reg : ExtractorRegistry) (dataType : UInt16)
    (fn : σ → ExtractorSpec → σ) (st : σ) : σ :=
  (reg.filter fun s => s.dataType == dataType).foldl fn st

end ExtractorRegistry

/-- The entry that `initExtractors` makes for a dataId. -/
def cellExtractor (id : UInt16) : ExtractorSpec :=
  let s := specOf id
  ⟨id, s.dataType, s.cacheSize, s.periodTicks, s.needCache, some ⟨cellRawOffset id, s.cacheSize⟩⟩

/-- One row for each dataId of the table. -/
def initExtractors (reg : ExtractorRegistry) : ExtractorRegistry :=
  cellDataIds.foldl (fun reg id =>
    if (specOf id).dataId == 0 then reg else (reg.register (cellExtractor id)).2) reg

/-! ## One slice -/

/-- The slice of a dataId lies in the frame. -/
def Fits (raw : RawFrame) (id : UInt16) : Prop :=
  raw.data.isSome = true ∧ (cellRawOffset id).toNat + (specOf id).cacheSize.toNat ≤ raw.len.toNat

instance (raw : RawFrame) (id : UInt16) : Decidable (Fits raw id) :=
  inferInstanceAs (Decidable (_ ∧ _))

/-- The slice of a dataId. -/
def sliceOf (raw : RawFrame) (id : UInt16) : Bytes :=
  slice (raw.data.getD []) (cellRawOffset id).toNat (specOf id).cacheSize.toNat

/-- The end of a slice does not wrap. -/
theorem toNat_sliceEnd {id : UInt16} (h : id ∈ cellDataIds) :
    (cellRawOffset id + (specOf id).cacheSize).toNat
      = (cellRawOffset id).toNat + (specOf id).cacheSize.toNat := by
  have hle := slice_within_raw h
  unfold kRawLen at hle
  rw [UInt32.toNat_add]
  omega

theorem cacheSize_lt {id : UInt16} (h : id ∈ cellDataIds) : (specOf id).cacheSize.toNat < 2 ^ 15 := by
  have hle := slice_within_raw h
  have hoff := cellRawOffset_toNat id
  unfold kRawLen at hle
  omega

/-- The return value of a copied slice is not negative. -/
theorem cacheSize_toInt32 {id : UInt16} (h : id ∈ cellDataIds) :
    ¬ (specOf id).cacheSize.toInt32 < 0 := by
  have hlt := cacheSize_lt h
  have hbits : (specOf id).cacheSize.toBitVec.toNat = (specOf id).cacheSize.toNat := rfl
  have hint : (specOf id).cacheSize.toInt32.toInt = (specOf id).cacheSize.toNat :=
    BitVec.toInt_eq_toNat_of_lt (x := (specOf id).cacheSize.toBitVec) (by omega)
  rw [Int32.lt_iff_toInt_lt, hint, Int32.toInt_zero]
  omega

theorem length_sliceOf {raw : RawFrame} {id : UInt16} (h : Fits raw id) :
    (sliceOf raw id).length = (specOf id).cacheSize.toNat := by
  obtain ⟨hsome, hle⟩ := h
  obtain ⟨bs, hbs⟩ := Option.isSome_iff_exists.mp hsome
  have hreadable := raw.readable bs hbs
  rw [sliceOf, hbs, Option.getD_some]
  exact length_slice (by omega)

/-- Some slice lies in the frame exactly when the first one does. -/
theorem exists_fits_iff {raw : RawFrame} :
    (∃ id ∈ cellDataIds, Fits raw id) ↔ raw.data.isSome = true ∧ 177 ≤ raw.len.toNat := by
  constructor
  · rintro ⟨id, hid, hsome, hle⟩
    exact ⟨hsome, (first_sliceEnd_le hid).trans hle⟩
  · rintro ⟨hsome, hle⟩
    have hfirst : (cellRawOffset 1).toNat + (specOf 1).cacheSize.toNat = 177 := by decide
    exact ⟨1, mem_cellDataIds.mpr (by decide), hsome, by rwa [hfirst]⟩

/-- A frame that is long enough: the slice is copied. -/
theorem extra_of_fits {raw : RawFrame} {id : UInt16} (hid : id ∈ cellDataIds) (h : Fits raw id)
    (mem : Mem) (cache : Nat) :
    CCellSlice.extra ⟨cellRawOffset id, (specOf id).cacheSize⟩ raw mem cache
      = ((specOf id).cacheSize.toInt32, mem.store cache (sliceOf raw id)) := by
  obtain ⟨bs, hbs⟩ := Option.isSome_iff_exists.mp h.1
  simp only [CCellSlice.extra, hbs, sliceOf, Option.getD_some]
  rw [if_neg (by rw [UInt32.not_lt, UInt32.le_iff_toNat_le, toNat_sliceEnd hid]; exact h.2)]

/-- A frame that is too short, or none at all: nothing is written. -/
theorem extra_of_short {raw : RawFrame} {id : UInt16} (hid : id ∈ cellDataIds) (h : ¬ Fits raw id)
    (mem : Mem) (cache : Nat) :
    CCellSlice.extra ⟨cellRawOffset id, (specOf id).cacheSize⟩ raw mem cache = (-1, mem) := by
  cases hdata : raw.data with
  | none => simp only [CCellSlice.extra, hdata]
  | some bs =>
    have hlt : raw.len < cellRawOffset id + (specOf id).cacheSize := by
      rw [UInt32.lt_iff_toNat_lt, toNat_sliceEnd hid]
      exact Nat.lt_of_not_le fun hle => h ⟨by rw [hdata]; rfl, hle⟩
    simp only [CCellSlice.extra, hdata]
    rw [if_pos hlt]

/-! ## The registry after initialisation -/

theorem cellExtractor_of_mem {id : UInt16} (h : id ∈ cellDataIds) :
    (cellExtractor id).dataType = DataType.CELL.code ∧ (cellExtractor id).needCache = true := by
  simp only [cellExtractor, specOf_of_mem h, and_self]

theorem key_cellExtractor {id : UInt16} (h : id ∈ cellDataIds) :
    (cellExtractor id).key = id.toUInt32 := by
  rw [ExtractorSpec.key, (cellExtractor_of_mem h).1]
  simp [DataType.code, cellExtractor]

theorem ne_zero_of_mem {id : UInt16} (h : id ∈ cellDataIds) : id ≠ 0 := by
  rintro rfl
  exact absurd (mem_cellDataIds.mp h) (by decide)

/-- Registering distinct dataIds one after another enters them all. -/
theorem foldl_register : ∀ (ids : List UInt16) (done : List UInt16),
    (∀ id ∈ done ++ ids, id ∈ cellDataIds) → (done ++ ids).Nodup →
    ids.foldl (fun reg id =>
      if (specOf id).dataId == 0 then reg else (ExtractorRegistry.register reg (cellExtractor id)).2)
      (done.map cellExtractor) = (done ++ ids).map cellExtractor
  | [], done, _, _ => by simp
  | id :: ids, done, hmem, hnodup => by
    have hid : id ∈ cellDataIds := hmem id (by simp)
    have hne : (specOf id).dataId ≠ 0 := by
      rw [specOf_of_mem hid]
      exact ne_zero_of_mem hid
    have hfree : ((done.map cellExtractor).any fun s => s.key == (cellExtractor id).key) = false := by
      rw [List.any_eq_false]
      rintro s hs heq
      obtain ⟨x, hx, rfl⟩ := List.mem_map.mp hs
      have hkey := beq_iff_eq.mp heq
      rw [key_cellExtractor hid, key_cellExtractor (hmem x (by simp [hx]))] at hkey
      have hxid : x = id := by
        rw [← UInt16.toNat_inj, ← UInt16.toNat_toUInt32, hkey, UInt16.toNat_toUInt32]
      subst hxid
      exact (List.nodup_append.mp hnodup).2.2 x hx x List.mem_cons_self rfl
    have hdone : done ++ id :: ids = (done ++ [id]) ++ ids := by simp
    rw [List.foldl_cons, if_neg (by simpa using hne), ExtractorRegistry.register, if_neg (by
      rw [hfree]; exact Bool.false_ne_true)]
    have ih := foldl_register ids (done ++ [id]) (by rwa [← hdone]) (by rwa [← hdone])
    rw [List.map_append, List.map_singleton] at ih
    rw [ih, hdone]

/-- **The table after initialisation.** -/
theorem initExtractors_nil : initExtractors [] = cellDataIds.map cellExtractor :=
  foldl_register cellDataIds [] (by simp) (by simpa using nodup_cellDataIds)

end Dts.Data
