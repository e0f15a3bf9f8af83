import Dts.Data.Model
import Mathlib.Data.List.Nodup

/-!
# The dataId table

`data_ids.h`: 500 cell dataIds, each with the size of its slice of the raw frame. A raw frame is
`[u16 dataType][u32 cellId][u32 cpId]` followed by the slices one after another, so the slice of a
dataId starts at 10 plus the sizes before it.

`cellRawOffset_toNat` turns the 32-bit loop into a sum, and `slice_within_raw` bounds every slice
by the 32 KiB of a full frame.
-/

namespace Dts.Data

open Infra

def kCellDataIdBase : UInt16 := 1

def kCellDataIdCount : UInt16 := 500

/-- Bytes of a raw frame of the type CELL. -/
def kRawLen : Nat := 32768

/-- The slice sizes, in dataId order. -/
def kCellCacheSizes : List UInt16 := [
  167, 32, 10, 193, 74, 66, 61, 39, 192, 30, 177, 193, 143, 26, 155, 112, 12, 11, 27, 59,
  63, 133, 158, 10, 147, 54, 187, 170, 183, 143, 111, 60, 118, 154, 75, 5, 198, 44, 182, 112,
  91, 75, 43, 59, 199, 90, 30, 27, 101, 28, 95, 92, 158, 71, 15, 190, 121, 141, 35, 100,
  24, 145, 79, 164, 162, 96, 151, 53, 184, 21, 15, 173, 62, 78, 24, 63, 29, 101, 75, 120,
  166, 97, 45, 98, 94, 57, 175, 72, 183, 178, 169, 22, 159, 166, 47, 140, 190, 66, 45, 122,
  101, 73, 167, 180, 146, 60, 179, 87, 200, 18, 62, 12, 84, 106, 72, 20, 58, 149, 187, 84,
  58, 171, 131, 105, 168, 121, 40, 71, 39, 67, 194, 147, 141, 71, 195, 153, 113, 153, 106, 96,
  60, 39, 134, 130, 27, 197, 16, 32, 43, 164, 44, 178, 112, 156, 20, 102, 101, 156, 123, 139,
  68, 145, 6, 178, 188, 33, 178, 141, 196, 72, 200, 168, 91, 32, 79, 115, 44, 120, 4, 188,
  188, 71, 132, 199, 49, 133, 31, 164, 80, 167, 133, 159, 54, 43, 99, 199, 45, 142, 139, 4,
  157, 86, 129, 8, 32, 96, 82, 65, 18, 65, 149, 24, 25, 191, 128, 21, 198, 140, 200, 36,
  36, 172, 125, 144, 46, 71, 139, 159, 112, 58, 142, 197, 190, 180, 55, 186, 83, 106, 175, 170,
  99, 116, 136, 119, 34, 67, 61, 20, 90, 9, 154, 145, 62, 154, 60, 5, 22, 185, 165, 19,
  62, 21, 12, 88, 22, 135, 64, 75, 175, 128, 58, 142, 37, 189, 150, 151, 125, 66, 125, 108,
  52, 28, 28, 172, 114, 94, 112, 109, 123, 190, 17, 176, 171, 169, 29, 19, 107, 190, 90, 31,
  67, 53, 52, 141, 118, 39, 112, 50, 75, 122, 67, 23, 117, 107, 5, 4, 9, 4, 4, 4,
  4, 5, 4, 4, 4, 4, 4, 4, 4, 4, 4, 4, 4, 4, 4, 4, 4, 4, 4, 4,
  4, 4, 4, 4, 4, 4, 4, 4, 4, 4, 4, 4, 4, 4, 4, 4, 4, 4, 4, 4,
  4, 4, 4, 4, 4, 4, 4, 4, 4, 4, 4, 4, 4, 4, 4, 4, 4, 4, 4, 4,
  4, 4, 4, 4, 4, 4, 4, 4, 4, 4, 4, 4, 4, 4, 4, 4, 4, 4, 4, 4,
  4, 4, 4, 4, 4, 4, 4, 4, 4, 4, 4, 4, 4, 4, 4, 4, 4, 4, 4, 4,
  4, 4, 4, 4, 4, 4, 4, 4, 4, 4, 4, 4, 4, 4, 4, 4, 4, 4, 4, 4,
  4, 4, 4, 4, 4, 4, 4, 4, 4, 4, 4, 4, 4, 4, 4, 4, 4, 4, 4, 4,
  4, 4, 4, 4, 4, 4, 4, 4, 4, 4, 4, 4, 4, 4, 4, 4, 4, 4, 4, 4,
  4, 4, 4, 4, 4, 4, 4, 4, 4, 4, 4, 4, 4, 4, 4, 4, 4, 4, 4, 4]

/-- The registered properties of a dataId. -/
structure DataIdSpec where
  dataId : UInt16
  dataType : UInt16
  cacheSize : UInt32
  periodTicks : UInt32
  needCache : Bool
  deriving DecidableEq

/-- The spec of a dataId; the all-zero spec when it is not in the table. -/
def specOf (dataId : UInt16) : DataIdSpec :=
  let i := dataId - kCellDataIdBase
  if kCellDataIdCount ≤ i then ⟨0, 0, 0, 0, false⟩
  else ⟨dataId, DataType.CELL.code, (kCellCacheSizes.getD i.toNat 0).toUInt32, 10, true⟩

/-- Where the slice of a dataId starts in the raw frame. -/
def cellRawOffset (dataId : UInt16) : UInt32 :=
  let i := dataId - kCellDataIdBase
  (kCellCacheSizes.take i.toNat).foldl (fun off s => off + s.toUInt32) (2 + 4 * 2)

/-- The ids that the initialisation loops run over. -/
def cellDataIds : List UInt16 :=
  (List.range kCellDataIdCount.toNat).map fun i => kCellDataIdBase + UInt16.ofNat i

/-! ## The table as a whole -/

theorem length_kCellCacheSizes : kCellCacheSizes.length = kCellDataIdCount.toNat := by decide +kernel

/-- The slices fill a full frame after its head. -/
theorem sum_kCellCacheSizes : (kCellCacheSizes.map UInt16.toNat).sum = kRawLen - 10 := by
  decide +kernel

theorem length_cellDataIds : cellDataIds.length = 500 := by simp [cellDataIds, kCellDataIdCount]

theorem nodup_cellDataIds : cellDataIds.Nodup := by
  refine List.Nodup.map_on ?_ List.nodup_range
  intro i hi j hj h
  have hi := List.mem_range.mp hi
  have hj := List.mem_range.mp hj
  have hval := congrArg UInt16.toNat h
  simp only [kCellDataIdCount, kCellDataIdBase, UInt16.toNat_add, UInt16.toNat_ofNat',
    UInt16.reduceToNat] at hi hj hval
  omega

theorem mem_cellDataIds {id : UInt16} : id ∈ cellDataIds ↔ (id - kCellDataIdBase) < kCellDataIdCount := by
  simp only [cellDataIds, List.mem_map, List.mem_range]
  constructor
  · rintro ⟨i, hi, rfl⟩
    simp only [kCellDataIdCount, kCellDataIdBase, UInt16.reduceToNat] at hi ⊢
    rw [UInt16.lt_iff_toNat_lt]
    simp only [UInt16.toNat_add, UInt16.toNat_sub, UInt16.toNat_ofNat', UInt16.reduceToNat]
    omega
  · intro h
    rw [UInt16.lt_iff_toNat_lt] at h
    refine ⟨(id - kCellDataIdBase).toNat, h, ?_⟩
    rw [UInt16.ofNat_toNat]
    rw [UInt16.add_comm, UInt16.sub_add_cancel]

/-- What the initialisation loops read for one of their ids. -/
theorem specOf_of_mem {id : UInt16} (h : id ∈ cellDataIds) :
    specOf id = ⟨id, DataType.CELL.code,
      (kCellCacheSizes.getD (id - kCellDataIdBase).toNat 0).toUInt32, 10, true⟩ := by
  have hlt := mem_cellDataIds.mp h
  simp only [specOf]
  rw [if_neg (by rw [UInt16.not_le]; exact hlt)]

theorem getElem_cellDataIds (i : Nat) (h : i < cellDataIds.length) :
    (cellDataIds[i] - kCellDataIdBase).toNat = i := by
  have hi : i < 500 := by simpa [cellDataIds, kCellDataIdCount] using h
  simp only [cellDataIds, List.getElem_map, List.getElem_range]
  rw [UInt16.add_comm, UInt16.add_sub_cancel, UInt16.toNat_ofNat']
  omega

theorem cacheSizes_eq :
    cellDataIds.map (fun id => (specOf id).cacheSize.toNat) = kCellCacheSizes.map UInt16.toNat := by
  refine List.ext_getElem (by simp [cellDataIds, length_kCellCacheSizes]) ?_
  intro i h1 h2
  rw [List.length_map] at h1 h2
  rw [List.getElem_map, List.getElem_map, specOf_of_mem (List.getElem_mem h1),
    getElem_cellDataIds i h1, UInt16.toNat_toUInt32, List.getD_eq_getElem?_getD,
    List.getElem?_eq_getElem h2, Option.getD_some]

theorem sum_take_le (l : List Nat) (n : Nat) : (l.take n).sum ≤ l.sum := by
  have h := congrArg List.sum (List.take_append_drop n l)
  rw [List.sum_append] at h
  omega

/-- A 32-bit accumulation that stays below `2 ^ 32` is the sum. -/
theorem toNat_foldl_add : ∀ (l : List UInt16) (a : UInt32),
    a.toNat + (l.map UInt16.toNat).sum < 2 ^ 32 →
    (l.foldl (fun off s => off + s.toUInt32) a).toNat = a.toNat + (l.map UInt16.toNat).sum
  | [], a, _ => by simp
  | s :: l, a, h => by
    simp only [List.map_cons, List.sum_cons] at h ⊢
    have hs : (a + s.toUInt32).toNat = a.toNat + s.toNat := by
      rw [UInt32.toNat_add, UInt16.toNat_toUInt32]
      omega
    rw [List.foldl_cons, toNat_foldl_add l (a + s.toUInt32) (by omega), hs]
    omega

/-- The offset of a slice is 10 plus the sizes before it. -/
theorem cellRawOffset_toNat (id : UInt16) :
    (cellRawOffset id).toNat =
      10 + ((kCellCacheSizes.take (id - kCellDataIdBase).toNat).map UInt16.toNat).sum := by
  have hle : ((kCellCacheSizes.take (id - kCellDataIdBase).toNat).map UInt16.toNat).sum
      ≤ (kCellCacheSizes.map UInt16.toNat).sum := by
    rw [List.map_take]
    exact sum_take_le _ _
  rw [sum_kCellCacheSizes] at hle
  unfold kRawLen at hle
  have h10 : ((2 + 4 * 2 : UInt32)).toNat = 10 := rfl
  simp only [cellRawOffset]
  rw [toNat_foldl_add _ _ (by rw [h10]; omega), h10]

/-- A slice ends after all the slices up to it. -/
theorem sliceEnd_eq {id : UInt16} (h : id ∈ cellDataIds) :
    (cellRawOffset id).toNat + (specOf id).cacheSize.toNat =
      10 + ((kCellCacheSizes.take ((id - kCellDataIdBase).toNat + 1)).map UInt16.toNat).sum := by
  have hlt := UInt16.lt_iff_toNat_lt.mp (mem_cellDataIds.mp h)
  rw [← length_kCellCacheSizes] at hlt
  rw [cellRawOffset_toNat, specOf_of_mem h, List.getD_eq_getElem?_getD,
    List.getElem?_eq_getElem hlt, List.take_succ_eq_append_getElem hlt]
  simp only [List.map_append, List.sum_append, List.map_cons, List.map_nil, List.sum_cons,
    List.sum_nil, Option.getD_some, UInt16.toNat_toUInt32]
  omega

/-- **Every slice lies in a full raw frame.** -/
theorem slice_within_raw {id : UInt16} (h : id ∈ cellDataIds) :
    (cellRawOffset id).toNat + (specOf id).cacheSize.toNat ≤ kRawLen := by
  have hsum : ((kCellCacheSizes.take ((id - kCellDataIdBase).toNat + 1)).map UInt16.toNat).sum
      ≤ (kCellCacheSizes.map UInt16.toNat).sum := by
    rw [List.map_take]
    exact sum_take_le _ _
  rw [sum_kCellCacheSizes] at hsum
  rw [sliceEnd_eq h]
  unfold kRawLen at *
  omega

/-- No slice ends before the first one, which takes 167 bytes. -/
theorem first_sliceEnd_le {id : UInt16} (h : id ∈ cellDataIds) :
    10 + 167 ≤ (cellRawOffset id).toNat + (specOf id).cacheSize.toNat := by
  rw [sliceEnd_eq h, kCellCacheSizes, List.take_succ_cons, List.map_cons, List.sum_cons]
  exact Nat.add_le_add_left (Nat.le_add_right _ _) _

-- 500 entries: proofs go through the lemmas above
attribute [irreducible] cellDataIds

end Dts.Data
