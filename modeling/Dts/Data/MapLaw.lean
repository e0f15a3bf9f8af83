import Dts.Data.MemManager
import Dts.Infra.Run

/-!
# A region as a finite map from keys to blocks

The callers of `DataMemManager` see a region as a finite map: a key is live from the
`acquireBlock` that creates its block until an `evictExpired` frees the slot. `Tracked` carries
that map next to the manager, and `MapLaw` compares the two.

Linear probing keeps the law as long as no hole appears on the probe path of a live key.
`evictExpired` frees slots without moving or marking anything, so it can leave such a hole; the
law holds in every state of a run exactly when none of its `evictExpired` calls does
(`mapLaw_iff_probePathsKept`).
-/

namespace Dts.Data

open Infra

/-- A call on the region under consideration. -/
inductive MapOp where
  | acquire (key : UInt64) (tick : UInt32)
  | find (key : UInt64)
  | evict (tick : UInt32)

/-- The manager and the block that its callers hold for each live key. -/
structure Tracked where
  mgr : DataMemManager
  live : UInt64 → Option Nat

/-! ## What a run does -/

/-- The blocks of a region. -/
def blocksOf (m : DataMemManager) (domain : UInt16) (periodTicks : UInt32) : List Nat :=
  match findRegion m.regions domain periodTicks with
  | none => []
  | some r => (List.finRange r.slotCap).map fun i : Fin r.slotCap => r.blockAt i

/-- The blocks of the used slots of a region. -/
def usedBlocks (m : DataMemManager) (domain : UInt16) (periodTicks : UInt32) : List Nat :=
  match findRegion m.regions domain periodTicks with
  | none => []
  | some r => ((List.finRange r.slotCap).filter r.slots.used).map fun i : Fin r.slotCap => r.blockAt i

/-- One call. A key becomes live with the block it acquires and dead when its slot is freed. -/
def track (domain : UInt16) (periodTicks : UInt32) (s : Tracked) : MapOp → Tracked
  | .acquire key tick =>
    let (block, mgr) := s.mgr.acquireBlock domain periodTicks key tick
    ⟨mgr, match block with
      | some b => Function.update s.live key (some b)
      | none => s.live⟩
  | .find _ => s
  | .evict tick =>
    let mgr := s.mgr.evictExpired tick
    let freed := fun b =>
      (usedBlocks s.mgr domain periodTicks).contains b && !(usedBlocks mgr domain periodTicks).contains b
    ⟨mgr, fun k => (s.live k).filter fun b => !freed b⟩

/-- The calls as a transition system. Every call returns. -/
def trackStep (domain : UInt16) (periodTicks : UInt32) (s : Tracked) (op : MapOp) :
    Option Tracked := some (track domain periodTicks s op)

/-- After `Init`, no key is live. -/
def trackInit (alloc : Nat → Nat) (mem : Mem) : Tracked :=
  ⟨DataMemManager.init alloc mem, fun _ => none⟩

/-! ## The law and the condition -/

/-- The region behaves as the finite map `live`. -/
structure MapLaw (domain : UInt16) (periodTicks : UInt32) (s : Tracked) : Prop where
  /-- No two used slots hold one key. -/
  unique : ∀ r, findRegion s.mgr.regions domain periodTicks = some r →
    ∀ i j, r.slots.used i = true → r.slots.used j = true →
      r.slots.keys i = r.slots.keys j → i = j
  /-- `findBlock` reads the map. -/
  find : ∀ k, s.mgr.findBlock domain periodTicks k = s.live k
  /-- A live key gets its block again. -/
  acquireLive : ∀ k t b, s.live k = some b →
    (s.mgr.acquireBlock domain periodTicks k t).1 = some b
  /-- Any other key gets a block whose slot was free. -/
  acquireFree : ∀ k t b, s.live k = none →
    (s.mgr.acquireBlock domain periodTicks k t).1 = some b →
      b ∈ blocksOf s.mgr domain periodTicks ∧ b ∉ usedBlocks s.mgr domain periodTicks
  /-- `nullptr` means that `slotCap` other keys are live. -/
  acquireFull : ∀ k t, (s.mgr.acquireBlock domain periodTicks k t).1 = none →
    ∃ r, findRegion s.mgr.regions domain periodTicks = some r ∧
      ∃ ks : Finset UInt64, ks.card = r.slotCap ∧ k ∉ ks ∧ ∀ k' ∈ ks, (s.live k').isSome = true

/--
The condition on a call: an `evictExpired` frees no slot on the probe path (from the home slot
of the key to its slot) of a used slot that it keeps.
-/
def ProbePathsKept (domain : UInt16) (periodTicks : UInt32) (s : Tracked) : MapOp → Prop
  | .evict tick => ∀ r, findRegion s.mgr.regions domain periodTicks = some r →
      ProbeTable.EvictSafe r.start r.slots (DataMemManager.expired s.mgr.mem r tick)
  | _ => True

/-! ## The invariant -/

/-- The slots of region `r` represent the map `l`, and `live` is `l` in terms of blocks. -/
structure Represents (domain : UInt16) (periodTicks : UInt32) (s : Tracked) (r : RegionDesc)
    (l : UInt64 → Option (Fin r.slotCap)) : Prop where
  region : findRegion s.mgr.regions domain periodTicks = some r
  size : 0 < r.blockSize.toNat
  holds : ProbeTable.Holds r.start r.slots l
  live : ∀ k, s.live k = (l k).map fun i : Fin r.slotCap => r.blockAt i

def TrackInv (domain : UInt16) (periodTicks : UInt32) (s : Tracked) : Prop :=
  ∃ r l, Represents domain periodTicks s r l

theorem trackInit_eq (alloc : Nat → Nat) (mem : Mem) :
    trackInit alloc mem = ⟨⟨[cellRegion (alloc 0)], [], mem⟩, fun _ => none⟩ := by
  rw [trackInit, ← init_regions alloc mem]
  rfl

variable {d : UInt16} {p : UInt32} {s : Tracked} {r : RegionDesc}
  {l : UInt64 → Option (Fin r.slotCap)}

theorem trackInit_inv (alloc : Nat → Nat) (mem : Mem)
    (hr : (findRegion (DataMemManager.init alloc mem).regions d p).isSome = true) :
    TrackInv d p (trackInit alloc mem) := by
  obtain ⟨r, hr⟩ := Option.isSome_iff_exists.mp hr
  have hmem := List.mem_of_find?_eq_some hr
  rw [init_regions, List.mem_singleton] at hmem
  subst hmem
  refine ⟨_, fun _ => none, hr, ?_, ProbeTable.Holds.empty _, fun _ => rfl⟩
  rw [cellRegion_blockSize]
  omega

/-! ## One spec lemma for each call -/

theorem acquireBlock_of_live (h : Represents d p s r l) {k : UInt64} {i : Fin r.slotCap}
    (hk : l k = some i) (t : UInt32) :
    ∃ mem, s.mgr.acquireBlock d p k t = (some (r.blockAt i), { s.mgr with mem := mem }) := by
  have hscan := h.holds.scan_live hk
  have hused := ((h.holds.live_iff k i).mp hk).1
  simp only [DataMemManager.acquireBlock, h.region, hscan, hused, if_true]
  exact ⟨_, rfl⟩

theorem acquireBlock_of_full (h : Represents d p s r l) {k : UInt64}
    (hs : r.slots.scan (r.start k) k = none) (t : UInt32) :
    s.mgr.acquireBlock d p k t = (none, s.mgr) := by
  simp only [DataMemManager.acquireBlock, h.region, hs]

theorem acquireBlock_of_free (h : Represents d p s r l) {k : UInt64} {i : Fin r.slotCap}
    (hk : l k = none) (hs : r.slots.scan (r.start k) k = some i) (t : UInt32) :
    ∃ mem, s.mgr.acquireBlock d p k t = (some (r.blockAt i), { s.mgr with
      regions := updateRegion d p (fun _ => { r with slots := r.slots.occupy i k }) s.mgr.regions
      mem := mem }) := by
  have hfree := (h.holds.scan_free hk hs).1
  simp only [DataMemManager.acquireBlock, h.region, hs, hfree, Bool.false_eq_true, if_false]
  exact ⟨_, rfl⟩

theorem findBlock_eq (h : Represents d p s r l) (k : UInt64) :
    s.mgr.findBlock d p k = s.live k := by
  simp only [DataMemManager.findBlock, h.region, h.live]
  rw [h.holds.lookup_eq]

theorem evictExpired_region (m : DataMemManager) (hr : findRegion m.regions d p = some r)
    (t : UInt32) :
    findRegion (m.evictExpired t).regions d p = some (DataMemManager.evictRegion m.mem t r) := by
  simp only [DataMemManager.evictExpired]
  rw [findRegion_map (f := DataMemManager.evictRegion m.mem t) (fun _ => rfl), hr]
  rfl

/-! ## Blocks and slots -/

theorem mem_usedBlocks {m : DataMemManager} (hr : findRegion m.regions d p = some r)
    (hsize : 0 < r.blockSize.toNat) (i : Fin r.slotCap) :
    r.blockAt i ∈ usedBlocks m d p ↔ r.slots.used i = true := by
  simp only [usedBlocks, hr, List.mem_map, List.mem_filter, List.mem_finRange, true_and]
  constructor
  · rintro ⟨j, hj, hij⟩
    rwa [← Fin.ext (RegionDesc.blockAt_injective hsize hij)]
  · exact fun hi => ⟨i, hi, rfl⟩

/-- Among the used slots, `evictExpired` frees the expired ones. -/
theorem freed_blockAt (h : Represents d p s r l) (t : UInt32) {i : Fin r.slotCap}
    (hi : r.slots.used i = true) :
    ((usedBlocks s.mgr d p).contains (r.blockAt i) &&
      !(usedBlocks (s.mgr.evictExpired t) d p).contains (r.blockAt i))
      = DataMemManager.expired s.mgr.mem r t i := by
  have hr' := evictExpired_region s.mgr h.region t
  have hafter : r.blockAt i ∈ usedBlocks (s.mgr.evictExpired t) d p ↔
      DataMemManager.expired s.mgr.mem r t i = false := by
    have := mem_usedBlocks (r := DataMemManager.evictRegion s.mgr.mem t r) hr' h.size i
    rw [show (DataMemManager.evictRegion s.mgr.mem t r).blockAt i = r.blockAt i from rfl] at this
    rw [this]
    simp [DataMemManager.evictRegion, ProbeTable.release, hi]
  have hbefore := (mem_usedBlocks h.region h.size i).mpr hi
  rw [Bool.eq_iff_iff]
  simp [hbefore, hafter]

theorem live_after_evict (h : Represents d p s r l) (t : UInt32) (k : UInt64) :
    (track d p s (.evict t)).live k
      = ((l k).filter fun i => !DataMemManager.expired s.mgr.mem r t i).map
          fun i : Fin r.slotCap => r.blockAt i := by
  simp only [track, h.live]
  cases hk : l k with
  | none => rfl
  | some i =>
    have hi := ((h.holds.live_iff k i).mp hk).1
    rw [Option.map_some, Option.filter_some, Option.filter_some, freed_blockAt h t hi]
    split <;> rfl

/-! ## Preservation -/

theorem mapLaw_of_inv (h : TrackInv d p s) : MapLaw d p s := by
  obtain ⟨r, l, h⟩ := h
  constructor
  · intro r' hr' i j hi hj hij
    rw [h.region] at hr'
    cases hr'
    exact h.holds.unique hi hj hij
  · exact findBlock_eq h
  · intro k t b hb
    rw [h.live, Option.map_eq_some_iff] at hb
    obtain ⟨i, hi, rfl⟩ := hb
    obtain ⟨mem, he⟩ := acquireBlock_of_live h hi t
    rw [he]
  · intro k t b hk hb
    have hlk : l k = none := by
      rw [h.live] at hk
      exact Option.map_eq_none_iff.mp hk
    cases hs : r.slots.scan (r.start k) k with
    | none => rw [acquireBlock_of_full h hs] at hb; simp at hb
    | some i =>
      obtain ⟨mem, he⟩ := acquireBlock_of_free h hlk hs t
      rw [he] at hb
      cases hb
      refine ⟨?_, ?_⟩
      · simp only [blocksOf, h.region, List.mem_map, List.mem_finRange, true_and]
        exact ⟨i, rfl⟩
      · rw [mem_usedBlocks h.region h.size]
        simp [(h.holds.scan_free hlk hs).1]
  · intro k t hnone
    refine ⟨r, h.region, ?_⟩
    cases hs : r.slots.scan (r.start k) k with
    | none =>
      obtain ⟨ks, hcard, hk, hlive⟩ := h.holds.full hs
      refine ⟨ks, hcard, hk, ?_⟩
      intro k' hk'
      rw [h.live, Option.isSome_map]
      exact hlive k' hk'
    | some i =>
      -- a search that stops somewhere gives a block, whether the key is live or not
      exfalso
      cases hk : l k with
      | some j =>
        obtain ⟨mem, he⟩ := acquireBlock_of_live h hk t
        rw [he] at hnone
        simp at hnone
      | none =>
        obtain ⟨mem, he⟩ := acquireBlock_of_free h hk hs t
        rw [he] at hnone
        simp at hnone

theorem track_acquire_inv (h : TrackInv d p s) (k : UInt64) (t : UInt32) :
    TrackInv d p (track d p s (.acquire k t)) := by
  obtain ⟨r, l, h⟩ := h
  cases hk : l k with
  | some i =>
    -- the key keeps its block, only the tick changes
    obtain ⟨mem, he⟩ := acquireBlock_of_live h hk t
    have hlive : s.live k = some (r.blockAt i) := by rw [h.live, hk]; rfl
    refine ⟨r, l, ?_, h.size, h.holds, fun k' => ?_⟩
    · simp only [track, he]
      exact h.region
    · simp only [track, he]
      rw [← hlive, Function.update_eq_self]
      exact h.live k'
  | none =>
    cases hs : r.slots.scan (r.start k) k with
    | none =>
      -- no slot is left and nothing changes
      have he := acquireBlock_of_full h hs t
      refine ⟨r, l, ?_, h.size, h.holds, ?_⟩
      · simp only [track, he]; exact h.region
      · simp only [track, he]; exact h.live
    | some i =>
      -- the key takes the slot the search stopped at
      obtain ⟨mem, he⟩ := acquireBlock_of_free h hk hs t
      refine ⟨{ r with slots := r.slots.occupy i k }, Function.update l k (some i), ?_, h.size,
        h.holds.occupy hk hs, fun k' => ?_⟩
      · have hfor : r.isFor d p = true := findRegion_isFor h.region
        simp only [track, he]
        exact findRegion_replace h.region hfor
      · simp only [track, he]
        by_cases hkk : k' = k
        · subst hkk
          rw [Function.update_self, Function.update_self]
          rfl
        · rw [Function.update_of_ne hkk, Function.update_of_ne hkk]
          exact h.live k'

theorem track_evict_inv (h : TrackInv d p s) (t : UInt32) (hsafe : ProbePathsKept d p s (.evict t)) :
    TrackInv d p (track d p s (.evict t)) := by
  obtain ⟨r, l, h⟩ := h
  exact ⟨DataMemManager.evictRegion s.mgr.mem t r, _, evictExpired_region s.mgr h.region t, h.size,
    h.holds.release (hsafe r h.region), live_after_evict h t⟩

/-- After an eviction that leaves a hole, some live key is not found. -/
theorem probePathsKept_of_mapLaw (h : TrackInv d p s) (t : UInt32)
    (hlaw : MapLaw d p (track d p s (.evict t))) : ProbePathsKept d p s (.evict t) := by
  obtain ⟨r, l, h⟩ := h
  intro r' hr'
  rw [h.region] at hr'
  cases hr'
  by_contra hbad
  obtain ⟨k, hk⟩ := h.holds.hidden hbad
  have hfind := hlaw.find k
  rw [live_after_evict h t k] at hfind
  simp only [track, DataMemManager.findBlock, evictExpired_region s.mgr h.region t] at hfind
  -- blocks of different slots differ, so the two lookups would agree on slots
  refine hk (Option.map_injective ?_ hfind)
  exact fun i j hij => Fin.ext (RegionDesc.blockAt_injective h.size hij)

/-! ## The law along runs -/

/--
**The map law.** For every region and every sequence of calls after `Init`, the region behaves as
a finite map in every state reached exactly when no `evictExpired` of the sequence frees a slot
on the probe path of a key it keeps.
-/
theorem mapLaw_iff_probePathsKept (alloc : Nat → Nat) (mem : Mem) (domain : UInt16)
    (periodTicks : UInt32)
    (hr : (findRegion (DataMemManager.init alloc mem).regions domain periodTicks).isSome = true)
    (ops : List MapOp) :
    AllStates (trackStep domain periodTicks) (MapLaw domain periodTicks) (trackInit alloc mem) ops
      ↔ AllSteps (trackStep domain periodTicks) (ProbePathsKept domain periodTicks)
          (trackInit alloc mem) ops := by
  refine allStates_iff_allSteps _ (fun _ => mapLaw_of_inv) ?_ ?_ ops _ (trackInit_inv alloc mem hr)
  · intro s op t hs ht hop
    cases ht
    cases op with
    | acquire k tick => exact track_acquire_inv hs k tick
    | find k => exact hs
    | evict tick => exact track_evict_inv hs tick hop
  · intro s op t hs ht hlaw
    cases ht
    cases op with
    | acquire k tick => trivial
    | find k => trivial
    | evict tick => exact probePathsKept_of_mapLaw hs tick hlaw

/-- Two colliding keys and no eviction: the law holds throughout. -/
theorem mapLaw_of_colliding_acquires :
    AllStates (trackStep DataType.CELL.code kPeriod1S) (MapLaw DataType.CELL.code kPeriod1S)
        (trackInit (fun _ => 4096) fun _ => 0) [.acquire 0 0, .acquire 384 30, .find 384] := by
  refine (mapLaw_iff_probePathsKept _ _ _ _ (by rw [findRegion_init]; rfl) _).mpr ?_
  exact fun _ _ => ⟨trivial, fun _ _ => ⟨trivial, fun _ _ => ⟨trivial, trivial⟩⟩⟩

/--
Keys 0 and 384 share home slot 0, so 384 takes slot 1. Key 0 expires at tick 31 and leaves a hole
before the live key 384, which `findBlock` no longer finds.
-/
theorem mapLaw_fails_after_evict :
    ¬ AllStates (trackStep DataType.CELL.code kPeriod1S) (MapLaw DataType.CELL.code kPeriod1S)
        (trackInit (fun _ => 4096) fun _ => 0) [.acquire 0 0, .acquire 384 30, .evict 31] := by
  intro h
  rw [trackInit_eq, cellRegion, cellLayout_fst] at h
  have hfind := (((h.2 _ rfl).2 _ rfl).2 _ rfl).find 384
  revert hfind
  decide +kernel

end Dts.Data
