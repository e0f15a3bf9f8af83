import Dts.Data.FactoryRun
import Mathlib.Data.Set.Basic

/-!
# The key of a measurement object

`ExtractRawKey` packs the two ids in the head of a raw frame into 64 bits. The packing takes up the
whole key space, so the placeholder 0 of a frame without a complete head is also the key of the
object with the ids (0, 0).

`Separates` is what the key is for: it tells objects apart, tells frames without a head from all of
them, and `keyFail` counts those frames. `separates_iff` says for which frames it does so.
-/

namespace Dts.Data

open Infra

/-! ## What a key stands for -/

/-- `cellId` and `cpId` / `ueId` of a frame with a complete head. -/
def headIds (raw : RawFrame) : Option (UInt32 × UInt32) :=
  match raw.data with
  | none => none
  | some bs =>
    if raw.len.toNat < 2 + 4 * 2 then none
    else some (UInt32.ofNat (leNat (slice bs 2 4)), UInt32.ofNat (leNat (slice bs (2 + 4) 4)))

/-- A call of `Process` in this state gets as far as the key. -/
def Takes (f : DataFactory) : Prop := f.bypass ≠ .RECV ∧ f.sink = true ∧ f.currentTask ≠ 0

instance (f : DataFactory) : Decidable (Takes f) := inferInstanceAs (Decidable (_ ∧ _ ∧ _))

/-- The operation takes a frame whose head cannot be parsed. -/
def TakesUnparsed (f : DataFactory) : FactoryOp → Prop
  | .process raw _ _ => Takes f ∧ headIds raw = none
  | _ => False

instance (f : DataFactory) : ∀ op, Decidable (TakesUnparsed f op)
  | .process raw _ _ => inferInstanceAs (Decidable (Takes f ∧ headIds raw = none))
  | .tick | .task _ | .sink _ | .budget _ _ => isFalse not_false

/-- The number of frames of a run whose head could not be parsed. -/
def unparsed : DataFactory → List FactoryOp → ℕ
  | _, [] => 0
  | f, op :: ops =>
    (if TakesUnparsed f op then 1 else 0) + ((factoryStep f op).elim 0 fun g => unparsed g ops)

/-- `block` is the cache block of `key` in its region, as after `acquireBlock` (`owns_acquireBlock`). -/
def Owns (m : DataMemManager) (domain : UInt16) (periodTicks : UInt32) (key : UInt64)
    (block : ℕ) : Prop :=
  ∃ r, findRegion m.regions domain periodTicks = some r ∧
    ∃ i : Fin r.slotCap, r.slots.used i = true ∧ r.slots.keys i = key ∧ block = r.blockAt i

/-- **The keys of the frames `S` of one dataType tell measurement objects apart.** -/
structure Separates (dataType : UInt16) (S : Set RawFrame) : Prop where
  /-- the placeholder stands for a missing head -/
  placeholder : ∀ raw ∈ S, extractRawKey dataType raw = 0 ↔ headIds raw = none
  /-- frames with a complete head have one key exactly when they have the same ids -/
  injective : ∀ raw ∈ S, ∀ raw' ∈ S, headIds raw ≠ none → headIds raw' ≠ none →
    (extractRawKey dataType raw = extractRawKey dataType raw' ↔ headIds raw = headIds raw')
  /-- `keyFail` counts the frames without a head, in every run over such frames -/
  keyFail : ∀ f g ops, (∀ raw d us, FactoryOp.process raw d us ∈ ops → d = dataType ∧ raw ∈ S) →
    exec factoryStep f ops = some g →
      g.stats.keyFail = f.stats.keyFail + UInt64.ofNat (unparsed f ops)
  /-- no call takes the block of a frame with a head for one without, or the other way round -/
  blocks : ∀ m : DataMemManager, (∀ r ∈ m.regions, 0 < r.blockSize.toNat) →
    ∀ raw ∈ S, ∀ raw' ∈ S, (headIds raw).isSome ≠ (headIds raw').isSome →
      ∀ p tick b b', Owns m dataType p (extractRawKey dataType raw) b →
        (m.acquireBlock dataType p (extractRawKey dataType raw') tick).1 = some b' → b ≠ b'

/-! ## The packing -/

/-- The ids are the two halves of the key. -/
theorem toNat_packed (a b : UInt32) :
    ((a.toUInt64 <<< 32) ||| b.toUInt64).toNat = a.toNat * 2 ^ 32 + b.toNat := by
  have ha : a.toNat < 2 ^ 32 := a.toNat_lt
  have hb : b.toNat < 2 ^ 32 := b.toNat_lt
  have hamount : (32 : UInt64).toNat % 64 = 32 := by decide
  have hlt : a.toNat * 2 ^ 32 < 2 ^ 64 := by omega
  rw [UInt64.toNat_or, UInt64.toNat_shiftLeft, UInt32.toNat_toUInt64, UInt32.toNat_toUInt64,
    hamount, Nat.mod_eq_of_lt (by rwa [Nat.shiftLeft_eq]), ← Nat.shiftLeft_add_eq_or_of_lt hb,
    Nat.shiftLeft_eq]

theorem packed_inj {a b a' b' : UInt32} :
    (a.toUInt64 <<< 32) ||| b.toUInt64 = (a'.toUInt64 <<< 32) ||| b'.toUInt64 ↔
      (a, b) = (a', b') := by
  have hb : b.toNat < 2 ^ 32 := b.toNat_lt
  have hb' : b'.toNat < 2 ^ 32 := b'.toNat_lt
  rw [← UInt64.toNat_inj, toNat_packed, toNat_packed, Prod.mk.injEq, ← UInt32.toNat_inj,
    ← UInt32.toNat_inj]
  omega

/-- Both hash functions pack in the same way. -/
theorem extractRawKey_of_headIds {raw : RawFrame} {ids : UInt32 × UInt32}
    (h : headIds raw = some ids) (dataType : UInt16) :
    extractRawKey dataType raw = (ids.1.toUInt64 <<< 32) ||| ids.2.toUInt64 := by
  unfold headIds at h
  unfold extractRawKey
  cases hdata : raw.data with
  | none => simp [hdata] at h
  | some bs =>
    simp only [hdata] at h ⊢
    split at h
    · cases h
    · next hlen =>
      cases h
      rw [if_neg hlen]
      show (if _ then cellHashKey _ _ else ueHashKey _ _) = _
      rw [cellHashKey, ueHashKey, ite_self]

theorem extractRawKey_of_none {raw : RawFrame} (h : headIds raw = none) (dataType : UInt16) :
    extractRawKey dataType raw = 0 := by
  unfold headIds at h
  unfold extractRawKey
  cases hdata : raw.data with
  | none => rfl
  | some bs =>
    simp only [hdata] at h ⊢
    split at h
    · next hlen => rw [if_pos hlen]
    · cases h

/-- The placeholder is also the key of the ids (0, 0). -/
theorem extractRawKey_eq_zero_iff (dataType : UInt16) (raw : RawFrame) :
    extractRawKey dataType raw = 0 ↔ headIds raw = none ∨ headIds raw = some (0, 0) := by
  cases hids : headIds raw with
  | none => simp [extractRawKey_of_none hids]
  | some ids =>
    rw [extractRawKey_of_headIds hids]
    have hzero : (0 : UInt64) = ((0 : UInt32).toUInt64 <<< 32) ||| (0 : UInt32).toUInt64 := by
      decide
    rw [hzero, packed_inj]
    simp

/-! ## The counter -/

section
variable (f : DataFactory) (raw : RawFrame) (dataType : UInt16) (us : UInt64)

@[simp] theorem account_keyFail (s : DataStats) (warnUs alarmUs : UInt64) :
    (s.account warnUs alarmUs us).keyFail = s.keyFail := by
  simp only [DataStats.account]
  split
  · rfl
  · split <;> rfl

theorem cutAndFlush_keyFail (ts : UInt64) (block : ℕ) :
    (f.cutAndFlush raw dataType us ts block).2.stats.keyFail = f.stats.keyFail := by
  simp only [DataFactory.cutAndFlush]
  split
  · rfl
  · exact account_keyFail _ _ _ _

theorem processFrame_keyFail :
    (f.processFrame raw dataType us).2.stats.keyFail
      = (f.countKey (extractRawKey dataType raw)).stats.keyFail := by
  simp only [DataFactory.processFrame]
  split
  · rfl
  · rw [cutAndFlush_keyFail]

/-- **One call** adds one exactly when it takes a frame whose key is the placeholder. -/
theorem process_keyFail :
    (f.process raw dataType us).2.stats.keyFail
      = if Takes f ∧ extractRawKey dataType raw = 0 then f.stats.keyFail + 1
        else f.stats.keyFail := by
  simp only [DataFactory.process]
  by_cases hrecv : f.bypass = .RECV
  · rw [if_pos hrecv, if_neg (fun h => h.1.1 hrecv)]
  · by_cases hsink : f.sink = true
    · by_cases htask : f.currentTask = 0
      · rw [if_neg hrecv, if_neg (by simp [hsink]), if_pos (by simp [htask]),
          if_neg (fun h => h.1.2.2 htask)]
      · rw [if_neg hrecv, if_neg (by simp [hsink]), if_neg (by simpa using htask),
          processFrame_keyFail]
        by_cases hkey : extractRawKey dataType raw = 0
        · rw [if_pos ⟨⟨hrecv, hsink, htask⟩, hkey⟩]
          simp [DataFactory.countKey, hkey]
        · rw [if_neg (fun h => hkey h.2)]
          simp [DataFactory.countKey, hkey]
    · rw [if_neg hrecv, if_pos (by simpa using hsink), if_neg (fun h => hsink h.1.2.1)]

end

/-- One operation over frames without the ids (0, 0). -/
theorem factoryStep_keyFail {f g : DataFactory} {op : FactoryOp}
    (hids : ∀ raw d us, op = .process raw d us → headIds raw ≠ some (0, 0))
    (h : factoryStep f op = some g) :
    g.stats.keyFail = f.stats.keyFail + UInt64.ofNat (if TakesUnparsed f op then 1 else 0) := by
  cases op with
  | process raw d us =>
    cases h
    have hzero : extractRawKey d raw = 0 ↔ headIds raw = none := by
      rw [extractRawKey_eq_zero_iff, or_iff_left (hids raw d us rfl)]
    rw [process_keyFail]
    by_cases hun : Takes f ∧ headIds raw = none
    · rw [if_pos ⟨hun.1, hzero.mpr hun.2⟩, if_pos (show TakesUnparsed f (.process raw d us) from hun)]
      rfl
    · rw [if_neg (fun hc => hun ⟨hc.1, hzero.mp hc.2⟩),
        if_neg (show ¬TakesUnparsed f (.process raw d us) from hun)]
      exact (UInt64.add_zero _).symm
  | tick =>
    cases h
    exact (UInt64.add_zero _).symm
  | task taskId =>
    cases h
    exact (UInt64.add_zero _).symm
  | sink sink =>
    cases h
    exact (UInt64.add_zero _).symm
  | budget warnUs alarmUs =>
    cases h
    unfold DataFactory.setBudget
    split <;> exact (UInt64.add_zero _).symm

/-- **A run** over frames without the ids (0, 0). -/
theorem exec_keyFail {f g : DataFactory} {ops : List FactoryOp}
    (hids : ∀ raw d us, FactoryOp.process raw d us ∈ ops → headIds raw ≠ some (0, 0))
    (h : exec factoryStep f ops = some g) :
    g.stats.keyFail = f.stats.keyFail + UInt64.ofNat (unparsed f ops) := by
  induction ops generalizing f with
  | nil =>
    cases h
    exact (UInt64.add_zero _).symm
  | cons op ops ih =>
    rw [exec_cons] at h
    obtain ⟨f', hf', h⟩ := Option.bind_eq_some_iff.mp h
    have hone := factoryStep_keyFail (fun raw d us hop => hids raw d us (by simp [hop])) hf'
    rw [ih (fun raw d us hop => hids raw d us (List.mem_cons_of_mem _ hop)) h, hone, unparsed, hf',
      UInt64.add_assoc, ← UInt64.ofNat_add]
    rfl

/-! ## The blocks -/

/-- The block that a key acquires is its own from then on. -/
theorem owns_acquireBlock {m : DataMemManager} {d : UInt16} {p : UInt32} {k : UInt64}
    {t : UInt32} {b : ℕ} (h : (m.acquireBlock d p k t).1 = some b) :
    Owns (m.acquireBlock d p k t).2 d p k b := by
  unfold DataMemManager.acquireBlock at h ⊢
  cases hr : findRegion m.regions d p with
  | none => simp [hr] at h
  | some r =>
    simp only [hr] at h ⊢
    cases hs : r.slots.scan (r.start k) k with
    | none => simp [hs] at h
    | some i =>
      simp only [hs] at h ⊢
      obtain ⟨-, -, hstop, -⟩ := ProbeTable.scan_eq_some_iff.mp hs
      by_cases hused : r.slots.used i = true
      · rw [if_pos hused] at h ⊢
        cases h
        have hkey : r.slots.keys i = k := by simpa [ProbeTable.stops, hused] using hstop
        exact ⟨r, hr, i, hused, hkey, rfl⟩
      · rw [if_neg hused] at h ⊢
        cases h
        have hfor : r.isFor d p = true := findRegion_isFor hr
        exact ⟨{ r with slots := r.slots.occupy i k }, findRegion_replace hr hfor, i,
          by simp [ProbeTable.occupy], by simp [ProbeTable.occupy], rfl⟩

/-- The search for another key does not stop at an owned block. -/
theorem acquireBlock_ne_of_owns {m : DataMemManager} {d : UInt16} {p : UInt32}
    {k k' : UInt64} {t : UInt32} {b b' : ℕ} (hsize : ∀ r ∈ m.regions, 0 < r.blockSize.toNat)
    (hk : k ≠ k') (ho : Owns m d p k b) (h : (m.acquireBlock d p k' t).1 = some b') : b ≠ b' := by
  obtain ⟨r, hr, i, hused, hkey, rfl⟩ := ho
  have hpos := hsize r (List.mem_of_find?_eq_some hr)
  unfold DataMemManager.acquireBlock at h
  simp only [hr] at h
  cases hs : r.slots.scan (r.start k') k' with
  | none => simp [hs] at h
  | some j =>
    obtain ⟨-, -, hstop, -⟩ := ProbeTable.scan_eq_some_iff.mp hs
    have hb' : r.blockAt j = b' := by
      simp only [hs] at h
      split at h
      · exact Option.some.inj h
      · exact Option.some.inj h
    rintro rfl
    have hji : j = i := Fin.ext (RegionDesc.blockAt_injective hpos hb')
    subst hji
    have hkey' : r.slots.keys j = k' := by simpa [ProbeTable.stops, hused] using hstop
    exact hk (hkey.symm.trans hkey')

/-! ## The exact condition -/

/-- **The keys separate the frames of one dataType exactly when none has the ids (0, 0).** -/
theorem separates_iff (dataType : UInt16) (S : Set RawFrame) :
    Separates dataType S ↔ ∀ raw ∈ S, headIds raw ≠ some (0, 0) := by
  constructor
  · intro h raw hraw hids
    have hkey := (extractRawKey_eq_zero_iff dataType raw).mpr (Or.inr hids)
    rw [(h.placeholder raw hraw).mp hkey] at hids
    cases hids
  · intro h
    have hzero : ∀ raw ∈ S, extractRawKey dataType raw = 0 ↔ headIds raw = none := by
      intro raw hraw
      rw [extractRawKey_eq_zero_iff, or_iff_left (h raw hraw)]
    refine ⟨hzero, ?_, ?_, ?_⟩
    · intro raw hraw raw' hraw' hsome hsome'
      obtain ⟨ids, hids⟩ := Option.ne_none_iff_exists'.mp hsome
      obtain ⟨ids', hids'⟩ := Option.ne_none_iff_exists'.mp hsome'
      rw [extractRawKey_of_headIds hids, extractRawKey_of_headIds hids', packed_inj, hids, hids']
      simp
    · intro f g ops hops hexec
      refine exec_keyFail ?_ hexec
      intro raw d us hmem
      exact h raw (hops raw d us hmem).2
    · intro m hsize raw hraw raw' hraw' hne p tick b b' ho hacq
      refine acquireBlock_ne_of_owns hsize ?_ ho hacq
      intro hkeys
      -- one of the keys is 0, so both are, and both heads are missing
      refine hne ?_
      by_cases hnone : headIds raw = none
      · rw [(hzero raw hraw).mpr hnone] at hkeys
        rw [hnone, (hzero raw' hraw').mp hkeys.symm]
      · have hnone' : headIds raw' ≠ none := by
          intro hc
          rw [(hzero raw' hraw').mpr hc] at hkeys
          exact hnone ((hzero raw hraw).mp hkeys)
        rw [Option.isSome_iff_ne_none.mpr hnone, Option.isSome_iff_ne_none.mpr hnone']

/-- A cell frame of ten bytes with the ids (0, 0). -/
def zeroIdFrame : RawFrame := ⟨some (List.replicate 10 0), 10, by
  intro bs hbs
  cases hbs
  decide⟩

theorem not_separates_zeroIdFrame : ¬∀ (dataType : UInt16) (S : Set RawFrame), Separates dataType S := by
  intro h
  have hnone := ((h 0 {zeroIdFrame}).placeholder zeroIdFrame rfl).mp (by decide)
  exact absurd hnone (by decide)

end Dts.Data
