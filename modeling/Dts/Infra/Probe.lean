import Mathlib.Logic.Function.Basic
import Mathlib.Data.Nat.ModEq
import Mathlib.Data.Finset.Card
import Mathlib.Data.Fintype.EquivFin
import Mathlib.Data.Fintype.Card
import Mathlib.Data.Finset.Image

/-!
# Open addressing with linear probing

A table of `n` slots, each with a `used` flag and a key. A key is looked for from its home slot
onwards, cyclically, and the search stops at the first slot that is unused or holds the key.

`Holds home t live` says that the table represents the finite map `live` from keys to slots. It
has two parts: the used slots are exactly the graph of `live`, and no unused slot lies on the
probe path of a used one. The second part is what makes "stop at the first unused slot" right,
and freeing slots is the one operation that can break it (`EvictSafe`, `Holds.hidden`).
-/

namespace Infra

/-! ## The probe order -/

/-- The slot tested at step `d` of a search that starts at slot `start`. -/
def probeAt {n : Nat} (start : Nat) (d : Fin n) : Fin n :=
  ⟨(start + d) % n, Nat.mod_lt _ d.pos⟩

theorem probeAt_injective {n : Nat} (start : Nat) :
    Function.Injective (probeAt (n := n) start) := by
  intro d e h
  have hmod : (start + d) % n = (start + e) % n := congrArg Fin.val h
  have hcancel : (d : Nat) % n = (e : Nat) % n := Nat.ModEq.add_left_cancel' start hmod
  rw [Nat.mod_eq_of_lt d.isLt, Nat.mod_eq_of_lt e.isLt] at hcancel
  exact Fin.ext hcancel

/-- Every slot is tested at some step. -/
theorem exists_probeAt {n : Nat} (start : Nat) (i : Fin n) : ∃ d, probeAt start d = i :=
  Finite.surjective_of_injective (probeAt_injective start) i

/-- A search from `start` tests `i` before `j`. -/
def Precedes {n : Nat} (start : Nat) (i j : Fin n) : Prop :=
  ∃ d e : Fin n, d < e ∧ probeAt start d = i ∧ probeAt start e = j

/-! ## The table -/

/-- The flags and keys of `n` slots. The key of an unused slot is whatever was there last. -/
structure ProbeTable (n : Nat) (K : Type*) where
  used : Fin n → Bool
  keys : Fin n → K

namespace ProbeTable

variable {n : Nat} {K : Type*} [DecidableEq K]

/-- A search for `k` stops at slot `i`. -/
def stops (t : ProbeTable n K) (k : K) (i : Fin n) : Bool := !t.used i || t.keys i == k

/-- The slot at which a search for `k` from `start` stops, if any. -/
def scan (t : ProbeTable n K) (start : Nat) (k : K) : Option (Fin n) :=
  ((List.finRange n).map (probeAt start)).find? (t.stops k)

/-- The used slot that a search for `k` stops at. -/
def lookup (t : ProbeTable n K) (start : Nat) (k : K) : Option (Fin n) :=
  (t.scan start k).filter t.used

/-- Put `k` into slot `i`. -/
def occupy (t : ProbeTable n K) (i : Fin n) (k : K) : ProbeTable n K where
  used := Function.update t.used i true
  keys := Function.update t.keys i k

/-- Free the slots of `freed`. The keys stay where they are. -/
def release (t : ProbeTable n K) (freed : Fin n → Bool) : ProbeTable n K :=
  { t with used := fun i => t.used i && !freed i }

theorem scan_eq_some_iff {t : ProbeTable n K} {start : Nat} {k : K} {i : Fin n} :
    t.scan start k = some i ↔
      ∃ d, probeAt start d = i ∧ t.stops k i = true ∧
        ∀ e, e < d → t.stops k (probeAt start e) = false := by
  unfold scan
  rw [List.find?_eq_some_iff_getElem]
  constructor
  · rintro ⟨hstop, d, hd, hget, hbefore⟩
    simp only [List.length_map, List.length_finRange] at hd
    refine ⟨⟨d, hd⟩, by simpa using hget, hstop, ?_⟩
    intro e he
    have := hbefore e he
    simpa using this
  · rintro ⟨d, rfl, hstop, hbefore⟩
    refine ⟨hstop, d, by simp, by simp, ?_⟩
    intro e he
    have := hbefore ⟨e, by omega⟩ he
    simpa using this

theorem scan_eq_none_iff {t : ProbeTable n K} (start : Nat) {k : K} :
    t.scan start k = none ↔ ∀ i, t.used i = true ∧ t.keys i ≠ k := by
  unfold scan
  rw [List.find?_eq_none]
  constructor
  · intro h i
    obtain ⟨d, rfl⟩ := exists_probeAt start i
    have := h _ (List.mem_map_of_mem (List.mem_finRange d))
    simpa [stops] using this
  · intro h i _
    simpa [stops] using h i

/-! ## Representing a finite map -/

/-- The table represents `live`, and every probe path of a used slot is full. -/
structure Holds (home : K → Nat) (t : ProbeTable n K) (live : K → Option (Fin n)) : Prop where
  live_iff : ∀ k i, live k = some i ↔ t.used i = true ∧ t.keys i = k
  noHoles : ∀ i j, t.used j = true → Precedes (home (t.keys j)) i j → t.used i = true

/-- Freeing `freed` leaves no hole on the probe path of a slot that stays used. -/
def EvictSafe (home : K → Nat) (t : ProbeTable n K) (freed : Fin n → Bool) : Prop :=
  ∀ i j, t.used j = true → freed j = false → Precedes (home (t.keys j)) i j → freed i = false

variable {home : K → Nat} {t : ProbeTable n K} {live : K → Option (Fin n)}

omit [DecidableEq K] in
/-- The empty table represents the empty map. -/
theorem Holds.empty (keys : Fin n → K) :
    Holds home ⟨fun _ => false, keys⟩ (fun _ => none) where
  live_iff := by simp
  noHoles := by simp

omit [DecidableEq K] in
/-- Two used slots never hold one key. -/
theorem Holds.unique (h : Holds home t live) {i j : Fin n} (hi : t.used i = true)
    (hj : t.used j = true) (hk : t.keys i = t.keys j) : i = j := by
  have h1 := (h.live_iff (t.keys j) i).mpr ⟨hi, hk⟩
  have h2 := (h.live_iff (t.keys j) j).mpr ⟨hj, rfl⟩
  exact Option.some.inj (h1.symm.trans h2)

/-- A search for a live key stops at its slot: the path up to it is used by other keys. -/
theorem Holds.scan_live (h : Holds home t live) {k : K} {i : Fin n} (hk : live k = some i) :
    t.scan (home k) k = some i := by
  obtain ⟨hused, hkey⟩ := (h.live_iff k i).mp hk
  obtain ⟨d, hd⟩ := exists_probeAt (home k) i
  refine scan_eq_some_iff.mpr ⟨d, hd, by simp [stops, hkey], ?_⟩
  intro e he
  -- the slots tested before it are used, each by another key
  have hue : t.used (probeAt (home k) e) = true :=
    h.noHoles _ i hused (by rw [hkey]; exact ⟨e, d, he, rfl, hd⟩)
  have hke : t.keys (probeAt (home k) e) ≠ k := by
    intro hc
    have heq := h.unique hue hused (hc.trans hkey.symm)
    rw [← hd] at heq
    exact absurd (probeAt_injective _ heq) (ne_of_lt he)
  simp [stops, hue, hke]

/-- A search for a key that is not live can only stop at an unused slot. -/
theorem Holds.scan_free (h : Holds home t live) {k : K} {i : Fin n} (hk : live k = none)
    (hs : t.scan (home k) k = some i) :
    t.used i = false ∧ ∀ j, Precedes (home k) j i → t.used j = true := by
  obtain ⟨d, hd, hstop, hbefore⟩ := scan_eq_some_iff.mp hs
  constructor
  · by_contra hu
    have hu : t.used i = true := by simpa using hu
    have hkey : t.keys i = k := by simpa [stops, hu] using hstop
    have := (h.live_iff k i).mpr ⟨hu, hkey⟩
    rw [hk] at this
    simp at this
  · rintro j ⟨e, d', hlt, rfl, hd'⟩
    have hdd : d' = d := probeAt_injective _ (hd'.trans hd.symm)
    have := hbefore e (hdd ▸ hlt)
    simp only [stops, Bool.or_eq_false_iff, Bool.not_eq_eq_eq_not, Bool.not_false] at this
    exact this.1

/-- **Lookup reads the map back.** -/
theorem Holds.lookup_eq (h : Holds home t live) (k : K) : t.lookup (home k) k = live k := by
  unfold lookup
  cases hk : live k with
  | some i =>
    rw [h.scan_live hk, Option.filter_some, if_pos ((h.live_iff k i).mp hk).1]
  | none =>
    cases hs : t.scan (home k) k with
    | none => rfl
    | some i => rw [Option.filter_some, if_neg (by simp [(h.scan_free hk hs).1])]

/-- A search stops nowhere only when `n` other keys are live. -/
theorem Holds.full (h : Holds home t live) {k : K} {start : Nat} (hs : t.scan start k = none) :
    ∃ ks : Finset K, ks.card = n ∧ k ∉ ks ∧ ∀ k' ∈ ks, (live k').isSome = true := by
  have hall := (scan_eq_none_iff start).mp hs
  refine ⟨Finset.univ.image t.keys, ?_, ?_, ?_⟩
  · rw [Finset.card_image_of_injective, Finset.card_univ, Fintype.card_fin]
    exact fun i j hij => h.unique (hall i).1 (hall j).1 hij
  · intro hk
    obtain ⟨i, -, hi⟩ := Finset.mem_image.mp hk
    exact (hall i).2 hi
  · intro k' hk'
    obtain ⟨i, -, rfl⟩ := Finset.mem_image.mp hk'
    rw [(h.live_iff _ i).mpr ⟨(hall i).1, rfl⟩]
    rfl

/-- **Insertion.** Occupying the free slot the search stopped at adds the key to the map. -/
theorem Holds.occupy (h : Holds home t live) {k : K} {i : Fin n} (hk : live k = none)
    (hs : t.scan (home k) k = some i) :
    Holds home (t.occupy i k) (Function.update live k (some i)) := by
  obtain ⟨hfree, hpath⟩ := h.scan_free hk hs
  have hmono : ∀ j, t.used j = true → (t.occupy i k).used j = true := by
    intro j hj
    by_cases hji : j = i
    · simp [ProbeTable.occupy, hji]
    · simp [ProbeTable.occupy, hji, hj]
  constructor
  -- the new slot is the one change of the graph, and it was nobody's
  · intro k' j
    by_cases hji : j = i
    · subst hji
      have hno : live k' ≠ some j := by
        intro hc
        rw [((h.live_iff k' j).mp hc).1] at hfree
        simp at hfree
      by_cases hkk : k' = k
      · simp [ProbeTable.occupy, hkk]
      · simp [ProbeTable.occupy, hkk, hno, Ne.symm hkk]
    · by_cases hkk : k' = k
      · subst hkk
        have hno : ¬ (t.used j = true ∧ t.keys j = k') := by
          intro hc
          rw [(h.live_iff k' j).mpr hc] at hk
          simp at hk
        simp only [Function.update_self, Option.some.injEq]
        simp only [ProbeTable.occupy, Function.update_of_ne hji]
        exact ⟨fun hc => absurd hc.symm hji, fun hc => absurd hc hno⟩
      · simp only [Function.update_of_ne hkk, ProbeTable.occupy, Function.update_of_ne hji]
        exact h.live_iff k' j
  -- the path of the new key was searched just now; the other paths only gain used slots
  · intro j j' hj' hpre
    by_cases hji : j' = i
    · subst hji
      refine hmono j (hpath j ?_)
      simpa [ProbeTable.occupy] using hpre
    · simp only [ProbeTable.occupy, Function.update_of_ne hji] at hj' hpre
      exact hmono j (h.noHoles j j' hj' hpre)

omit [DecidableEq K] in
/-- **Deletion.** Freeing slots that are on no surviving probe path removes their keys. -/
theorem Holds.release (h : Holds home t live) {freed : Fin n → Bool}
    (hsafe : EvictSafe home t freed) :
    Holds home (t.release freed) (fun k => (live k).filter fun i => !freed i) := by
  constructor
  · intro k i
    simp only [Option.filter_eq_some_iff, h.live_iff, ProbeTable.release, Bool.and_eq_true]
    tauto
  · intro i j hj hpre
    simp only [ProbeTable.release, Bool.and_eq_true, Bool.not_eq_true'] at hj hpre ⊢
    exact ⟨h.noHoles i j hj.1 hpre, hsafe i j hj.1 hj.2 hpre⟩

/-- **A hole hides a live key.** After an unsafe deletion some surviving key is not found. -/
theorem Holds.hidden (h : Holds home t live) {freed : Fin n → Bool}
    (hbad : ¬ EvictSafe home t freed) :
    ∃ k, (t.release freed).lookup (home k) k ≠ (live k).filter fun i => !freed i := by
  unfold EvictSafe at hbad
  push Not at hbad
  obtain ⟨i, j, hj, hfj, ⟨d, e, hde, hd, he⟩, hfi⟩ := hbad
  refine ⟨t.keys j, ?_⟩
  have hlive : live (t.keys j) = some j := (h.live_iff _ j).mpr ⟨hj, rfl⟩
  rw [hlive, Option.filter_some, if_pos (by simp [hfj])]
  intro hc
  unfold lookup at hc
  have hscan : (t.release freed).scan (home (t.keys j)) (t.keys j) = some j :=
    ((Option.filter_eq_some_iff).mp hc).1
  -- the search that should reach the kept slot passes the freed one, and stops there
  obtain ⟨e', he', -, hbefore⟩ := scan_eq_some_iff.mp hscan
  have hee : e' = e := probeAt_injective _ (he'.trans he.symm)
  have hstop := hbefore d (hee ▸ hde)
  rw [hd] at hstop
  simp [stops, ProbeTable.release, hfi] at hstop

end ProbeTable

end Infra
