import Mathlib.Data.List.Basic
import Mathlib.Algebra.BigOperators.Group.List.Basic
import Mathlib.Algebra.GroupWithZero.Nat

/-!
# Packed layouts

Items with distinct keys are laid out one after another from a base; equal blocks stand one after
another in a pool.

* `packedAt l base k` — where the item with key `k` starts
* `packedAt_disjoint`, `packedAt_add_le` — the items do not overlap and end within the layout
* `stride_le` — a range inside block `i` ends before block `j` starts, for `i < j`
* `forall_dvd_stride_iff` — from an aligned base all blocks are aligned when their size is
-/

namespace Infra

section Packed

variable {α K : Type*} [DecidableEq K] (key : α → K) (size : α → ℕ)

/-- The start of the first item with key `k` in the layout of `l` from `base`. -/
def packedAt : List α → ℕ → K → ℕ
  | [], base, _ => base
  | a :: l, base, k => if key a = k then base else packedAt l (base + size a) k

variable {key size} {l : List α} {base : ℕ} {a b : α}

theorem le_packedAt (k : K) : base ≤ packedAt key size l base k := by
  induction l generalizing base with
  | nil => exact Nat.le_refl base
  | cons x l ih =>
    rw [packedAt]
    split
    · exact Nat.le_refl base
    · exact Nat.le_trans (Nat.le_add_right base (size x)) ih

/-- **Every item ends within the layout.** -/
theorem packedAt_add_le (hnd : (l.map key).Nodup) (ha : a ∈ l) :
    packedAt key size l base (key a) + size a ≤ base + (l.map size).sum := by
  induction l generalizing base with
  | nil => simp at ha
  | cons x l ih =>
    rw [List.map_cons, List.nodup_cons] at hnd
    rw [packedAt, List.map_cons, List.sum_cons]
    rcases List.mem_cons.mp ha with rfl | hmem
    · rw [if_pos rfl]
      omega
    · have hne : key x ≠ key a := by
        intro heq
        exact hnd.1 (heq ▸ List.mem_map_of_mem hmem)
      have hrest := @ih (base + size x) hnd.2 hmem
      rw [if_neg hne]
      omega

/-- **Different items do not overlap.** -/
theorem packedAt_disjoint (hnd : (l.map key).Nodup) (ha : a ∈ l) (hb : b ∈ l)
    (hab : key a ≠ key b) :
    packedAt key size l base (key a) + size a ≤ packedAt key size l base (key b) ∨
      packedAt key size l base (key b) + size b ≤ packedAt key size l base (key a) := by
  induction l generalizing base with
  | nil => simp at ha
  | cons x l ih =>
    rw [List.map_cons, List.nodup_cons] at hnd
    have hhead : ∀ c ∈ l, key x ≠ key c := by
      intro c hc heq
      exact hnd.1 (heq ▸ List.mem_map_of_mem hc)
    rw [packedAt, packedAt]
    rcases List.mem_cons.mp ha with rfl | hma
    · -- the first item ends where the rest starts
      rw [if_pos rfl, if_neg hab]
      exact Or.inl (le_packedAt _)
    · rcases List.mem_cons.mp hb with rfl | hmb
      · rw [if_pos rfl, if_neg (hhead a hma)]
        exact Or.inr (le_packedAt _)
      · rw [if_neg (hhead a hma), if_neg (hhead b hmb)]
        exact ih hnd.2 hma hmb

end Packed

/-! ## Equal blocks -/

/-- A range of block `i` ends before a later block starts. -/
theorem stride_le {w off n i j : ℕ} (h : off + n ≤ w) (hij : i < j) : i * w + off + n ≤ j * w := by
  have hstep : (i + 1) * w ≤ j * w := Nat.mul_le_mul_right w hij
  rw [Nat.add_mul, Nat.one_mul] at hstep
  omega

/-- **Aligned blocks.** The second block shows whether the block size keeps the alignment. -/
theorem forall_dvd_stride_iff {a base w n : ℕ} (hbase : a ∣ base) (hn : 1 < n) :
    (∀ i < n, a ∣ base + i * w) ↔ a ∣ w := by
  constructor
  · intro h
    have hsecond := h 1 hn
    rw [Nat.one_mul] at hsecond
    exact (Nat.dvd_add_right hbase).mp hsecond
  · intro hw i _
    exact Nat.dvd_add hbase (Dvd.dvd.mul_left hw i)

end Infra
