import Dts.Infra.Bytes
import Mathlib.Data.Nat.ModEq
import Mathlib.Data.List.Nodup
import Mathlib.Algebra.BigOperators.Group.List.Basic

/-!
# Ring buffers

A ring of capacity `C` keeps the byte at running position `p` at address `p % C`.

* `ringAddrs C p n` — the addresses of the `n` bytes from position `p`
* `copyAddrs C a n` — the same bytes as a copy in two parts: up to the end, then from address 0
* `storeAll` — a list of byte stores, in the order they are made
* `Stored` — the records laid out one after another from a position

Two ranges of positions that together span at most `C` have disjoint addresses; every frame
fact about a ring comes from this.
-/

namespace Infra

/-! ## Addresses -/

/-- `n` consecutive addresses from `a`. -/
def segAddrs (a n : Nat) : List Nat := (List.range n).map fun i => a + i

/-- The addresses of an `n`-byte copy from `a` that continues at 0 past the end. -/
def copyAddrs (C a n : Nat) : List Nat :=
  segAddrs a (min (C - a) n) ++ segAddrs 0 (n - min (C - a) n)

/-- The addresses of the `n` bytes from position `p`. -/
def ringAddrs (C p n : Nat) : List Nat := (List.range n).map fun i => (p + i) % C

variable {C p q n k a : Nat}

@[simp] theorem length_ringAddrs (C p n : Nat) : (ringAddrs C p n).length = n := by
  simp [ringAddrs]

theorem mem_ringAddrs : a ∈ ringAddrs C p n ↔ ∃ i < n, (p + i) % C = a := by
  simp [ringAddrs]

theorem ringAddrs_add (C p n k : Nat) :
    ringAddrs C p (n + k) = ringAddrs C p n ++ ringAddrs C (p + n) k := by
  simp [ringAddrs, List.range_add, Nat.add_assoc, Function.comp_def]

/-- Only the position modulo `C` matters. -/
theorem ringAddrs_mod (C p n : Nat) : ringAddrs C (p % C) n = ringAddrs C p n := by
  refine List.map_congr_left ?_
  intro i _
  rw [Nat.mod_add_mod]

theorem ringAddrs_congr (h : p % C = q % C) : ringAddrs C p n = ringAddrs C q n := by
  rw [← ringAddrs_mod C p, h, ringAddrs_mod]

/-- Positions that do not cross the end are consecutive addresses. -/
theorem segAddrs_eq (h : a + n ≤ C) : segAddrs a n = ringAddrs C a n := by
  refine List.map_congr_left ?_
  intro i hi
  have := List.mem_range.mp hi
  rw [Nat.mod_eq_of_lt (by omega)]

/-- **Split copy.** The copy in two parts goes around the ring. -/
theorem copyAddrs_eq (ha : a ≤ C) (hn : n ≤ C) : copyAddrs C a n = ringAddrs C a n := by
  rcases Nat.le_total n (C - a) with h | h
  -- the copy ends before the ring does: the second part is empty
  · rw [copyAddrs, Nat.min_eq_right h, Nat.sub_self, segAddrs_eq (by omega : a + n ≤ C)]
    simp [segAddrs]
  -- the second part starts at position C, which is address 0
  · have hsplit : n = (C - a) + (n - (C - a)) := by omega
    have hwrap : ringAddrs C C (n - (C - a)) = ringAddrs C 0 (n - (C - a)) :=
      ringAddrs_congr (by simp)
    rw [copyAddrs, Nat.min_eq_left h, segAddrs_eq (by omega : a + (C - a) ≤ C),
      segAddrs_eq (by omega : 0 + (n - (C - a)) ≤ C), ← hwrap]
    conv_rhs => rw [hsplit, ringAddrs_add, Nat.add_sub_cancel' ha]

/-- Different positions less than `C` apart have different addresses. -/
theorem mod_ne_mod (hpq : p < q) (hC : q < p + C) : p % C ≠ q % C := by
  intro h
  have hdvd : C ∣ q - p := (Nat.modEq_iff_dvd' hpq.le).mp h
  exact absurd (Nat.le_of_dvd (by omega) hdvd) (by omega)

/-- Ranges that together span at most `C` positions have disjoint addresses. -/
theorem disjoint_ringAddrs (hpq : p + n ≤ q) (hC : q + k ≤ p + C) :
    List.Disjoint (ringAddrs C p n) (ringAddrs C q k) := by
  intro a h1 h2
  obtain ⟨i, hi, rfl⟩ := mem_ringAddrs.mp h1
  obtain ⟨j, hj, heq⟩ := mem_ringAddrs.mp h2
  exact mod_ne_mod (by omega : p + i < q + j) (by omega) heq.symm

theorem nodup_ringAddrs (h : n ≤ C) : (ringAddrs C p n).Nodup := by
  refine List.Nodup.map_on (fun i hi j hj hij => ?_) List.nodup_range
  have hi := List.mem_range.mp hi
  have hj := List.mem_range.mp hj
  rcases Nat.lt_trichotomy i j with hlt | heq | hgt
  · exact absurd hij (mod_ne_mod (by omega) (by omega))
  · exact heq
  · exact absurd hij.symm (mod_ne_mod (by omega) (by omega))

/-! ## Stores -/

/-- The stores, one byte each, in order. -/
def storeAll : Mem → List (Nat × UInt8) → Mem
  | m, [] => m
  | m, (a, b) :: todo => storeAll (Function.update m a b) todo

@[simp] theorem storeAll_nil (m : Mem) : storeAll m [] = m := rfl

theorem storeAll_append (m : Mem) (xs ys : List (Nat × UInt8)) :
    storeAll m (xs ++ ys) = storeAll (storeAll m xs) ys := by
  induction xs generalizing m with
  | nil => rfl
  | cons x xs ih => exact ih _

/-- An address that no store names keeps its byte. -/
theorem storeAll_of_not_mem {m : Mem} {todo : List (Nat × UInt8)}
    (h : a ∉ todo.map Prod.fst) : storeAll m todo a = m a := by
  induction todo generalizing m with
  | nil => rfl
  | cons x todo ih =>
    rw [List.map_cons, List.mem_cons, not_or] at h
    obtain ⟨hx, htodo⟩ := h
    rw [storeAll, ih htodo, Function.update_of_ne hx]

/-- Stores at different addresses all stay. -/
theorem map_storeAll_zip : ∀ {m : Mem} {as : List Nat} {bs : Bytes}, as.Nodup →
    as.length = bs.length → as.map (storeAll m (as.zip bs)) = bs
  | _, [], [], _, _ => rfl
  | _, [], _ :: _, _, h => by simp at h
  | _, _ :: _, [], _, h => by simp at h
  | m, a :: as, b :: bs, hnd, hlen => by
    obtain ⟨ha, hnd⟩ := List.nodup_cons.mp hnd
    have hlen : as.length = bs.length := by simpa using hlen
    have hkeep : a ∉ (as.zip bs).map Prod.fst := by
      rwa [List.map_fst_zip hlen.le]
    rw [List.zip_cons_cons, List.map_cons, storeAll, storeAll_of_not_mem hkeep,
      Function.update_self, map_storeAll_zip hnd hlen]

/-! ## Loads -/

/-- The `n` bytes from position `p`. -/
def ringLoad (C : Nat) (m : Mem) (p n : Nat) : Bytes := (ringAddrs C p n).map m

theorem ringLoad_add (C : Nat) (m : Mem) (p n k : Nat) :
    ringLoad C m p (n + k) = ringLoad C m p n ++ ringLoad C m (p + n) k := by
  rw [ringLoad, ringAddrs_add, List.map_append]
  rfl

theorem ringLoad_congr {m m' : Mem} (h : ∀ a ∈ ringAddrs C p n, m a = m' a) :
    ringLoad C m p n = ringLoad C m' p n := List.map_congr_left h

/-- A load of what was just stored. -/
theorem ringLoad_storeAll {m : Mem} {bs : Bytes} (h : bs.length ≤ C) :
    ringLoad C (storeAll m ((ringAddrs C p bs.length).zip bs)) p bs.length = bs :=
  map_storeAll_zip (nodup_ringAddrs h) (length_ringAddrs ..)

/-! ## Records -/

section Records

variable {α : Type*} (size : α → Nat) (bytes : α → Bytes)

/-- The positions a list of records takes. -/
def extent (l : List α) : Nat := (l.map size).sum

@[simp] theorem extent_nil : extent size [] = 0 := rfl

@[simp] theorem extent_cons (x : α) (l : List α) : extent size (x :: l) = size x + extent size l :=
  by simp [extent]

@[simp] theorem extent_append (l l' : List α) :
    extent size (l ++ l') = extent size l + extent size l' := by simp [extent]

/-- The records stand one after another from position `p`. -/
def Stored (C : Nat) (m : Mem) : Nat → List α → Prop
  | _, [] => True
  | p, x :: l => ringLoad C m p (bytes x).length = bytes x ∧ Stored C m (p + size x) l

variable {size bytes}

theorem stored_append {m : Mem} {p : Nat} {l l' : List α} :
    Stored size bytes C m p (l ++ l') ↔
      Stored size bytes C m p l ∧ Stored size bytes C m (p + extent size l) l' := by
  induction l generalizing p with
  | nil => simp [Stored]
  | cons x l ih => rw [List.cons_append, Stored, Stored, ih, extent_cons, Nat.add_assoc, and_assoc]

/-- **Frame rule.** Memory that agrees on the records' positions holds the same records. -/
theorem Stored.congr (hsize : ∀ x, (bytes x).length ≤ size x) {m m' : Mem} :
    ∀ {p : Nat} {l : List α}, (∀ a ∈ ringAddrs C p (extent size l), m a = m' a) →
      Stored size bytes C m p l → Stored size bytes C m' p l
  | _, [], _, _ => trivial
  | p, x :: l, h, ⟨hx, hl⟩ => by
    -- the bytes of the record, its padding, and the records behind it
    have hsplit : ringAddrs C p (extent size (x :: l)) =
        ringAddrs C p (bytes x).length ++
          ringAddrs C (p + (bytes x).length) (size x - (bytes x).length) ++
          ringAddrs C (p + size x) (extent size l) := by
      rw [extent_cons, ← ringAddrs_add, Nat.add_sub_cancel' (hsize x), ← ringAddrs_add]
    rw [hsplit] at h
    have hhead : ringLoad C m p (bytes x).length = ringLoad C m' p (bytes x).length :=
      ringLoad_congr fun a ha => h a (by simp [ha])
    exact ⟨hhead ▸ hx, Stored.congr hsize (fun a ha => h a (by simp [ha])) hl⟩

end Records

end Infra
