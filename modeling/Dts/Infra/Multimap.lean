import Mathlib.Data.List.Nodup

/-!
# Indexes

* `Multimap` — a hash map from keys to sets of values. `mem_addAll` says what is in it after a value
  was added under a list of keys, and `Full` that no key has an empty set.
* `collect` — the elements of a list that meet a condition, each once
-/

namespace Infra

/-! ## Maps to sets -/

abbrev Multimap (κ ν : Type*) [BEq κ] [Hashable κ] [BEq ν] [Hashable ν] :=
  Std.HashMap κ (Std.HashSet ν)

namespace Multimap

variable {κ ν : Type*} [DecidableEq κ] [Hashable κ] [DecidableEq ν] [Hashable ν]

/-- The values of a key. -/
def values (m : Multimap κ ν) (k : κ) : Std.HashSet ν := m.getD k ∅

/-- `m[k].insert(v)`. -/
def add (m : Multimap κ ν) (k : κ) (v : ν) : Multimap κ ν := m.insert k ((m.values k).insert v)

/-- Add one value under several keys. -/
def addAll (m : Multimap κ ν) (ks : List κ) (v : ν) : Multimap κ ν :=
  ks.foldl (fun m k => m.add k v) m

/-- Every key has a value. -/
def Full (m : Multimap κ ν) : Prop := ∀ k, k ∈ m ↔ ∃ v, v ∈ m.values k

variable {m : Multimap κ ν} {k k' : κ} {v v' : ν}

theorem mem_add : v' ∈ (m.add k v).values k' ↔ v' ∈ m.values k' ∨ (k' = k ∧ v' = v) := by
  unfold values add
  rw [Std.HashMap.getD_insert]
  split
  · rename_i h
    obtain rfl := eq_of_beq h
    rw [Std.HashSet.mem_insert, beq_iff_eq]
    simp [values, or_comm, eq_comm]
  · rename_i h
    have hne : k' ≠ k := fun heq => h (beq_iff_eq.mpr heq.symm)
    simp [hne]

theorem mem_addAll (ks : List κ) (m : Multimap κ ν) :
    v' ∈ (m.addAll ks v).values k ↔ v' ∈ m.values k ∨ (k ∈ ks ∧ v' = v) := by
  induction ks generalizing m with
  | nil => simp [addAll]
  | cons k' ks ih =>
    rw [addAll, List.foldl_cons, ← addAll, ih, mem_add, List.mem_cons, or_assoc, ← or_and_right]

/-- A value is in the index if one of the elements brought it in. -/
theorem mem_foldl_addAll {α : Type*} (ks : α → List κ) (f : α → ν) (as : List α)
    (m : Multimap κ ν) :
    v ∈ (as.foldl (fun m a => m.addAll (ks a) (f a)) m).values k ↔
      v ∈ m.values k ∨ ∃ a ∈ as, k ∈ ks a ∧ v = f a := by
  induction as generalizing m with
  | nil => simp
  | cons a as ih => rw [List.foldl_cons, ih, mem_addAll, List.exists_mem_cons_iff, or_assoc]

theorem Full.empty : Full (∅ : Multimap κ ν) := by simp [Full, values]

theorem Full.add (h : m.Full) (k : κ) (v : ν) : (m.add k v).Full := by
  intro k'
  simp only [mem_add, exists_or, ← h k', exists_and_left, exists_eq, and_true]
  rw [Multimap.add, Std.HashMap.mem_insert, beq_iff_eq, or_comm, eq_comm]

theorem Full.addAll (h : m.Full) (ks : List κ) (v : ν) : (m.addAll ks v).Full := by
  induction ks generalizing m with
  | nil => exact h
  | cons k ks ih => exact ih (h.add k v)

theorem Full.foldl_addAll {α : Type*} (h : m.Full) (ks : α → List κ) (f : α → ν) (as : List α) :
    (as.foldl (fun m a => m.addAll (ks a) (f a)) m).Full := by
  induction as generalizing m with
  | nil => exact h
  | cons a as ih => exact ih (h.addAll (ks a) (f a))

end Multimap

/-! ## Lists without duplicates -/

section
variable {α : Type*} [DecidableEq α] [Hashable α]

/-- `if (seen.insert(a).second) out.push_back(a)`. -/
def pushNew (acc : Std.HashSet α × List α) (a : α) : Std.HashSet α × List α :=
  if a ∈ acc.1 then acc else (acc.1.insert a, acc.2 ++ [a])

/-- The elements that meet `p`, each where it comes first. -/
def collect (p : α → Bool) (as : List α) : List α :=
  (as.foldl (fun acc a => if p a then pushNew acc a else acc) (∅, [])).2

/-- The set has the elements of the list, each of which is in the list once. -/
structure Distinct (acc : Std.HashSet α × List α) : Prop where
  nodup : acc.2.Nodup
  mem_iff : ∀ a, a ∈ acc.1 ↔ a ∈ acc.2

variable {acc : Std.HashSet α × List α} {a b : α}

theorem Distinct.pushNew (h : Distinct acc) (a : α) : Distinct (pushNew acc a) := by
  unfold Infra.pushNew
  split
  · exact h
  · rename_i hnew
    have hnotin : a ∉ acc.2 := fun hmem => hnew ((h.mem_iff a).mpr hmem)
    refine ⟨?_, fun b => ?_⟩
    · rw [← List.concat_eq_append]
      exact h.nodup.concat hnotin
    · rw [Std.HashSet.mem_insert, beq_iff_eq, h.mem_iff, List.mem_append, List.mem_singleton,
        or_comm, eq_comm]

theorem Distinct.mem_pushNew (h : Distinct acc) : b ∈ (Infra.pushNew acc a).2 ↔ b ∈ acc.2 ∨ b = a := by
  unfold Infra.pushNew
  split
  · rename_i hold
    have hmem := (h.mem_iff a).mp hold
    constructor
    · exact .inl
    · rintro (hb | rfl)
      · exact hb
      · exact hmem
  · rw [List.mem_append, List.mem_singleton]

theorem Distinct.foldl (h : Distinct acc) (as : List α) :
    Distinct (as.foldl Infra.pushNew acc) ∧
      ∀ b, b ∈ (as.foldl Infra.pushNew acc).2 ↔ b ∈ acc.2 ∨ b ∈ as := by
  induction as generalizing acc with
  | nil => exact ⟨h, by simp⟩
  | cons a as ih =>
    obtain ⟨hdistinct, hmem⟩ := ih (h.pushNew a)
    refine ⟨hdistinct, fun b => ?_⟩
    rw [List.foldl_cons, hmem, h.mem_pushNew, List.mem_cons, or_assoc]

theorem Distinct.empty : Distinct ((∅, []) : Std.HashSet α × List α) :=
  ⟨List.nodup_nil, by simp⟩

theorem collect_eq (p : α → Bool) (as : List α) :
    collect p as = ((as.filter p).foldl pushNew (∅, [])).2 := by
  rw [collect, List.foldl_filter]

theorem nodup_collect (p : α → Bool) (as : List α) : (collect p as).Nodup := by
  rw [collect_eq]
  exact (Distinct.empty.foldl _).1.nodup

theorem mem_collect {p : α → Bool} {as : List α} : a ∈ collect p as ↔ a ∈ as ∧ p a = true := by
  rw [collect_eq, (Distinct.empty.foldl _).2, List.mem_filter]
  simp

end

end Infra
