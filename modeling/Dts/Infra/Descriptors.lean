import Mathlib.Data.Finset.Basic
import Mathlib.Logic.Function.Basic

/-!
# Descriptors

The descriptor numbers of a process and who has them open. A number that is closed is free again, and
the kernel may give out any free number, so a number says who has it only while it is open.

* `Held` — every user has the descriptor open that it thinks it has
* `Listed` — the number of every user is in a set of numbers
* `Backed` — every number of the set is the number of a user

Users are any type `ι`, and `own` says under which name of the table a user opens descriptors; there
may be other names.
-/

namespace Infra

variable {κ ι : Type*}

/-- Who has opened each number; `none` is a free number. -/
abbrev Descriptors (κ : Type*) := Nat → Option κ

/-- The kernel gives `k` the number `fd`, which must be free. -/
def Descriptors.acquire (table : Descriptors κ) (fd : Nat) (k : κ) : Option (Descriptors κ) :=
  match table fd with
  | none => some (Function.update table fd (some k))
  | some _ => none

/-- `close`: the number can be given out again. -/
def Descriptors.release (table : Descriptors κ) (fd : Nat) : Descriptors κ :=
  Function.update table fd none

theorem Descriptors.acquire_eq_some {table table' : Descriptors κ} {fd : Nat} {k : κ} :
    table.acquire fd k = some table' ↔
      table fd = none ∧ table' = Function.update table fd (some k) := by
  unfold Descriptors.acquire
  cases table fd with
  | none => simp [eq_comm]
  | some l => simp

/-! ## Held descriptors -/

/-- A change of state that keeps what is read off it. -/
theorem comp_update_of_eq {π γ : Type*} [DecidableEq ι] (f : π → γ) (state : ι → π) {i : ι} {p : π}
    (h : f p = f (state i)) : (fun j => f (Function.update state i p j)) = fun j => f (state j) := by
  funext j
  rcases eq_or_ne j i with rfl | hne
  · rw [Function.update_self, h]
  · rw [Function.update_of_ne hne]

/-- User `i` has `hold i` open. -/
def Held (table : Descriptors κ) (own : ι → κ) (hold : ι → Option Nat) : Prop :=
  ∀ i fd, hold i = some fd → table fd = some (own i)

namespace Held

variable {table table' : Descriptors κ} {own : ι → κ} {hold : ι → Option Nat} {i j : ι} {fd : Nat}
  {k : κ}

/-- No two users have the same number. -/
theorem inj (h : Held table own hold) (hown : Function.Injective own) (hi : hold i = some fd)
    (hj : hold j = some fd) : i = j :=
  hown (Option.some.inj ((h i fd hi).symm.trans (h j fd hj)))

/-- A new descriptor is not one of those held. -/
theorem acquired (h : Held table own hold) (ht : table.acquire fd k = some table') :
    Held table' own hold := by
  obtain ⟨hfree, rfl⟩ := Descriptors.acquire_eq_some.mp ht
  intro i fd' hi
  have hopen := h i fd' hi
  have hne : fd' ≠ fd := by
    rintro rfl
    rw [hfree] at hopen
    cases hopen
  rw [Function.update_of_ne hne, hopen]

/-- What is closed under another name is not the descriptor of a user. -/
theorem released (h : Held table own hold) (hk : table fd = some k) (hother : ∀ i, own i ≠ k) :
    Held (table.release fd) own hold := by
  intro i fd' hi
  have hfd : fd' ≠ fd := by
    rintro rfl
    exact hother i (Option.some.inj ((h i fd' hi).symm.trans hk))
  rw [Descriptors.release, Function.update_of_ne hfd]
  exact h i fd' hi

variable [DecidableEq ι]

theorem acquire (h : Held table own hold) (ht : table.acquire fd (own i) = some table') :
    Held table' own (Function.update hold i (some fd)) := by
  have hold' := h.acquired ht
  obtain ⟨-, rfl⟩ := Descriptors.acquire_eq_some.mp ht
  intro j fd' hj
  rcases eq_or_ne j i with rfl | hne
  · rw [Function.update_self] at hj
    rw [← Option.some.inj hj, Function.update_self]
  · rw [Function.update_of_ne hne] at hj
    exact hold' j fd' hj

/-- What user `i` closes is not the descriptor of another user. -/
theorem release (h : Held table own hold) (hown : Function.Injective own) (hi : hold i = some fd) :
    Held (table.release fd) own (Function.update hold i none) := by
  intro j fd' hj
  rcases eq_or_ne j i with rfl | hne
  · rw [Function.update_self] at hj
    cases hj
  · rw [Function.update_of_ne hne] at hj
    have hfd : fd' ≠ fd := by
      rintro rfl
      exact hne (h.inj hown hj hi)
    rw [Descriptors.release, Function.update_of_ne hfd]
    exact h j fd' hj

end Held

/-! ## Sets of numbers -/

/-- Every number that somebody has registered is in the set. -/
def Listed (fds : Finset Nat) (reg : ι → Option Nat) : Prop := ∀ i fd, reg i = some fd → fd ∈ fds

/-- And every number of the set is registered by somebody. -/
def Backed (fds : Finset Nat) (reg : ι → Option Nat) : Prop := ∀ fd ∈ fds, ∃ i, reg i = some fd

variable {fds fds' : Finset Nat} {reg : ι → Option Nat} {i : ι} {fd : Nat}

/-- A number may be erased when no user has it. -/
theorem Listed.erase (h : Listed fds reg) (hfree : ∀ j, reg j ≠ some fd) :
    Listed (fds.erase fd) reg := by
  intro j fd' hj
  refine Finset.mem_erase.mpr ⟨?_, h j fd' hj⟩
  rintro rfl
  exact hfree j hj

theorem Backed.subset (h : Backed fds reg) (hsub : fds' ⊆ fds) : Backed fds' reg :=
  fun fd hfd => h fd (hsub hfd)

variable [DecidableEq ι]

theorem Listed.insert (h : Listed fds reg) :
    Listed (insert fd fds) (Function.update reg i (some fd)) := by
  intro j fd' hj
  rcases eq_or_ne j i with rfl | hne
  · rw [Function.update_self] at hj
    exact Option.some.inj hj ▸ Finset.mem_insert_self fd fds
  · rw [Function.update_of_ne hne] at hj
    exact Finset.mem_insert_of_mem (h j fd' hj)

theorem Listed.drop (h : Listed fds reg) : Listed fds (Function.update reg i none) := by
  intro j fd' hj
  rcases eq_or_ne j i with rfl | hne
  · rw [Function.update_self] at hj
    cases hj
  · rw [Function.update_of_ne hne] at hj
    exact h j fd' hj

theorem Backed.insert (h : Backed fds reg) (hi : reg i = none) :
    Backed (insert fd fds) (Function.update reg i (some fd)) := by
  intro fd' hfd
  rcases Finset.mem_insert.mp hfd with rfl | hfd
  · exact ⟨i, Function.update_self ..⟩
  · obtain ⟨j, hj⟩ := h fd' hfd
    have hne : j ≠ i := by
      rintro rfl
      rw [hi] at hj
      cases hj
    exact ⟨j, by rw [Function.update_of_ne hne, hj]⟩

/-- User `i` erases its own number. -/
theorem Backed.erase (h : Backed fds reg) (hi : reg i = some fd) :
    Backed (fds.erase fd) (Function.update reg i none) := by
  intro fd' hfd
  obtain ⟨hne, hmem⟩ := Finset.mem_erase.mp hfd
  obtain ⟨j, hj⟩ := h fd' hmem
  have hji : j ≠ i := by
    rintro rfl
    exact hne (Option.some.inj (hj.symm.trans hi))
  exact ⟨j, by rw [Function.update_of_ne hji, hj]⟩

end Infra
