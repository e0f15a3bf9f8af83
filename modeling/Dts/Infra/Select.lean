import Mathlib.Data.List.Induction
import Mathlib.Data.List.Sort

/-!
# Selecting the smallest element again and again

* `minElement` — the first smallest element of a list, for a comparison by a key
* `minElement_eq_some_iff` — it stands behind larger elements only and before none smaller
* `inOrder_of_minElement` — taking it out leaves the rest of the sorted list, so repeated
  selection runs through the list in stable order
-/

namespace Infra

variable {α β : Type*}

/-- Keep the element unless the next one comes before it. -/
def least (lt : α → α → Bool) (m y : α) : α := if lt y m then y else m

/-- The first smallest element, as `std::min_element` finds it with a comparison. -/
def minElement (lt : α → α → Bool) : List α → Option α
  | [] => none
  | x :: xs => some (xs.foldl (least lt) x)

theorem foldl_least_mem (lt : α → α → Bool) (xs : List α) (x : α) :
    xs.foldl (least lt) x ∈ x :: xs := by
  induction xs generalizing x with
  | nil => exact List.mem_singleton_self x
  | cons y xs ih =>
    rw [List.foldl_cons]
    rcases List.mem_cons.mp (ih (least lt x y)) with heq | hmem
    · rw [heq, least]
      split <;> simp
    · simp [hmem]

theorem mem_of_minElement {lt : α → α → Bool} {xs : List α} {m : α}
    (h : minElement lt xs = some m) : m ∈ xs := by
  cases xs with
  | nil => cases h
  | cons x xs =>
    cases h
    exact foldl_least_mem lt xs x

/-- Taking the selected element out leaves a shorter list. -/
theorem length_erase_minElement_lt [BEq α] [LawfulBEq α] {lt : α → α → Bool} {xs : List α} {m : α}
    (h : minElement lt xs = some m) : (xs.erase m).length < xs.length := by
  have hmem := mem_of_minElement h
  rw [List.length_erase_of_mem hmem]
  exact Nat.sub_lt (List.length_pos_of_mem hmem) Nat.one_pos

theorem minElement_eq_none_iff {lt : α → α → Bool} {xs : List α} :
    minElement lt xs = none ↔ xs = [] := by
  cases xs with
  | nil => exact iff_of_true rfl rfl
  | cons x xs => simp [minElement]

/-- A comparison by a key. -/
def ComparesBy [LT β] (lt : α → α → Bool) (key : α → β) : Prop :=
  ∀ a b, lt a b = true ↔ key a < key b

variable [LinearOrder β] {lt : α → α → Bool} {key : α → β}

/-- The scan ends at the first smallest element of what it has seen. -/
theorem foldl_least (hlt : ComparesBy lt key) (xs : List α) (x : α) :
    ∃ pre post, x :: xs = pre ++ xs.foldl (least lt) x :: post ∧
      (∀ y ∈ pre, key (xs.foldl (least lt) x) < key y) ∧
      ∀ y ∈ post, key (xs.foldl (least lt) x) ≤ key y := by
  induction xs using List.reverseRecOn with
  | nil => exact ⟨[], [], rfl, by simp, by simp⟩
  | append_singleton xs z ih =>
    obtain ⟨pre, post, heq, hpre, hpost⟩ := ih
    rw [List.foldl_append, List.foldl_cons, List.foldl_nil]
    generalize xs.foldl (least lt) x = m at *
    rw [← List.cons_append, heq]
    by_cases hz : key z < key m
    · rw [least, if_pos ((hlt z m).mpr hz)]
      refine ⟨pre ++ m :: post, [], rfl, ?_, by simp⟩
      intro y hy
      rcases List.mem_append.mp hy with hy | hy
      · exact hz.trans (hpre y hy)
      · rcases List.mem_cons.mp hy with rfl | hy
        · exact hz
        · exact hz.trans_le (hpost y hy)
    · rw [least, if_neg fun h => hz ((hlt z m).mp h)]
      refine ⟨pre, post ++ [z], by simp, hpre, ?_⟩
      intro y hy
      rcases List.mem_append.mp hy with hy | hy
      · exact hpost y hy
      · rw [List.mem_singleton.mp hy]
        exact not_lt.mp hz

/-- **The first smallest element.** -/
theorem minElement_eq_some_iff (hlt : ComparesBy lt key) {xs : List α} {m : α} :
    minElement lt xs = some m ↔ ∃ pre post, xs = pre ++ m :: post ∧
      (∀ y ∈ pre, key m < key y) ∧ ∀ y ∈ post, key m ≤ key y := by
  cases xs with
  | nil => simp [minElement]
  | cons x xs =>
    obtain ⟨pre, post, heq, hpre, hpost⟩ := foldl_least hlt xs x
    rw [minElement, Option.some.injEq]
    constructor
    · rintro rfl
      exact ⟨pre, post, heq, hpre, hpost⟩
    · rintro ⟨pre', post', heq', hpre', hpost'⟩
      -- two first smallest elements stand at the same place
      rw [heq] at heq'
      generalize xs.foldl (least lt) x = m' at *
      rcases List.append_eq_append_iff.mp heq' with ⟨mid, hmid, hrest⟩ | ⟨mid, hmid, hrest⟩
      · cases mid with
        | nil => exact (List.cons_eq_cons.mp hrest).1
        | cons z mid =>
          have hm : m ∈ post := by
            rw [(List.cons_eq_cons.mp hrest).2]
            simp
          have hm' : m' ∈ pre' := by
            rw [hmid, (List.cons_eq_cons.mp hrest).1]
            simp
          exact absurd (hpre' m' hm') (not_lt.mpr (hpost m hm))
      · cases mid with
        | nil => exact (List.cons_eq_cons.mp hrest).1.symm
        | cons z mid =>
          have hm' : m' ∈ post' := by
            rw [(List.cons_eq_cons.mp hrest).2]
            simp
          have hm : m ∈ pre := by
            rw [hmid, (List.cons_eq_cons.mp hrest).1]
            simp
          exact absurd (hpre m hm) (not_lt.mpr (hpost' m' hm'))

/-- No element is smaller. -/
theorem minElement_le (hlt : ComparesBy lt key) {xs : List α} {m : α}
    (h : minElement lt xs = some m) : ∀ y ∈ xs, key m ≤ key y := by
  obtain ⟨pre, post, rfl, hpre, hpost⟩ := (minElement_eq_some_iff hlt).mp h
  intro y hy
  rcases List.mem_append.mp hy with hy | hy
  · exact (hpre y hy).le
  · rcases List.mem_cons.mp hy with rfl | hy
    · exact le_refl _
    · exact hpost y hy

/-- The elements in the order of their keys, those with the same key in the order of the list. -/
def inOrder (key : α → β) (xs : List α) : List α := xs.insertionSort fun a b => key a ≤ key b

theorem inOrder_perm (key : α → β) (xs : List α) : (inOrder key xs).Perm xs := List.perm_insertionSort _ xs

/-- Selecting the smallest element takes the head off the sorted list. -/
theorem inOrder_of_minElement [DecidableEq α] (hlt : ComparesBy lt key) {xs : List α} {m : α}
    (h : minElement lt xs = some m) : inOrder key xs = m :: inOrder key (xs.erase m) := by
  obtain ⟨pre, post, rfl, hpre, hpost⟩ := (minElement_eq_some_iff hlt).mp h
  have hm : m ∉ pre := fun hm => lt_irrefl _ (hpre m hm)
  rw [List.erase_append_right _ hm, List.erase_cons_head]
  clear h hm
  induction pre with
  | nil =>
    exact List.insertionSort_cons_of_forall_rel (fun a b => key a ≤ key b) hpost
  | cons x pre ih =>
    have hx := hpre x List.mem_cons_self
    have hrest := ih fun y hy => hpre y (List.mem_cons_of_mem x hy)
    simp only [inOrder, List.cons_append, List.insertionSort_cons] at hrest ⊢
    rw [hrest, List.orderedInsert_cons, if_neg (not_le.mpr hx)]

end Infra
