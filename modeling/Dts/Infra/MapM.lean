import Mathlib.Data.List.Basic

/-!
# Loops that may fail

`as.mapM f` over `Option` makes something of every element, or nothing at all.

* `map_of_mapM` — the results, in the order of the elements
* `exists_of_mapM`, `exists_mem_of_mapM` — the result of an element, and the element of a result
-/

namespace Infra

variable {α β : Type*} {f : α → Option β} {as : List α} {bs : List β}

/-- A loop that does not fail has made something of every element. -/
theorem map_of_mapM (h : as.mapM f = some bs) : as.map f = bs.map some := by
  induction as generalizing bs with
  | nil =>
    cases h
    rfl
  | cons a as ih =>
    rw [List.mapM_cons] at h
    obtain ⟨b, hb, h⟩ := Option.bind_eq_some_iff.mp h
    obtain ⟨bs', hbs', h⟩ := Option.bind_eq_some_iff.mp h
    cases h
    rw [List.map_cons, List.map_cons, ih hbs', hb]

/-- Every element has its result in the list of results. -/
theorem exists_of_mapM (h : as.mapM f = some bs) {a : α} (ha : a ∈ as) : ∃ b ∈ bs, f a = some b := by
  obtain ⟨b, hb, hfa⟩ := List.mem_map.mp (map_of_mapM h ▸ List.mem_map_of_mem ha)
  exact ⟨b, hb, hfa.symm⟩

/-- Every result is that of an element. -/
theorem exists_mem_of_mapM (h : as.mapM f = some bs) {b : β} (hb : b ∈ bs) :
    ∃ a ∈ as, f a = some b :=
  List.mem_map.mp (map_of_mapM h ▸ List.mem_map_of_mem hb)

end Infra
