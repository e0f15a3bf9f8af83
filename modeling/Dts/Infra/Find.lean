import Mathlib.Data.List.Basic

/-!
# Searching a text for a piece

`findSub pat s` is the first position at which `pat` stands in `s`. A search in the beginning of a
text finds what a search in the whole text finds, as long as that lies in the beginning:
`findSub_append_iff`.
-/

namespace Infra

variable {α : Type*} {pat s r : List α} {i : ℕ}

/-- A piece that is short enough stands in front of a text or of its beginning. -/
theorem prefix_append_iff (h : pat.length ≤ s.length) : pat <+: s ++ r ↔ pat <+: s :=
  ⟨fun hp => List.prefix_of_prefix_length_le hp (List.prefix_append s r) h,
    fun hp => hp.trans (List.prefix_append s r)⟩

variable [DecidableEq α]

/-- The first position at which `pat` stands. -/
def findSub (pat : List α) : List α → Option ℕ
  | [] => if pat = [] then some 0 else none
  | a :: s => if pat <+: a :: s then some 0 else (findSub pat s).map (· + 1)

theorem findSub_length_le (h : findSub pat s = some i) : i + pat.length ≤ s.length := by
  induction s generalizing i with
  | nil =>
    unfold findSub at h
    split at h
    · rename_i hpat
      cases h
      rw [hpat]
      exact Nat.le_refl 0
    · cases h
  | cons a s ih =>
    unfold findSub at h
    split at h
    · rename_i hpat
      cases h
      rw [Nat.zero_add]
      exact hpat.length_le
    · obtain ⟨j, hj, rfl⟩ := Option.map_eq_some_iff.mp h
      have hle := ih hj
      rw [List.length_cons]
      omega

/-- **Beginnings.** Both searches find the same, if it lies in the beginning. -/
theorem findSub_append_iff :
    findSub pat s = some i ↔ findSub pat (s ++ r) = some i ∧ i + pat.length ≤ s.length := by
  induction s generalizing i with
  | nil =>
    rw [List.nil_append, List.length_nil, findSub]
    by_cases hpat : pat = []
    · subst hpat
      cases r with
      | nil => simp [findSub, eq_comm]
      | cons b r => simp [findSub, eq_comm]
    · have hpos := List.length_pos_of_ne_nil hpat
      simp only [hpat, if_false]
      constructor
      · intro h
        cases h
      · rintro ⟨-, hle⟩
        omega
  | cons a s ih =>
    rw [List.cons_append, findSub, findSub, List.length_cons]
    by_cases hlen : pat.length ≤ (a :: s).length
    · have hiff : pat <+: a :: (s ++ r) ↔ pat <+: a :: s := prefix_append_iff hlen
      by_cases hpat : pat <+: a :: s
      · rw [if_pos hpat, if_pos (hiff.mpr hpat)]
        rw [List.length_cons] at hlen
        constructor
        · intro h
          cases h
          exact ⟨rfl, by omega⟩
        · exact fun h => h.1
      · rw [if_neg hpat, if_neg (fun h => hpat (hiff.mp h))]
        simp only [Option.map_eq_some_iff]
        constructor
        · rintro ⟨j, hj, rfl⟩
          obtain ⟨hfind, hle⟩ := ih.mp hj
          exact ⟨⟨j, hfind, rfl⟩, by omega⟩
        · rintro ⟨⟨j, hj, rfl⟩, hle⟩
          exact ⟨j, ih.mpr ⟨hj, by omega⟩, rfl⟩
    · -- the piece is longer than the beginning
      rw [List.length_cons] at hlen
      constructor
      · intro h
        have hle := findSub_length_le (s := a :: s) (by rw [findSub]; exact h)
        rw [List.length_cons] at hle
        omega
      · rintro ⟨-, hle⟩
        omega

/-- What the whole text does not have, no beginning has. -/
theorem findSub_eq_none_of_append (h : findSub pat (s ++ r) = none) : findSub pat s = none := by
  cases hs : findSub pat s with
  | none => rfl
  | some i =>
    rw [(findSub_append_iff.mp hs).1] at h
    cases h

/-- What begins a piece is found where the piece is, or before. -/
theorem findSub_of_prefix {pat' : List α} (hp : pat' <+: pat) (h : findSub pat s = some i) :
    ∃ j ≤ i, findSub pat' s = some j := by
  induction s generalizing i with
  | nil =>
    unfold findSub at h
    split at h
    · rename_i hpat
      rw [hpat, List.prefix_nil] at hp
      exact ⟨0, Nat.zero_le _, if_pos hp⟩
    · cases h
  | cons a s ih =>
    unfold findSub at h
    by_cases hpat' : pat' <+: a :: s
    · exact ⟨0, Nat.zero_le _, if_pos hpat'⟩
    · split at h
      · rename_i hpat
        exact absurd (hp.trans hpat) hpat'
      · obtain ⟨k, hk, rfl⟩ := Option.map_eq_some_iff.mp h
        obtain ⟨j, hjk, hj⟩ := ih hk
        refine ⟨j + 1, Nat.add_le_add_right hjk 1, ?_⟩
        rw [findSub, if_neg hpat', hj]
        rfl

theorem findSub_self_append (a : α) (pat s : List α) :
    findSub (a :: pat) (a :: pat ++ s) = some 0 :=
  if_pos (List.prefix_append _ _)

/-- A piece does not begin where its first element does not stand. -/
theorem findSub_append_of_notMem {a : α} {pat l : List α} (hl : a ∉ l) (s : List α) :
    findSub (a :: pat) (l ++ s) = (findSub (a :: pat) s).map (· + l.length) := by
  induction l with
  | nil => simp
  | cons b l ih =>
    rw [List.mem_cons, not_or] at hl
    have hne : ¬ a :: pat <+: b :: (l ++ s) := fun hpre => hl.1 (List.cons_prefix_cons.mp hpre).1
    rw [List.cons_append, findSub, if_neg hne, ih hl.2, Option.map_map]
    rfl

theorem idxOf?_append_of_notMem {a : α} {l : List α} (hl : a ∉ l) (s : List α) :
    (l ++ a :: s).idxOf? a = some l.length := by
  induction l with
  | nil => simp [List.idxOf?_cons]
  | cons b l ih =>
    rw [List.mem_cons, not_or] at hl
    have hb : (b == a) = false := beq_eq_false_iff_ne.mpr (Ne.symm hl.1)
    rw [List.cons_append, List.idxOf?_cons, hb, ih hl.2]
    rfl

end Infra
