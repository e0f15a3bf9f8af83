import Mathlib.Data.List.Basic

/-!
# Texts joined by a separator, and decimal numbers

* `append_sep_eq_iff` — when two texts of the form `a ++ s :: b` are equal, for a separator `s` that
  may also occur in the parts: the cut is at the same place, or one text is cut further to the right
* `append_sep_inj` — the cut is determined when the last part holds no separator
* `isDigit_of_mem_repr`, `repr_inj`, `repr_int_inj` — decimal numbers are read back, and their
  characters are digits
-/

namespace Infra

variable {α : Type*}

/-- Two ways to cut one text at a separator. -/
theorem append_sep_eq_iff {a b c d : List α} {s : α} :
    a ++ s :: b = c ++ s :: d ↔
      (a = c ∧ b = d) ∨ (∃ m, c = a ++ s :: m ∧ b = m ++ s :: d) ∨
        ∃ m, a = c ++ s :: m ∧ d = m ++ s :: b := by
  constructor
  · intro h
    rcases List.append_eq_append_iff.mp h with ⟨m, hc, hb⟩ | ⟨m, ha, hd⟩
    · cases m with
      | nil =>
        rw [List.append_nil] at hc
        exact Or.inl ⟨hc.symm, (List.cons_inj_right s).mp hb⟩
      | cons x m =>
        rw [List.cons_append] at hb
        obtain ⟨rfl, hrest⟩ := List.cons_eq_cons.mp hb
        exact Or.inr (Or.inl ⟨m, hc, hrest⟩)
    · cases m with
      | nil =>
        rw [List.append_nil] at ha
        exact Or.inl ⟨ha, ((List.cons_inj_right s).mp hd).symm⟩
      | cons x m =>
        rw [List.cons_append] at hd
        obtain ⟨rfl, hrest⟩ := List.cons_eq_cons.mp hd
        exact Or.inr (Or.inr ⟨m, ha, hrest⟩)
  · rintro (⟨rfl, rfl⟩ | ⟨m, rfl, rfl⟩ | ⟨m, rfl, rfl⟩)
    · rfl
    · rw [List.append_assoc, List.cons_append]
    · rw [List.append_assoc, List.cons_append]

/-- Without the separator in the last part there is only one cut. -/
theorem append_sep_inj {a b c d : List α} {s : α} (hb : s ∉ b) (hd : s ∉ d) :
    a ++ s :: b = c ++ s :: d ↔ a = c ∧ b = d := by
  rw [append_sep_eq_iff]
  constructor
  · rintro (h | ⟨m, -, rfl⟩ | ⟨m, -, rfl⟩)
    · exact h
    · exact absurd (List.mem_append_right m List.mem_cons_self) hb
    · exact absurd (List.mem_append_right m List.mem_cons_self) hd
  · exact Or.inl

/-! ## Decimal numbers -/

theorem isDigit_of_mem_repr {n : Nat} {c : Char} (h : c ∈ n.repr.toList) : c.isDigit = true := by
  rw [Nat.toList_repr] at h
  exact Nat.isDigit_of_mem_toDigits (by decide) (by decide) h

/-- A text with a character that is no digit is no decimal number. -/
theorem ne_repr {t : String} {c : Char} (hc : c ∈ t.toList) (hdigit : c.isDigit = false) (n : Nat) :
    t ≠ n.repr := by
  rintro rfl
  rw [isDigit_of_mem_repr hc] at hdigit
  cases hdigit

/-- A decimal number can be read back. -/
theorem repr_inj {m n : Nat} : m.repr = n.repr ↔ m = n := by
  constructor
  · intro h
    have hdigits : Nat.toDigits 10 m = Nat.toDigits 10 n := by
      rw [← Nat.toList_repr, ← Nat.toList_repr, h]
    rw [← Nat.ofDigitChars_ten_toDigits (n := m), hdigits, Nat.ofDigitChars_ten_toDigits]
  · rintro rfl
    rfl

/-- The text of an integer is that of a natural number only if they are equal. -/
theorem repr_int_inj {z : Int} {n : Nat} : z.repr = n.repr ↔ z = n := by
  constructor
  · intro h
    cases z with
    | ofNat m => exact congrArg Int.ofNat (repr_inj.mp h)
    | negSucc m =>
      refine absurd h (ne_repr (c := '-') ?_ (by decide) n)
      simp [Int.repr]
  · rintro rfl
    rfl

end Infra
