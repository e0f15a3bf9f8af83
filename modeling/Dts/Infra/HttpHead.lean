import Dts.Infra.Bytes
import Dts.Infra.Find
import Mathlib.Data.Nat.Notation

/-!
# Heads of HTTP messages

The lines of a head end with CR LF, and a blank line ends the head.

* `cut_text` — a head is read back line by line, with what stands behind it
* `cut_take` — a part of a head is none
-/

namespace Infra.HttpHead

def crlf : Bytes := [13, 10]

/-- The end of the last line and the blank line. -/
def blank : Bytes := [13, 10, 13, 10]

/-- The lines that have ended; `line` are the bytes of the current one. -/
def lines (line : Bytes) : Bytes → List Bytes
  | [] => []
  | b :: bs =>
    if b = 13 ∧ bs.head? = some 10 then line :: lines [] bs.tail else lines (line ++ [b]) bs
termination_by bs => bs.length
decreasing_by
  · rw [List.length_tail, List.length_cons]
    omega
  · exact Nat.lt_succ_self _

/-- The lines of the head, and the bytes behind it. -/
def cut (bs : Bytes) : Option (List Bytes × Bytes) :=
  (findSub blank bs).map fun i => (lines [] (bs.take (i + crlf.length)), bs.drop (i + blank.length))

/-- The lines, each with its end, and the blank line. -/
def text (ls : List Bytes) : Bytes := ls.flatMap (fun l => l ++ crlf) ++ crlf

/-- Something, without CR and LF. -/
def Line (l : Bytes) : Prop := l ≠ [] ∧ 13 ∉ l ∧ 10 ∉ l

/-! ## The end of a head -/

/-- The end of a line is not the end of the head when another line follows. -/
theorem findSub_blank_crlf {b : UInt8} (hb : b ≠ 13) (bs : Bytes) :
    findSub blank (crlf ++ b :: bs) = (findSub blank (b :: bs)).map (· + 2) := by
  have hne : ¬ blank <+: crlf ++ b :: bs := by
    intro hpre
    have hrest := (List.cons_prefix_cons.mp (List.cons_prefix_cons.mp hpre).2).2
    exact hb (List.cons_prefix_cons.mp hrest).1.symm
  have hlf : findSub blank ([10] ++ b :: bs) = (findSub blank (b :: bs)).map (· + 1) :=
    findSub_append_of_notMem (by decide) _
  have hcr : findSub blank (crlf ++ b :: bs) = (findSub blank ([10] ++ b :: bs)).map (· + 1) :=
    if_neg hne
  rw [hcr, hlf, Option.map_map]
  rfl

theorem findSub_text (rest : Bytes) : ∀ {ls : List Bytes}, ls ≠ [] → (∀ l ∈ ls, Line l) →
    findSub blank (text ls ++ rest) = some ((ls.flatMap fun l => l ++ crlf).length - 2)
  | [], hne, _ => absurd rfl hne
  | [l], _, h => by
    obtain ⟨-, hcr, -⟩ := h l List.mem_cons_self
    have htext : text [l] ++ rest = l ++ (blank ++ rest) := by
      simp [text, crlf, blank]
    rw [htext, blank, findSub_append_of_notMem hcr, findSub_self_append]
    simp [crlf]
  | l :: l' :: ls, _, h => by
    obtain ⟨-, hcr, -⟩ := h l List.mem_cons_self
    obtain ⟨hne', hcr', -⟩ := h l' (List.mem_cons_of_mem l List.mem_cons_self)
    have ih := findSub_text rest (List.cons_ne_nil l' ls) fun m hm =>
      h m (List.mem_cons_of_mem l hm)
    obtain ⟨b, bs, rfl⟩ := List.exists_cons_of_ne_nil hne'
    rw [List.mem_cons, not_or] at hcr'
    have htext : text (l :: (b :: bs) :: ls) ++ rest =
        l ++ (crlf ++ (text ((b :: bs) :: ls) ++ rest)) := by
      simp [text]
    have hcons : text ((b :: bs) :: ls) ++ rest =
        b :: (bs ++ crlf ++ ls.flatMap (fun l => l ++ crlf) ++ crlf ++ rest) := by
      simp [text]
    rw [htext, blank, findSub_append_of_notMem hcr, ← blank, hcons,
      findSub_blank_crlf (Ne.symm hcr'.1), ← hcons, ih, Option.map_some, Option.map_some]
    simp [crlf]
    omega

/-! ## Lines -/

theorem lines_append {l : Bytes} (hl : 13 ∉ l) : ∀ (line rest : Bytes),
    lines line (l ++ crlf ++ rest) = (line ++ l) :: lines [] rest := by
  induction l with
  | nil =>
    intro line rest
    show lines line (13 :: 10 :: rest) = _
    rw [lines, if_pos ⟨rfl, rfl⟩, List.append_nil]
    rfl
  | cons b l ih =>
    intro line rest
    rw [List.mem_cons, not_or] at hl
    show lines line (b :: (l ++ crlf ++ rest)) = _
    rw [lines, if_neg (fun h => hl.1 h.1.symm), ih hl.2, List.append_assoc]
    rfl

theorem lines_flatMap : ∀ {ls : List Bytes}, (∀ l ∈ ls, Line l) →
    lines [] (ls.flatMap fun l => l ++ crlf) = ls
  | [], _ => by rw [List.flatMap_nil, lines]
  | l :: ls, h => by
    obtain ⟨-, hcr, -⟩ := h l List.mem_cons_self
    rw [List.flatMap_cons, lines_append hcr, List.nil_append,
      lines_flatMap fun m hm => h m (List.mem_cons_of_mem l hm)]

/-- **Heads.** A head is read back. -/
theorem cut_text {ls : List Bytes} (hne : ls ≠ []) (h : ∀ l ∈ ls, Line l) (rest : Bytes) :
    cut (text ls ++ rest) = some (ls, rest) := by
  have hcrlf : crlf.length = 2 := rfl
  have hblank : blank.length = 4 := rfl
  have hlen : 2 ≤ (ls.flatMap fun l => l ++ crlf).length := by
    obtain ⟨l, ls', rfl⟩ := List.exists_cons_of_ne_nil hne
    simp [crlf]
    omega
  have htake : (text ls ++ rest).take ((ls.flatMap fun l => l ++ crlf).length - 2 + crlf.length) =
      ls.flatMap fun l => l ++ crlf := by
    rw [text, List.append_assoc]
    exact List.take_left' (by omega)
  have hdrop : (text ls ++ rest).drop ((ls.flatMap fun l => l ++ crlf).length - 2 + blank.length) =
      rest := by
    refine List.drop_left' ?_
    rw [text, List.length_append]
    omega
  rw [cut, findSub_text rest hne h, Option.map_some, htake, hdrop, lines_flatMap h]

/-- A part of a head is none. -/
theorem cut_take {ls : List Bytes} (hne : ls ≠ []) (h : ∀ l ∈ ls, Line l) {n : ℕ}
    (hn : n < (text ls).length) : cut ((text ls).take n) = none := by
  have hfull := findSub_text [] hne h
  rw [List.append_nil] at hfull
  have hnone : findSub blank ((text ls).take n) = none := by
    refine Option.eq_none_iff_forall_ne_some.mpr fun i hi => ?_
    have hle := findSub_length_le hi
    have happend := (findSub_append_iff (r := (text ls).drop n)).mp hi
    rw [List.take_append_drop, hfull] at happend
    have hi := Option.some.inj happend.1
    have hlen : (text ls).length = (ls.flatMap fun l => l ++ crlf).length + 2 :=
      List.length_append
    have hblank : blank.length = 4 := rfl
    rw [List.length_take, Nat.min_eq_left hn.le] at hle
    omega
  rw [cut, hnone]
  rfl

end Infra.HttpHead
