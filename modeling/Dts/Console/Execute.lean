import Dts.Console.Ctl
import Mathlib.Data.List.TakeWhile

/-!
# Execute on any line

`ctl::Execute` takes white space off a line in two ways: `Trim` knows space, tab, CR and LF, the
stream that `SplitLine` reads words from also skips vertical tabs and form feeds. `Execute` asks for
the first word of every line that is not empty after `Trim`.

`executeSafe_iff` says for which lines that word is there. It is about `executeRc`, which is `execute`
with the return value besides (`executeRc_execute`).
-/

namespace Dts.Ctl

open Infra

/-! ## The return value -/

/-- What the function of a command returns. -/
def Command.rc (cmd : Command) (p : Process) (args : List Bytes) : ℤ :=
  match cmd with
  | .setLogLevel =>
    match args with
    | [] => 1
    | lvl :: _ => if levelOf lvl = none then 1 else 0
  | .setDataBudget =>
    match args with
    | a :: b :: _ => if (p.factory.setBudget (strtoull a) (strtoull b)).1 ≠ 0 then 1 else 0
    | _ => 1
  | .help | .getThreads | .getHandlers | .getDataStats => 0

structure Returned where
  rc : ℤ
  out : Bytes
  process : Process

/-- The command that the first word names, or "not found". -/
def executeWords (p : Process) (name : Bytes) (args : List Bytes) : Returned :=
  match find p name with
  | none => ⟨1, utf8 "not found: " ++ name, p⟩
  | some cmd => ⟨cmd.rc p args, (cmd.run p args).1, (cmd.run p args).2⟩

/-- `Execute` with its return value. `none` stands for `tokens[0]` of an empty vector. -/
def executeRc (p : Process) (line : Bytes) : Option Returned :=
  if (trim line).isEmpty then some ⟨0, [], p⟩
  else
    match splitLine (trim line) with
    | [] => none
    | name :: args => some (executeWords p name args)

theorem executeRc_execute (p : Process) (line : Bytes) :
    (executeRc p line).map (fun r => (r.out, r.process)) = execute p line := by
  unfold executeRc execute
  simp only
  split
  · rfl
  · cases splitLine (trim line) with
    | nil => rfl
    | cons name args =>
      simp only [executeWords, Option.map_some]
      cases find p name with
      | none => rfl
      | some cmd => rfl

/-- **What `Execute` promises on a line.** -/
structure ExecuteSafe (p : Process) (line : Bytes) : Prop where
  /-- there is a first word whenever it is asked for -/
  token : trim line ≠ [] → splitLine (trim line) ≠ []
  /-- a blank line returns 0 and does nothing -/
  blank : trim line = [] → executeRc p line = some ⟨0, [], p⟩
  /-- any other line returns the result of the command its first word names, or "not found" -/
  result : trim line ≠ [] → ∃ name args, splitLine (trim line) = name :: args ∧
    executeRc p line = some (executeWords p name args)

/-! ## The two scanners -/

theorem isSpace_of_isBlank {b : UInt8} (h : isBlank b = true) : isSpace b = true := by
  simp only [isBlank, Bool.or_eq_true, beq_iff_eq] at h
  rcases h with ((rfl | rfl) | rfl) | rfl
  all_goals decide

/-- Taking off a prefix of blanks keeps every byte that is not blank. -/
theorem mem_dropWhile {α : Type*} {p : α → Bool} {l : List α} {a : α} (ha : p a = false) :
    a ∈ l.dropWhile p ↔ a ∈ l := by
  induction l with
  | nil => simp
  | cons b l ih =>
    by_cases hb : p b = true
    · rw [List.dropWhile_cons_of_pos hb, ih, List.mem_cons]
      constructor
      · exact Or.inr
      · rintro (rfl | h)
        · rw [ha] at hb
          cases hb
        · exact h
    · rw [List.dropWhile_cons_of_neg hb]

theorem mem_trim {line : Bytes} {b : UInt8} (hb : isBlank b = false) : b ∈ trim line ↔ b ∈ line := by
  rw [trim, List.mem_reverse, mem_dropWhile hb, List.mem_reverse, mem_dropWhile hb]

/-- `Trim` leaves nothing of a line of blanks, and only of such a line. -/
theorem trim_eq_nil_iff (line : Bytes) : trim line = [] ↔ ∀ b ∈ line, isBlank b = true := by
  constructor
  · intro h b hb
    by_contra hne
    have hmem := (mem_trim (by simpa using hne)).mpr hb
    rw [h] at hmem
    exact List.not_mem_nil hmem
  · intro h
    rw [trim, List.dropWhile_eq_nil_iff.mpr h]
    rfl

/-- Cutting at the elements that meet `p` leaves only empty pieces when all of them do. -/
theorem forall_splitOnP_eq_nil {α : Type*} (p : α → Bool) (l : List α) :
    (∀ w ∈ l.splitOnP p, w = []) ↔ ∀ a ∈ l, p a = true := by
  induction l with
  | nil => simp
  | cons a l ih =>
    rw [List.splitOnP_cons_eq_if_modifyHead, List.forall_mem_cons, ← ih]
    by_cases ha : p a = true
    · rw [if_pos ha, List.forall_mem_cons]
      simp [ha]
    · -- the first piece starts with `a`
      obtain ⟨w, ws, hsplit⟩ := List.exists_cons_of_ne_nil (List.splitOnP_ne_nil p l)
      rw [if_neg ha, hsplit, List.modifyHead_cons, List.forall_mem_cons]
      simp [ha]

/-- **A line has no word exactly when it is white space of the locale.** -/
theorem splitLine_eq_nil_iff (line : Bytes) :
    splitLine line = [] ↔ ∀ b ∈ line, isSpace b = true := by
  rw [← forall_splitOnP_eq_nil, splitLine, List.filter_eq_nil_iff]
  simp

/-! ## The exact condition -/

/-- A byte that is a word byte, or nothing but what `Trim` takes off. -/
def Answerable (line : Bytes) : Prop :=
  (∃ b ∈ line, isSpace b = false) ∨ ∀ b ∈ line, isBlank b = true

/-- `Trim` does not change whether there is a word. -/
theorem splitLine_trim_eq_nil_iff (line : Bytes) :
    splitLine (trim line) = [] ↔ ∀ b ∈ line, isSpace b = true := by
  rw [splitLine_eq_nil_iff]
  constructor
  · intro h b hb
    by_cases hblank : isBlank b = true
    · exact isSpace_of_isBlank hblank
    · exact h b ((mem_trim (by simpa using hblank)).mpr hb)
  · intro h b hb
    by_cases hblank : isBlank b = true
    · exact isSpace_of_isBlank hblank
    · exact h b ((mem_trim (by simpa using hblank)).mp hb)

theorem token_iff (line : Bytes) :
    (trim line ≠ [] → splitLine (trim line) ≠ []) ↔ Answerable line := by
  rw [Ne, Ne, trim_eq_nil_iff, splitLine_trim_eq_nil_iff, Answerable]
  constructor
  · intro h
    by_cases hblank : ∀ b ∈ line, isBlank b = true
    · exact Or.inr hblank
    · obtain ⟨b, hb⟩ := not_forall.mp (h hblank)
      obtain ⟨hmem, hspace⟩ := Classical.not_imp.mp hb
      exact Or.inl ⟨b, hmem, by simpa using hspace⟩
  · rintro (⟨b, hmem, hspace⟩ | hblank) hnot
    · intro hall
      rw [hall b hmem] at hspace
      cases hspace
    · exact absurd hblank hnot

/--
**`Execute` is safe exactly on the lines that hold a word or only what `Trim` takes off.** On a line
of vertical tabs and form feeds it reads the first word of none.
-/
theorem executeSafe_iff (p : Process) (line : Bytes) : ExecuteSafe p line ↔ Answerable line := by
  rw [← token_iff]
  constructor
  · exact ExecuteSafe.token
  · intro htoken
    refine ⟨htoken, ?_, ?_⟩
    · intro hblank
      rw [executeRc, hblank]
      rfl
    · intro hline
      obtain ⟨name, args, hwords⟩ := List.exists_cons_of_ne_nil (htoken hline)
      refine ⟨name, args, hwords, ?_⟩
      rw [executeRc, if_neg (by simpa using hline), hwords]

/-- A line of one vertical tab: not empty after `Trim`, and without a word. -/
theorem not_executeSafe_verticalTab : ¬∀ (p : Process) (line : Bytes), ExecuteSafe p line := by
  intro h
  have hsafe := (h ⟨[], [], .INFO, Data.DataFactory.assemble (fun _ => 0) (fun _ => 0) [] .FULL
    0 0⟩ [0x0B]).token (by decide)
  exact hsafe (by decide)

end Dts.Ctl
