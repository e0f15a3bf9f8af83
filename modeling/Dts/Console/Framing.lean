import Dts.Console.Ctl

/-!
# Framing of the answers

`SessionLoop` sends the answer to each command followed by `kRespDelim`, a NUL, and the client of
`dts-cli.py` reads up to the next NUL for each command. Nothing is escaped, so the pairing of answers
and commands depends on what the answers can contain: `framing_iff`.

Between two commands of a session other sessions and the threads may change the process, so every
command comes with the process that it finds.
-/

namespace Dts.Ctl

open Infra

def kRespDelim : UInt8 := nul

/-- A command line that the control thread executes for a session. -/
structure Executed where
  process : Process
  line : Bytes

namespace Executed

/-- `job->resp`. -/
def answer (c : Executed) : Option Bytes := (execute c.process c.line).map fun r => r.1

/--
The word of the line that the answer repeats: an unknown command, or the argument of
`set_log_level`.
-/
def echoed (c : Executed) : Bytes :=
  match splitLine (trim c.line) with
  | [] => []
  | name :: args =>
    match find c.process name with
    | none => name
    | some cmd => if cmd = .setLogLevel then args.headD [] else []

/--
The line is blank or has a word, and the word that its answer repeats has no NUL. A line of vertical
tabs and form feeds is neither: `Trim` keeps them, and they are no words.
-/
structure Safe (c : Executed) : Prop where
  words : trim c.line ≠ [] → splitLine (trim c.line) ≠ []
  echo : nul ∉ c.echoed

theorem safe_iff (c : Executed) :
    c.Safe ↔ (trim c.line ≠ [] → splitLine (trim c.line) ≠ []) ∧ nul ∉ c.echoed :=
  ⟨fun h => ⟨h.words, h.echo⟩, fun h => ⟨h.1, h.2⟩⟩

instance (c : Executed) : Decidable c.Safe := decidable_of_iff' _ c.safe_iff

/-- A blank line has no words. -/
theorem splitLine_nil : splitLine [] = [] := rfl

/-- A line is safe when it has an answer, and the answer has no NUL. -/
theorem safe_iff_answer (c : Executed) : c.Safe ↔ ∃ r, c.answer = some r ∧ nul ∉ r := by
  rw [safe_iff]
  unfold answer execute echoed
  simp only
  by_cases hblank : trim c.line = []
  · rw [hblank, splitLine_nil]
    simp
  · rw [if_neg (by simpa using hblank)]
    cases hwords : splitLine (trim c.line) with
    | nil => simp [hblank]
    | cons name args =>
      simp only [ne_eq, reduceCtorEq, not_false_eq_true, implies_true, true_and]
      cases hfind : find c.process name with
      | none =>
        have hlit : nul ∉ utf8 "not found: " := by decide
        simp [hlit]
      | some cmd =>
        have hrun := cmd.nul_mem_run c.process args
        simp only [Option.map_some, Option.some.injEq, exists_eq_left', hrun]
        by_cases hcmd : cmd = .setLogLevel
        · simp [hcmd]
        · simp [hcmd]

end Executed

/-! ## The stream of a session -/

/-- The answers to the commands, when all of them are defined. -/
def answers : List Executed → Option (List Bytes)
  | [] => some []
  | c :: cs => c.answer.bind fun r => (answers cs).map fun rs => r :: rs

/-- What the session sends for these answers. -/
def stream (rs : List Bytes) : Bytes := rs.flatMap fun r => r ++ [kRespDelim]

/--
The bytes before the next NUL, and the stream behind it. `recv_until` returns its buffer up to the end
of the chunk that the NUL is in, so it is this where a chunk ends at each NUL, as when the client
waits for an answer before it sends the next line.
-/
def recvUntil (s : Bytes) : Bytes × Bytes :=
  (s.takeWhile fun b => b != kRespDelim, (s.dropWhile fun b => b != kRespDelim).tail)

/-- The client's reads for `n` commands. -/
def recvAll : Nat → Bytes → List Bytes
  | 0, _ => []
  | n + 1, s => (recvUntil s).1 :: recvAll n (recvUntil s).2

/-- **The framing law.** One NUL for each command, and the client's reads are the answers. -/
def Framed (cs : List Executed) : Prop :=
  ∃ rs, answers cs = some rs ∧ (stream rs).count kRespDelim = cs.length ∧
    recvAll cs.length (stream rs) = rs

theorem stream_cons (r : Bytes) (rs : List Bytes) :
    stream (r :: rs) = r ++ kRespDelim :: stream rs := by
  simp [stream]

theorem recvUntil_append {r : Bytes} (h : nul ∉ r) (rest : Bytes) :
    recvUntil (r ++ kRespDelim :: rest) = (r, rest) := by
  have hr : ∀ b ∈ r, (b != kRespDelim) = true := fun b hb => by
    refine bne_iff_ne.mpr ?_
    rintro rfl
    exact h hb
  rw [recvUntil, List.takeWhile_append_of_pos hr, List.dropWhile_append_of_pos hr,
    List.takeWhile_cons_of_neg (by simp), List.dropWhile_cons_of_neg (by simp), List.append_nil,
    List.tail_cons]

/-- The client reads back answers without a NUL. -/
theorem recvAll_stream {rs : List Bytes} (h : ∀ r ∈ rs, nul ∉ r) :
    recvAll rs.length (stream rs) = rs := by
  induction rs with
  | nil => rfl
  | cons r rs ih =>
    obtain ⟨hr, hrs⟩ := List.forall_mem_cons.mp h
    rw [List.length_cons, recvAll, stream_cons, recvUntil_append hr, ih hrs]

/-- The stream holds one NUL for each answer and those of the answers. -/
theorem count_stream_le_iff (rs : List Bytes) :
    rs.length ≤ (stream rs).count kRespDelim ∧
      ((stream rs).count kRespDelim = rs.length ↔ ∀ r ∈ rs, nul ∉ r) := by
  induction rs with
  | nil => simp [stream]
  | cons r rs ih =>
    obtain ⟨hle, hiff⟩ := ih
    have hcount : (stream (r :: rs)).count kRespDelim
        = r.count nul + 1 + (stream rs).count kRespDelim := by
      rw [stream_cons, List.count_append, List.count_cons_self]
      show r.count nul + _ = _
      omega
    have hzero : r.count nul = 0 ↔ nul ∉ r := List.count_eq_zero
    rw [hcount, List.length_cons, List.forall_mem_cons, ← hiff, ← hzero]
    omega

theorem length_answers {cs : List Executed} {rs : List Bytes} (h : answers cs = some rs) :
    rs.length = cs.length := by
  induction cs generalizing rs with
  | nil =>
    cases h
    rfl
  | cons c cs ih =>
    obtain ⟨r, -, h⟩ := Option.bind_eq_some_iff.mp h
    obtain ⟨rs', hrs', rfl⟩ := Option.map_eq_some_iff.mp h
    rw [List.length_cons, List.length_cons, ih hrs']

/-- All answers are defined and without a NUL when all lines are safe. -/
theorem answers_clean_iff (cs : List Executed) :
    (∃ rs, answers cs = some rs ∧ ∀ r ∈ rs, nul ∉ r) ↔ ∀ c ∈ cs, c.Safe := by
  induction cs with
  | nil => simp [answers]
  | cons c cs ih =>
    rw [List.forall_mem_cons, c.safe_iff_answer, ← ih]
    constructor
    · rintro ⟨rs, hrs, hclean⟩
      obtain ⟨r, hr, hrs⟩ := Option.bind_eq_some_iff.mp hrs
      obtain ⟨rs', hrs', rfl⟩ := Option.map_eq_some_iff.mp hrs
      obtain ⟨hr0, hrs0⟩ := List.forall_mem_cons.mp hclean
      exact ⟨⟨r, hr, hr0⟩, rs', hrs', hrs0⟩
    · rintro ⟨⟨r, hr, hr0⟩, rs, hrs, hrs0⟩
      refine ⟨r :: rs, ?_, List.forall_mem_cons.mpr ⟨hr0, hrs0⟩⟩
      rw [answers, hr, Option.bind_some, hrs, Option.map_some]

/--
**Framing.** The stream of a session has exactly one NUL for each command, at the end of its answer,
and the client pairs every answer with its command, if and only if every line is safe.
-/
theorem framing_iff (cs : List Executed) : Framed cs ↔ ∀ c ∈ cs, c.Safe := by
  rw [← answers_clean_iff]
  constructor
  · rintro ⟨rs, hrs, hcount, -⟩
    rw [← length_answers hrs] at hcount
    exact ⟨rs, hrs, (count_stream_le_iff rs).2.mp hcount⟩
  · rintro ⟨rs, hrs, hclean⟩
    refine ⟨rs, hrs, ?_, ?_⟩
    · rw [← length_answers hrs]
      exact (count_stream_le_iff rs).2.mpr hclean
    · rw [← length_answers hrs]
      exact recvAll_stream hclean

/-- A process with the commands of `RegisterBuiltins`. -/
def builtinProcess : Process where
  registry := [.help, .getThreads, .setLogLevel]
  threads := []
  level := .INFO
  factory := Data.DataFactory.assemble (fun _ => 0) (fun _ => 0) [] .FULL 0 0

/-- The unknown command `x`, NUL, `y`, and then a blank: three reads of the client for two commands. -/
theorem framing_fails_at_nul :
    answers [⟨builtinProcess, [120, 0, 121]⟩, ⟨builtinProcess, [32]⟩]
        = some [utf8 "not found: " ++ [120, 0, 121], []] ∧
      recvAll 2 (stream [utf8 "not found: " ++ [120, 0, 121], []])
        = [utf8 "not found: x", [121]] ∧
      ¬ Framed [⟨builtinProcess, [120, 0, 121]⟩, ⟨builtinProcess, [32]⟩] := by
  have hanswers : answers [⟨builtinProcess, [120, 0, 121]⟩, ⟨builtinProcess, [32]⟩]
      = some [utf8 "not found: " ++ [120, 0, 121], []] := by decide
  refine ⟨hanswers, by decide, ?_⟩
  rintro ⟨rs, hrs, hcount, -⟩
  cases hanswers.symm.trans hrs
  revert hcount
  decide

end Dts.Ctl
