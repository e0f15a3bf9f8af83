import Dts.Console.Control
import Dts.Data.Factory

/-!
# Commands

`ctl.cpp`, and the commands that `run.cpp` registers. A command line is trimmed and cut at white
space; its first word names a command of the registry, which gets the other words and writes the
answer. A line may hold any byte but the line end, so also a NUL.

`Command.nul_mem_run` says which answers hold a NUL.
-/

namespace Dts.Ctl

open Infra

/-! ## Texts -/

/-- `std::to_string` of an unsigned number. -/
def decimal (n : Nat) : Bytes := utf8 n.repr

/-- `std::to_string` of an `int`. -/
def decimalInt (z : Int) : Bytes := if z < 0 then utf8 "-" ++ decimal z.natAbs else decimal z.natAbs

def nul : UInt8 := 0

/-- A text without a NUL in it, as a string literal is. -/
structure CString where
  bytes : Bytes
  noNul : nul ∉ bytes

/-! ## Cutting a line -/

/-- `isspace` of the C locale. -/
def isSpace (b : UInt8) : Bool := b == 32 || (9 ≤ b && b ≤ 13)

/-- The characters that `Trim` takes off: space, tab, CR and LF. -/
def isBlank (b : UInt8) : Bool := b == 32 || b == 9 || b == 13 || b == 10

/-- `Trim` takes white space off both ends. -/
def trim (s : Bytes) : Bytes := ((s.dropWhile isBlank).reverse.dropWhile isBlank).reverse

/-- The words of a line. -/
def splitLine (line : Bytes) : List Bytes := (line.splitOnP isSpace).filter fun w => !w.isEmpty

/-- `strtoull` to base 10: white space, a sign, digits. -/
def strtoull (s : Bytes) : UInt64 :=
  let s := (cStr s).dropWhile isSpace
  let (neg, s) := match s with
    | 45 :: s => (true, s)
    | 43 :: s => (false, s)
    | s => (false, s)
  let digits := s.takeWhile fun b => 48 ≤ b && b ≤ 57
  let v := digits.foldl (fun v b => 10 * v + (b.toNat - 48)) 0
  if 2 ^ 64 ≤ v then UInt64.ofNat (2 ^ 64 - 1)
  else if neg then 0 - UInt64.ofNat v
  else UInt64.ofNat v

/-! ## The process that the commands look at -/

/-- The levels of the log, the finest first. -/
inductive Level where
  | TRACE
  | DEBUG
  | INFO
  | WARN
  | ERROR
  | CRITICAL
  deriving DecidableEq

/-- A row of the thread registry; the names are string literals of the code. -/
structure ThreadInfo where
  name : CString
  segIndex : Int
  prio : Int
  schedPolicy : Int
  cpuAffinity : Int
  tid : UInt64

/-- The commands of `RegisterBuiltins` and of `Process::Start`. -/
inductive Command where
  | help
  | getThreads
  | setLogLevel
  | getHandlers
  | getDataStats
  | setDataBudget
  deriving DecidableEq

/-- What the commands read and set. -/
structure Process where
  /-- the commands registered so far, in this order -/
  registry : List Command
  threads : List ThreadInfo
  level : Level
  factory : Data.DataFactory

namespace Command

/-- The word that a command is called by. -/
def name : Command → Bytes
  | help => utf8 "help"
  | getThreads => utf8 "get_threads"
  | setLogLevel => utf8 "set_log_level"
  | getHandlers => utf8 "get_handlers"
  | getDataStats => utf8 "get_data_stats"
  | setDataBudget => utf8 "set_data_budget"

/-- The text behind its name in the answer of `help`. -/
def usage : Command → Bytes
  | help => utf8 "列全部命令"
  | getThreads => utf8 "全进程线程注册表"
  | setLogLevel => utf8 "set_log_level <trace|debug|info|warn|error>"
  | getHandlers => utf8 "get_handlers [task|data|log] 查看线程消息表（msgId→处理函数）"
  | getDataStats => utf8 "get_data_stats 查看 data 线程处理统计（帧耗时预算/丢弃计数）"
  | setDataBudget => utf8 "set_data_budget <warn_us> <alarm_us> 调整 data 帧耗时预算阈值"

end Command

/-- A row of a message table, as `get_handlers` shows it. -/
structure HandlerRow where
  msgId : Nat
  name : String

/-- A group of message handlers, as `get_handlers` lists it. -/
structure HandlerGroup where
  sessionType : String
  sessionInst : String
  rows : List HandlerRow

/-- The groups of the task, data and log threads. -/
def kGroups : List HandlerGroup := [
  ⟨"DTS", "task", [⟨0x0001, "task_active"⟩, ⟨0x0007, "task_config"⟩]⟩,
  ⟨"DTS", "data", [⟨0x0002, "data_task_active"⟩, ⟨0x0003, "agent_data"⟩]⟩,
  ⟨"DTS", "oam", [⟨0x000A, "oam_stats_req"⟩]⟩,
  ⟨"DTS", "log", [⟨0x0005, "log_collect"⟩]⟩]

/-- `%04X`. -/
def hex4 (n : Nat) : Bytes :=
  utf8 (String.ofList (((Nat.toDigits 16 n).map Char.toUpper).leftpad 4 '0'))

/-- `snprintf` into `line[64]`. -/
def HandlerRow.text (h : HandlerRow) : Bytes :=
  (utf8 "  0x" ++ hex4 h.msgId ++ utf8 "  " ++ utf8 h.name ++ utf8 "\n").take 63

/-- The line of a group, and those of its rows. -/
def HandlerGroup.text (g : HandlerGroup) : Bytes :=
  utf8 g.sessionType ++ utf8 "." ++ utf8 g.sessionInst ++ utf8 " (" ++ decimal g.rows.length ++
    utf8 " msgs)\n" ++ g.rows.flatMap HandlerRow.text

/-! ## The commands -/

/-- A line for each command of the registry. -/
def cmdHelp (p : Process) : Bytes :=
  p.registry.flatMap fun c => c.name ++ utf8 "  " ++ c.usage ++ utf8 "\n"

/-- The line of a thread in the answer of `get_threads`. -/
def ThreadInfo.text (t : ThreadInfo) : Bytes :=
  t.name.bytes ++ utf8 "  seg=" ++ decimalInt t.segIndex ++ utf8 " prio=" ++ decimalInt t.prio ++
    utf8 " policy=" ++ decimalInt t.schedPolicy ++ utf8 " cpu=" ++ decimalInt t.cpuAffinity ++
    utf8 " tid=" ++ decimal t.tid.toNat ++ utf8 "\n"

/-- `QueryThreads` fills at most 64 rows. -/
def cmdGetThreads (p : Process) : Bytes := (p.threads.take 64).flatMap ThreadInfo.text

/-- The levels that `set_log_level` knows. -/
def levelOf (lvl : Bytes) : Option Level :=
  if lvl = utf8 "trace" then some .TRACE
  else if lvl = utf8 "debug" then some .DEBUG
  else if lvl = utf8 "info" then some .INFO
  else if lvl = utf8 "warn" then some .WARN
  else if lvl = utf8 "error" then some .ERROR
  else none

/-- One argument, the name of a level. -/
def cmdSetLogLevel (p : Process) (args : List Bytes) : Bytes × Process :=
  match args with
  | [] => (utf8 "usage: set_log_level <trace|debug|info|warn|error>", p)
  | lvl :: _ =>
    match levelOf lvl with
    | none => (utf8 "invalid level: " ++ lvl ++ utf8 " (trace|debug|info|warn|error)", p)
    | some level => (utf8 "log level -> " ++ lvl, { p with level := level })

/-- All groups, or those of the business group named by the first argument. -/
def cmdGetHandlers (args : List Bytes) : Bytes :=
  let want := args.headD []
  (kGroups.filter fun g => want.isEmpty || want == utf8 g.sessionInst).flatMap HandlerGroup.text

/-- The counters of the factory, a line each. -/
def cmdGetDataStats (p : Process) : Bytes :=
  let s := p.factory.statsSnapshot
  (utf8 "frames=" ++ decimal s.frames.toNat ++ utf8 " max_us=" ++ decimal s.frameMaxUs.toNat ++
    utf8 " warn=" ++ decimal s.frameBudgetWarn.toNat ++
    utf8 " alarm=" ++ decimal s.frameBudgetAlarm.toNat ++ utf8 " ticks=" ++ decimal s.ticks.toNat ++
    utf8 " budget_warn_us=" ++ decimal p.factory.budgetWarnUs.toNat ++
    utf8 " budget_alarm_us=" ++ decimal p.factory.budgetAlarmUs.toNat ++
    utf8 "\ndrop_pool_full=" ++ decimal s.dropPoolFull.toNat ++
    utf8 " drop_slice_overcap=" ++ decimal s.dropSliceOverCap.toNat ++
    utf8 " key_fail=" ++ decimal s.keyFail.toNat ++ utf8 "\n").take 511

/-- Two numbers; `SetBudget` may refuse them. -/
def cmdSetDataBudget (p : Process) (args : List Bytes) : Bytes × Process :=
  match args with
  | a :: b :: _ =>
    let warn := strtoull a
    let alarm := strtoull b
    let (rc, factory) := p.factory.setBudget warn alarm
    if rc ≠ 0 then (utf8 "invalid budget (warn must be <= alarm and both > 0)", p)
    else
      (utf8 "data budget -> warn=" ++ decimal warn.toNat ++ utf8 "us alarm=" ++
        decimal alarm.toNat ++ utf8 "us", { p with factory := factory })
  | _ => (utf8 "usage: set_data_budget <warn_us> <alarm_us>", p)

/-- The function of a command: its answer and the process after it. -/
def Command.run (cmd : Command) (p : Process) (args : List Bytes) : Bytes × Process :=
  match cmd with
  | .help => (cmdHelp p, p)
  | .getThreads => (cmdGetThreads p, p)
  | .setLogLevel => cmdSetLogLevel p args
  | .getHandlers => (cmdGetHandlers args, p)
  | .getDataStats => (cmdGetDataStats p, p)
  | .setDataBudget => cmdSetDataBudget p args

/-- `CommandRegistry::Find`: `strcmp` sees a word up to its first NUL. -/
def find (p : Process) (name : Bytes) : Option Command :=
  p.registry.find? fun c => c.name == cStr name

/--
`Execute`: the answer and the process after it. `none` stands for `tokens[0]` of an empty vector,
which has no defined outcome.
-/
def execute (p : Process) (line : Bytes) : Option (Bytes × Process) :=
  let trimmed := trim line
  if trimmed.isEmpty then some ([], p)
  else
    match splitLine trimmed with
    | [] => none
    | name :: args =>
      match find p name with
      | none => some (utf8 "not found: " ++ name, p)
      | some cmd => some (cmd.run p args)

/-! ## Texts without a NUL -/

theorem utf8EncodeChar_of_isDigit {c : Char} (h : c.isDigit = true) :
    nul ∉ String.utf8EncodeChar c := by
  have hc : 48 ≤ c.val.toNat ∧ c.val.toNat ≤ 57 := Char.isDigit_iff_toNat.mp h
  have hbyte : String.utf8EncodeChar c = [UInt8.ofNat c.val.toNat] := if_pos (by omega)
  rw [hbyte, List.mem_singleton]
  intro h0
  have hnat := congrArg UInt8.toNat h0
  rw [UInt8.toNat_ofNat', Nat.mod_eq_of_lt (by omega)] at hnat
  change 0 = c.val.toNat at hnat
  omega

@[simp] theorem nul_notMem_decimal (n : Nat) : nul ∉ decimal n := by
  intro h
  obtain ⟨c, hc, hmem⟩ := List.mem_flatMap.mp h
  rw [Nat.toList_repr] at hc
  exact utf8EncodeChar_of_isDigit (Nat.isDigit_of_mem_toDigits (by decide) (by decide) hc) hmem

@[simp] theorem nul_notMem_decimalInt (z : Int) : nul ∉ decimalInt z := by
  unfold decimalInt
  split
  · rw [List.mem_append, not_or]
    exact ⟨by decide, nul_notMem_decimal _⟩
  · exact nul_notMem_decimal _

section
variable (p : Process) (args : List Bytes)

theorem nul_notMem_cmdHelp : nul ∉ cmdHelp p := by
  intro h
  obtain ⟨c, -, hc⟩ := List.mem_flatMap.mp h
  revert hc
  cases c <;> decide +kernel

theorem nul_notMem_cmdGetThreads : nul ∉ cmdGetThreads p := by
  intro h
  obtain ⟨t, -, ht⟩ := List.mem_flatMap.mp h
  have hname := t.name.noNul
  revert ht
  simp only [ThreadInfo.text, List.mem_append, hname, nul_notMem_decimal, nul_notMem_decimalInt,
    false_or, or_false]
  decide +kernel

theorem nul_notMem_cmdGetHandlers : nul ∉ cmdGetHandlers args := by
  have htext : ∀ g ∈ kGroups, nul ∉ g.text := by decide +kernel
  intro h
  obtain ⟨g, hg, hmem⟩ := List.mem_flatMap.mp h
  exact htext g (List.mem_of_mem_filter hg) hmem

theorem nul_notMem_cmdGetDataStats : nul ∉ cmdGetDataStats p := by
  intro h
  have hmem := List.mem_of_mem_take h
  revert hmem
  simp only [List.mem_append, nul_notMem_decimal, or_false]
  decide +kernel

theorem nul_notMem_cmdSetDataBudget : nul ∉ (cmdSetDataBudget p args).1 := by
  unfold cmdSetDataBudget
  split
  · simp only
    split
    · show nul ∉ utf8 "invalid budget (warn must be <= alarm and both > 0)"
      decide +kernel
    · simp only [List.mem_append, nul_notMem_decimal, or_false]
      decide +kernel
  · show nul ∉ utf8 "usage: set_data_budget <warn_us> <alarm_us>"
    decide +kernel

/-- `set_log_level` repeats its argument, a level or not. -/
theorem nul_mem_cmdSetLogLevel : nul ∈ (cmdSetLogLevel p args).1 ↔ nul ∈ args.headD [] := by
  have hlit : nul ∉ utf8 "invalid level: " ∧ nul ∉ utf8 " (trace|debug|info|warn|error)" ∧
      nul ∉ utf8 "log level -> " := by decide +kernel
  cases args with
  | nil =>
    have husage : nul ∉ utf8 "usage: set_log_level <trace|debug|info|warn|error>" := by decide +kernel
    exact iff_of_false husage (List.not_mem_nil)
  | cons lvl args =>
    unfold cmdSetLogLevel
    simp only [List.headD_cons]
    split <;> simp only [List.mem_append, hlit, false_or, or_false]

/-- **Answers with a NUL.** Only `set_log_level` can write one, by repeating its argument. -/
theorem Command.nul_mem_run (cmd : Command) :
    nul ∈ (cmd.run p args).1 ↔ cmd = .setLogLevel ∧ nul ∈ args.headD [] := by
  have hother : ∀ c : Command, c ≠ .setLogLevel → ¬ (c = .setLogLevel ∧ nul ∈ args.headD []) :=
    fun c hc h => hc h.1
  cases cmd with
  | help =>
    simp only [Command.run]
    exact iff_of_false (nul_notMem_cmdHelp p) (hother _ (by decide))
  | getThreads =>
    simp only [Command.run]
    exact iff_of_false (nul_notMem_cmdGetThreads p) (hother _ (by decide))
  | setLogLevel =>
    simp only [Command.run]
    exact (nul_mem_cmdSetLogLevel p args).trans (and_iff_right trivial).symm
  | getHandlers =>
    simp only [Command.run]
    exact iff_of_false (nul_notMem_cmdGetHandlers args) (hother _ (by decide))
  | getDataStats =>
    simp only [Command.run]
    exact iff_of_false (nul_notMem_cmdGetDataStats p) (hother _ (by decide))
  | setDataBudget =>
    simp only [Command.run]
    exact iff_of_false (nul_notMem_cmdSetDataBudget p args) (hother _ (by decide))

end

end Dts.Ctl
