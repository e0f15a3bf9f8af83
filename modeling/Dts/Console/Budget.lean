import Dts.Console.Ctl
import Dts.Infra.Run

/-!
# Budget thresholds

A frame is held against two thresholds, one for a warning and one for an alarm. The constructor of
`DataFactory` takes them from the environment as they are. The command `set_data_budget` goes through
`SetBudget`, which refuses any pair but `0 < warn ≤ alarm`, and stores one after the other: the data
thread may look between the two stores, and the control thread may store between its two loads.

* `exec_commandActs` — the steps of a command do what `cmdSetDataBudget` does
* `countedAs_process` — the class in which `process` counts a frame
* `budgetLaw_iff` — outside of `SetBudget` the thresholds are in order if and only if those of the
  environment are; all the time, for frames too that load one threshold before a store and the other
  behind it, if and only if besides no accepted command goes over the alarm threshold in force
-/

namespace Dts.Budget

open Infra Data Ctl

/-! ## The two ways to the thresholds -/

/-- `DTS_DATA_BUDGET_WARN_US` and `DTS_DATA_BUDGET_ALARM_US`; `none` when not set. -/
structure Environment where
  warn : Option Bytes
  alarm : Option Bytes

def Environment.warnUs (env : Environment) : UInt64 :=
  match env.warn with
  | some v => strtoull v
  | none => kFrameBudgetWarnUs

def Environment.alarmUs (env : Environment) : UInt64 :=
  match env.alarm with
  | some v => strtoull v
  | none => kFrameBudgetAlarmUs

/-- What the constructor of `DataFactory` does to a factory with the default thresholds. -/
def Environment.construct (env : Environment) (f : DataFactory) : DataFactory :=
  { f with budgetWarnUs := env.warnUs, budgetAlarmUs := env.alarmUs }

/-- The pair in force. -/
def thresholds (f : DataFactory) : UInt64 × UInt64 := (f.budgetWarnUs, f.budgetAlarmUs)

/-- A frame whose warning threshold is loaded. -/
structure Loading where
  raw : RawFrame
  dataType : UInt16
  us : UInt64
  warnUs : UInt64
  /-- the pairs in force since the load, history -/
  since : List (UInt64 × UInt64)

structure State where
  factory : DataFactory
  /-- the alarm threshold that `SetBudget` has still to store -/
  pending : Option UInt64
  /-- the frame that the data thread is at -/
  loading : Option Loading

/-- The control thread has stored a threshold. -/
def State.store (s : State) (f : DataFactory) (pending : Option UInt64) : State where
  factory := f
  pending := pending
  loading := s.loading.map fun l => { l with since := l.since ++ [thresholds f] }

/-- `process` with the loaded warning threshold, and the alarm threshold in force. -/
def finish (f : DataFactory) (l : Loading) : DataFactory :=
  { ({ f with budgetWarnUs := l.warnUs }.process l.raw l.dataType l.us).2 with
    budgetWarnUs := f.budgetWarnUs }

inductive Act where
  /-- `CmdSetDataBudget` up to the first store of `SetBudget` -/
  | command (args : List Bytes)
  | storeAlarm
  /-- `Process` up to its load of the warning threshold -/
  | loadWarn (raw : RawFrame) (dataType : UInt16) (us : UInt64)
  | loadAlarm
  | tick
  | task (taskId : UInt32)

/-- The pair that a command hands to `SetBudget`. -/
def parse : List Bytes → Option (UInt64 × UInt64)
  | a :: b :: _ => some (strtoull a, strtoull b)
  | _ => none

/-- The test of `SetBudget`. -/
def refuses (warnUs alarmUs : UInt64) : Bool := warnUs == 0 || alarmUs == 0 || alarmUs < warnUs

/-- The pair of a command that is accepted. -/
def accepted (args : List Bytes) : Option (UInt64 × UInt64) :=
  (parse args).filter fun p => !refuses p.1 p.2

def step (s : State) : Act → Option State
  | .command args =>
    match s.pending with
    | some _ => none
    | none =>
      match accepted args with
      | none => some s
      | some (warnUs, alarmUs) =>
        some (s.store { s.factory with budgetWarnUs := warnUs } (some alarmUs))
  | .storeAlarm =>
    match s.pending with
    | some alarmUs => some (s.store { s.factory with budgetAlarmUs := alarmUs } none)
    | none => none
  | .loadWarn raw dataType us =>
    match s.loading with
    | some _ => none
    | none => some { s with
        loading := some ⟨raw, dataType, us, s.factory.budgetWarnUs, [thresholds s.factory]⟩ }
  | .loadAlarm =>
    match s.loading with
    | some l => some { s with factory := finish s.factory l, loading := none }
    | none => none
  | .tick =>
    match s.loading with
    | some _ => none
    | none => some { s with factory := s.factory.onTick }
  | .task taskId =>
    match s.loading with
    | some _ => none
    | none => some { s with factory := s.factory.onTask taskId }

def start (env : Environment) (f : DataFactory) : State := ⟨env.construct f, none, none⟩

/-! ## A whole command -/

/-- The steps of a whole command. -/
def commandActs (args : List Bytes) : List Act :=
  match accepted args with
  | some _ => [.command args, .storeAlarm]
  | none => [.command args]

/-- The steps of a command one after the other do what `cmdSetDataBudget` does. -/
theorem exec_commandActs (p : Process) (args : List Bytes) :
    exec step ⟨p.factory, none, none⟩ (commandActs args) =
      some ⟨(cmdSetDataBudget p args).2.factory, none, none⟩ := by
  unfold commandActs cmdSetDataBudget
  match args with
  | [] => rfl
  | [_] => rfl
  | a :: b :: rest =>
    have hset : p.factory.setBudget (strtoull a) (strtoull b) =
        if refuses (strtoull a) (strtoull b) then (-1, p.factory)
        else (0, { p.factory with
          budgetWarnUs := strtoull a, budgetAlarmUs := strtoull b }) := rfl
    cases h : refuses (strtoull a) (strtoull b) with
    | true =>
      have hnone : accepted (a :: b :: rest) = none := by simp [accepted, parse, h]
      simp [exec_cons, step, hset, hnone, h]
    | false =>
      have hsome : accepted (a :: b :: rest) = some (strtoull a, strtoull b) := by
        simp [accepted, parse, h]
      simp [exec_cons, step, State.store, hset, hsome, h]

/-! ## The law and its conditions -/

inductive FrameClass where
  | ok
  | warn
  | alarm
  deriving DecidableEq

/-- The class of a frame of that time under a pair. -/
def classOf (p : UInt64 × UInt64) (us : UInt64) : FrameClass :=
  if p.2 ≤ us then .alarm else if p.1 ≤ us then .warn else .ok

/-- The class in which a frame was counted, if it was. -/
def countedAs (before after : DataStats) : Option FrameClass :=
  if after.frames = before.frames then none
  else if after.frameBudgetAlarm ≠ before.frameBudgetAlarm then some .alarm
  else if after.frameBudgetWarn ≠ before.frameBudgetWarn then some .warn
  else some .ok

/-- A class is that of both thresholds: ok below both of them, an alarm from both of them on. -/
structure Consistent (p : UInt64 × UInt64) (us : UInt64) (c : FrameClass) : Prop where
  ok : c = .ok ↔ us < p.1
  warn : c = .warn ↔ p.1 ≤ us ∧ us < p.2
  alarm : c = .alarm ↔ p.1 ≤ us ∧ p.2 ≤ us

/-- **The law.** -/
structure BudgetLaw (f : DataFactory) : Prop where
  positive : 0 < f.budgetWarnUs
  ordered : f.budgetWarnUs ≤ f.budgetAlarmUs
  /-- `process` counts a frame in the class of both thresholds -/
  frames : ∀ raw dataType us c,
    countedAs f.stats (f.process raw dataType us).2.stats = some c → Consistent (thresholds f) us c

/-- `0 < warn ≤ alarm`. -/
def Ordered (warnUs alarmUs : UInt64) : Prop := 0 < warnUs ∧ warnUs ≤ alarmUs

instance (warnUs alarmUs : UInt64) : Decidable (Ordered warnUs alarmUs) :=
  inferInstanceAs (Decidable (_ ∧ _))

/-- A frame is counted in the class of a pair that was in force between its two loads. -/
def FrameLaw (s : State) : Prop :=
  ∀ l, s.loading = some l → ∀ c,
    countedAs s.factory.stats (finish s.factory l).stats = some c →
      ∃ p ∈ l.since, Ordered p.1 p.2 ∧ Consistent p l.us c

/-- What the environment asks for is in order. -/
def Environment.Sound (env : Environment) : Prop := Ordered env.warnUs env.alarmUs

instance (env : Environment) : Decidable env.Sound := inferInstanceAs (Decidable (Ordered _ _))

/-- A command that is accepted does not go over the alarm threshold in force. -/
def Below (s : State) : Act → Prop
  | .command args => ∀ p, accepted args = some p → p.1 ≤ s.factory.budgetAlarmUs
  | _ => True

/-! ## What a frame is counted as -/

/-- An account is of the class of the pair. -/
theorem countedAs_account {before s : DataStats} (hframes : s.frames = before.frames)
    (hwarn : s.frameBudgetWarn = before.frameBudgetWarn)
    (halarm : s.frameBudgetAlarm = before.frameBudgetAlarm) (p : UInt64 × UInt64) (us : UInt64) :
    countedAs before (s.account p.1 p.2 us) = some (classOf p us) := by
  unfold countedAs classOf
  rw [account_frames, hframes, if_neg (by simp)]
  unfold DataStats.account
  by_cases ha : p.2 ≤ us
  · simp [ha, halarm]
  · by_cases hw : p.1 ≤ us
    · simp [ha, hw, halarm, hwarn]
    · simp [ha, hw, halarm, hwarn]

/-- A call accounts for one frame under the thresholds, or for none. -/
theorem stats_process (f : DataFactory) (raw : RawFrame) (dataType : UInt16) (us : UInt64) :
    ∃ s : DataStats, s.frames = f.stats.frames ∧ s.frameBudgetWarn = f.stats.frameBudgetWarn ∧
      s.frameBudgetAlarm = f.stats.frameBudgetAlarm ∧
      ((f.process raw dataType us).2.stats = s ∨
        (f.process raw dataType us).2.stats = s.account f.budgetWarnUs f.budgetAlarmUs us) := by
  have hcut : ∀ (f : DataFactory) (ts : UInt64) (block : Nat),
      (f.cutAndFlush raw dataType us ts block).2.stats = f.stats ∨
        (f.cutAndFlush raw dataType us ts block).2.stats =
          f.stats.account f.budgetWarnUs f.budgetAlarmUs us := by
    intro f ts block
    unfold DataFactory.cutAndFlush
    simp only
    split
    · exact Or.inl rfl
    · exact Or.inr rfl
  unfold DataFactory.process
  simp only
  split
  · exact ⟨f.stats, rfl, rfl, rfl, Or.inl rfl⟩
  split
  · exact ⟨f.stats, rfl, rfl, rfl, Or.inl rfl⟩
  split
  · exact ⟨f.stats, rfl, rfl, rfl, Or.inl rfl⟩
  obtain ⟨n, hkey⟩ := countKey_eq { f with procCount := f.procCount + 1 }
    (extractRawKey dataType raw)
  unfold DataFactory.processFrame
  simp only [hkey]
  split
  · refine ⟨_, ?_, ?_, ?_, Or.inl rfl⟩
    all_goals rfl
  · refine ⟨_, ?_, ?_, ?_, hcut _ _ _⟩
    all_goals rfl

/-- **Frames.** A frame that `process` counts is counted in the class of the thresholds. -/
theorem countedAs_process {f : DataFactory} {raw : RawFrame} {dataType : UInt16} {us : UInt64}
    {c : FrameClass} (h : countedAs f.stats (f.process raw dataType us).2.stats = some c) :
    c = classOf (thresholds f) us := by
  obtain ⟨s, hframes, hwarn, halarm, hsame | haccount⟩ := stats_process f raw dataType us
  · rw [hsame, countedAs, if_pos hframes] at h
    cases h
  · have hcounted := countedAs_account hframes hwarn halarm (thresholds f) us
    rw [haccount] at h
    exact (Option.some.inj (hcounted.symm.trans h)).symm

/-- Under a pair that is in order the class is that of both thresholds. -/
theorem consistent_classOf {p : UInt64 × UInt64} (h : Ordered p.1 p.2) (us : UInt64) :
    Consistent p us (classOf p us) := by
  have hle := UInt64.le_iff_toNat_le.mp h.2
  unfold classOf
  refine ⟨?_, ?_, ?_⟩
  all_goals
    simp only [UInt64.le_iff_toNat_le, UInt64.lt_iff_toNat_lt]
    split
    · simp
      omega
    · split
      · simp
        omega
      · simp
        omega

/-! ## Thresholds -/

theorem budgetLaw_iff_ordered (f : DataFactory) :
    BudgetLaw f ↔ Ordered (thresholds f).1 (thresholds f).2 := by
  constructor
  · exact fun h => ⟨h.positive, h.ordered⟩
  · intro h
    refine ⟨h.1, h.2, fun raw dataType us c hc => ?_⟩
    rw [countedAs_process hc]
    exact consistent_classOf h us

theorem not_refuses_iff (warnUs alarmUs : UInt64) :
    refuses warnUs alarmUs = false ↔ Ordered warnUs alarmUs := by
  simp only [refuses, Ordered, Bool.or_eq_false_iff, beq_eq_false_iff_ne, ne_eq,
    decide_eq_false_iff_not, UInt64.not_lt, UInt64.pos_iff_ne_zero]
  constructor
  · rintro ⟨⟨hwarn, -⟩, hle⟩
    exact ⟨hwarn, hle⟩
  · rintro ⟨hwarn, hle⟩
    refine ⟨⟨hwarn, ?_⟩, hle⟩
    rintro rfl
    exact hwarn (UInt64.le_zero_iff.mp hle)

/-- What `SetBudget` accepts is in order. -/
theorem ordered_of_accepted {args : List Bytes} {p : UInt64 × UInt64} (h : accepted args = some p) :
    Ordered p.1 p.2 := by
  have htest := (Option.filter_eq_some_iff.mp h).2
  exact (not_refuses_iff _ _).mp (by simpa using htest)

/-- The data thread never writes the thresholds. -/
theorem thresholds_process (f : DataFactory) (raw : RawFrame) (dataType : UInt16) (us : UInt64) :
    thresholds (f.process raw dataType us).2 = thresholds f := by
  have hcut : ∀ (f : DataFactory) (ts : UInt64) (block : Nat),
      thresholds (f.cutAndFlush raw dataType us ts block).2 = thresholds f := by
    intro f ts block
    unfold DataFactory.cutAndFlush
    simp only
    split
    · rfl
    · rfl
  have hframe : ∀ f : DataFactory, thresholds (f.processFrame raw dataType us).2 = thresholds f := by
    intro f
    obtain ⟨n, hkey⟩ := countKey_eq f (extractRawKey dataType raw)
    unfold DataFactory.processFrame
    simp only [hkey]
    split
    · rfl
    · rw [hcut]
      rfl
  unfold DataFactory.process
  simp only
  split
  · rfl
  · split
    · rfl
    · split
      · rfl
      · rw [hframe]
        rfl

theorem thresholds_finish (f : DataFactory) (l : Loading) :
    thresholds (finish f l) = thresholds f := by
  have hprocess := thresholds_process { f with budgetWarnUs := l.warnUs } l.raw l.dataType l.us
  exact Prod.ext rfl (Prod.mk.inj hprocess).2

/-- **What a step does** to the thresholds. -/
inductive Effect (s t : State) : Act → Prop where
  | rejected (args) : s.pending = none → accepted args = none → t = s → Effect s t (.command args)
  | stored (args p) : s.pending = none → accepted args = some p →
      thresholds t.factory = (p.1, s.factory.budgetAlarmUs) → t.pending = some p.2 →
      Effect s t (.command args)
  | finished (alarmUs) : s.pending = some alarmUs →
      thresholds t.factory = (s.factory.budgetWarnUs, alarmUs) → t.pending = none →
      Effect s t .storeAlarm
  | data (a) : thresholds t.factory = thresholds s.factory → t.pending = s.pending → Effect s t a

theorem effect {s t : State} {a : Act} (h : step s a = some t) : Effect s t a := by
  cases a with
  | command args =>
    simp only [step] at h
    split at h
    · cases h
    · rename_i hnone
      split at h
      · rename_i hrejected
        cases h
        exact .rejected args hnone hrejected rfl
      · rename_i warnUs alarmUs hsome
        cases h
        exact .stored args (warnUs, alarmUs) hnone hsome rfl rfl
  | storeAlarm =>
    simp only [step] at h
    split at h
    · rename_i alarmUs hsome
      cases h
      exact .finished alarmUs hsome rfl rfl
    · cases h
  | loadWarn raw dataType us =>
    simp only [step] at h
    split at h
    · cases h
    · cases h
      exact .data _ rfl rfl
  | loadAlarm =>
    simp only [step] at h
    split at h
    · cases h
      exact .data _ (thresholds_finish _ _) rfl
    · cases h
  | tick =>
    simp only [step] at h
    split at h
    · cases h
    · cases h
      exact .data _ rfl rfl
  | task taskId =>
    simp only [step] at h
    split at h
    · cases h
    · cases h
      exact .data _ rfl rfl

/-! ## The invariants -/

/-- The pair that is in force when `SetBudget` is done. -/
def goal (s : State) : UInt64 × UInt64 :=
  (s.factory.budgetWarnUs, s.pending.getD s.factory.budgetAlarmUs)

/-- The pairs that commands aim at are in order. -/
def Aimed (s : State) : Prop := Ordered (goal s).1 (goal s).2

/-- And so is the pair in force. -/
def InOrder (s : State) : Prop := Aimed s ∧ Ordered (thresholds s.factory).1 (thresholds s.factory).2

theorem goal_of_data {s t : State} (hvals : thresholds t.factory = thresholds s.factory)
    (hpending : t.pending = s.pending) : goal t = goal s := by
  obtain ⟨hwarn, halarm⟩ := Prod.mk.inj hvals
  rw [goal, goal, hpending, hwarn, halarm]

theorem Aimed.step {s t : State} {a : Act} (h : Aimed s) (hs : Budget.step s a = some t) :
    Aimed t := by
  unfold Aimed at h ⊢
  cases effect hs with
  | rejected args hnone hrejected ht => rwa [ht]
  | stored args p hnone hsome hvals hpending =>
    have hgoal : goal t = p := by
      rw [goal, hpending, (Prod.mk.inj hvals).1]
      rfl
    rw [hgoal]
    exact ordered_of_accepted hsome
  | finished alarmUs hsome hvals hpending =>
    obtain ⟨hwarn, halarm⟩ := Prod.mk.inj hvals
    rw [goal, hpending, hwarn, Option.getD_none, halarm]
    rwa [goal, hsome] at h
  | data _ hvals hpending => rwa [goal_of_data hvals hpending]

theorem InOrder.step {s t : State} {a : Act} (h : InOrder s) (hs : Budget.step s a = some t)
    (hbelow : Below s a) : InOrder t := by
  refine ⟨h.1.step hs, ?_⟩
  cases effect hs with
  | rejected args hnone hrejected ht => rw [ht]; exact h.2
  | stored args p hnone hsome hvals hpending =>
    rw [hvals]
    exact ⟨(ordered_of_accepted hsome).1, hbelow p hsome⟩
  | finished alarmUs hsome hvals hpending =>
    have haimed := h.1
    unfold Aimed at haimed
    rw [goal, hsome] at haimed
    rwa [hvals]
  | data _ hvals hpending => rw [hvals]; exact h.2

/-- A command that goes over the alarm threshold in force leaves the thresholds out of order. -/
theorem below_of_ordered {s t : State} {a : Act} (hs : step s a = some t)
    (h : Ordered (thresholds t.factory).1 (thresholds t.factory).2) : Below s a := by
  cases a with
  | command args =>
    intro p hp
    simp only [step] at hs
    split at hs
    · cases hs
    · rw [hp] at hs
      cases hs
      exact h.2
  | _ => trivial

/-! ## Frames between two loads -/

/-- What is known of a frame whose warning threshold is loaded. -/
structure Seen (f : DataFactory) (l : Loading) : Prop where
  /-- it was loaded from a pair in force -/
  loaded : ∃ p ∈ l.since, p.1 = l.warnUs
  now : thresholds f ∈ l.since
  ordered : ∀ p ∈ l.since, Ordered p.1 p.2
  /-- a time from the loaded threshold on was a warning, or it is not below the present one -/
  warned : ∀ us, l.warnUs ≤ us → (∃ p ∈ l.since, classOf p us = .warn) ∨ f.budgetWarnUs ≤ us

def Watched (s : State) : Prop := ∀ l, s.loading = some l → Seen s.factory l

/-- The control thread stores a threshold. -/
theorem Seen.store {f g : DataFactory} {l : Loading} (h : Seen f l)
    (hg : Ordered (thresholds g).1 (thresholds g).2)
    (hkeep : ∀ us, f.budgetWarnUs ≤ us → f.budgetAlarmUs ≤ us → g.budgetWarnUs ≤ us) :
    Seen g { l with since := l.since ++ [thresholds g] } where
  loaded := by
    obtain ⟨p, hp, hwarn⟩ := h.loaded
    exact ⟨p, List.mem_append_left _ hp, hwarn⟩
  now := List.mem_append_right _ List.mem_cons_self
  ordered := by
    intro p hp
    rcases List.mem_append.mp hp with hp | hp
    · exact h.ordered p hp
    · rw [List.mem_singleton.mp hp]
      exact hg
  warned := by
    intro us hus
    rcases h.warned us hus with ⟨p, hp, hclass⟩ | hwarn
    · exact Or.inl ⟨p, List.mem_append_left _ hp, hclass⟩
    · by_cases halarm : f.budgetAlarmUs ≤ us
      · exact Or.inr (hkeep us hwarn halarm)
      · -- the pair before the store says so
        refine Or.inl ⟨thresholds f, List.mem_append_left _ h.now, ?_⟩
        rw [classOf, thresholds, if_neg halarm, if_pos hwarn]

theorem Watched.store {s : State} (h : Watched s) {g : DataFactory} {pending : Option UInt64}
    (hg : Ordered (thresholds g).1 (thresholds g).2)
    (hkeep : ∀ us, s.factory.budgetWarnUs ≤ us → s.factory.budgetAlarmUs ≤ us →
      g.budgetWarnUs ≤ us) : Watched (s.store g pending) := by
  intro l hl
  obtain ⟨l', hl', rfl⟩ := Option.map_eq_some_iff.mp hl
  exact (h l' hl').store hg hkeep

theorem Watched.step {s t : State} {a : Act} (h : Watched s) (hs : Budget.step s a = some t)
    (horder : InOrder s) (hnext : InOrder t) : Watched t := by
  cases a with
  | command args =>
    simp only [Budget.step] at hs
    split at hs
    · cases hs
    · split at hs
      · cases hs
        exact h
      · cases hs
        exact h.store hnext.2 fun us _ halarm => UInt64.le_trans hnext.2.2 halarm
  | storeAlarm =>
    simp only [Budget.step] at hs
    split at hs
    · cases hs
      exact h.store hnext.2 fun us hwarn _ => hwarn
    · cases hs
  | loadWarn raw dataType us =>
    simp only [Budget.step] at hs
    split at hs
    · cases hs
    · cases hs
      rintro l ⟨⟩
      refine ⟨⟨_, List.mem_cons_self, rfl⟩, List.mem_cons_self, fun p hp => ?_,
        fun us hus => Or.inr hus⟩
      rw [List.mem_singleton.mp hp]
      exact horder.2
  | loadAlarm =>
    simp only [Budget.step] at hs
    split at hs
    · cases hs
      rintro l ⟨⟩
    · cases hs
  | tick | task taskId =>
    simp only [Budget.step] at hs
    split at hs
    · cases hs
    · rename_i hnone
      cases hs
      intro l hl
      have hl : s.loading = some l := hl
      rw [hnone] at hl
      cases hl

/-- The frame is counted in the class of a pair in force. -/
theorem Watched.frameLaw {s : State} (h : Watched s) : FrameLaw s := by
  intro l hl c hc
  have hseen := h l hl
  have hclass : c = classOf (l.warnUs, s.factory.budgetAlarmUs) l.us :=
    @countedAs_process { s.factory with budgetWarnUs := l.warnUs } l.raw l.dataType l.us c hc
  have hpair {p : UInt64 × UInt64} (hp : p ∈ l.since) (hsame : c = classOf p l.us) :
      ∃ p ∈ l.since, Ordered p.1 p.2 ∧ Consistent p l.us c :=
    ⟨p, hp, hseen.ordered p hp, hsame ▸ consistent_classOf (hseen.ordered p hp) l.us⟩
  rw [classOf] at hclass
  split at hclass
  · rename_i halarm
    refine hpair hseen.now ?_
    rw [hclass, classOf, thresholds, if_pos halarm]
  · rename_i halarm
    split at hclass
    · rename_i hwarn
      rcases hseen.warned l.us hwarn with ⟨p, hp, hwarned⟩ | hnow
      · exact hpair hp (hclass.trans hwarned.symm)
      · refine hpair hseen.now ?_
        rw [hclass, classOf, thresholds, if_neg halarm, if_pos hnow]
    · rename_i hwarn
      obtain ⟨p, hp, hloaded⟩ := hseen.loaded
      refine hpair hp ?_
      have hlt : l.us < p.1 := hloaded ▸ UInt64.not_le.mp hwarn
      have hbelow := UInt64.lt_of_lt_of_le hlt (hseen.ordered p hp).2
      rw [hclass, classOf, if_neg (UInt64.not_le.mpr hbelow), if_neg (UInt64.not_le.mpr hlt)]

/-! ## Runs -/

section
variable {env : Environment} {f : DataFactory} {as : List Act}

/-- The law of the first state is that of the environment. -/
theorem sound_of_allStates {P : State → Prop} (hP : P (start env f) → BudgetLaw (start env f).factory)
    (h : AllStates step P (start env f) as) : env.Sound := by
  have hstart : P (start env f) := (allStates_iff_prefixes as _).mp h [] List.nil_prefix _ rfl
  exact (budgetLaw_iff_ordered _).mp (hP hstart)

/-- From a sound environment every command leaves the thresholds in order when it is done. -/
theorem settled_of_sound (henv : env.Sound) :
    AllStates step (fun s => s.pending = none → BudgetLaw s.factory) (start env f) as := by
  refine (allStates_iff_prefixes as _).mpr fun pre _ s hs hnone => ?_
  have haimed : Aimed s :=
    Reachable.invariant ⟨pre, hs⟩ (show Aimed (start env f) from henv) fun _ _ _ => Aimed.step
  unfold Aimed at haimed
  rw [goal, hnone] at haimed
  exact (budgetLaw_iff_ordered _).mpr haimed

/-- And all the time if and only if no command goes over the alarm threshold in force. -/
theorem always_iff_of_sound (henv : env.Sound) :
    AllStates step (fun s => BudgetLaw s.factory ∧ FrameLaw s) (start env f) as ↔
      AllSteps step Below (start env f) as :=
  allStates_iff_allSteps (fun s => InOrder s ∧ Watched s)
    (fun _ h => ⟨(budgetLaw_iff_ordered _).mpr h.1.2, h.2.frameLaw⟩)
    (fun _ _ _ h hs hbelow =>
      have hnext := h.1.step hs hbelow
      ⟨hnext, h.2.step hs h.1 hnext⟩)
    (fun _ _ _ _ hs hlaw => below_of_ordered hs ((budgetLaw_iff_ordered _).mp hlaw.1))
    as _ ⟨⟨henv, henv⟩, by rintro l ⟨⟩⟩

end

/--
**Thresholds.** For every environment and every run: the law holds in all states outside of
`SetBudget` if and only if the environment is sound, and it holds in all states, and for every frame
whose loads lie on both sides of a store, if and only if besides every accepted command stays below
the alarm threshold in force.
-/
theorem budgetLaw_iff (env : Environment) (f : DataFactory) (as : List Act) :
    (AllStates step (fun s => s.pending = none → BudgetLaw s.factory) (start env f) as ↔
        env.Sound) ∧
      (AllStates step (fun s => BudgetLaw s.factory ∧ FrameLaw s) (start env f) as ↔
        env.Sound ∧ AllSteps step Below (start env f) as) := by
  refine ⟨⟨sound_of_allStates fun h => h rfl, settled_of_sound⟩, ?_⟩
  constructor
  · intro h
    have henv := sound_of_allStates And.left h
    exact ⟨henv, (always_iff_of_sound henv).mp h⟩
  · rintro ⟨henv, hbelow⟩
    exact (always_iff_of_sound henv).mpr hbelow

/-- A warning threshold of 8000 is set, and the alarm threshold stays at its default. -/
def warnOnly : Environment := ⟨some (utf8 "8000"), none⟩

/-- The factory starts with 8000 and 5000. -/
theorem not_budgetLaw_warnOnly : (warnOnly.warnUs, warnOnly.alarmUs) = (8000, 5000) ∧
    ¬ ∀ (env : Environment) (f : DataFactory) (as : List Act),
      AllStates step (fun s => s.pending = none → BudgetLaw s.factory) (start env f) as := by
  refine ⟨by decide, fun h => ?_⟩
  have hall := h warnOnly (DataFactory.assemble (fun _ => 0) (fun _ => 0) [] .FULL 3000 5000) []
  have hsound : warnOnly.Sound := sound_of_allStates (fun hlaw => hlaw rfl) hall
  revert hsound
  decide

end Dts.Budget
