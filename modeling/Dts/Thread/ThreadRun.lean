import Dts.Infra.Run
import Dts.Routing.TaskActive

/-!
# The loop of the data thread

`ThreadRun`: a deadline every 100 ms, a `MSG_ID_TIMER` for the handler when it has passed, and one
message of the mailbox in between. When several deadlines have passed, the loop makes one dispatch
and steps over the others. The factory counts the dispatches in `tick`, and takes that for the time.

`ticks_iff` says for which runs the count is the time.
-/

namespace Dts.Thread

open Infra Data Routing

/-! ## The thread -/

/-- 100 ms on the clock, in nanoseconds. -/
def kTickNs : Nat := 100 * 1000000

/-- Where the loop is. -/
inductive Pc where
  | head
  | check
  | dispatch
  /-- the body of the catch-up loop; `again` from its second turn on -/
  | advance (again : Bool)
  | advanced
  | wait
  | handle (msg : MailMsg)
  | stopped

/-- A dispatch of the timer: the clock at that time, and `m_tick` behind it. -/
structure TimerDispatch where
  clock : Nat
  tick : UInt32
  deriving DecidableEq

/--
The thread with its factory. The clock counts from the first reading of it. `dispatched` are the
dispatches so far, `skipped` the deadlines stepped over, and `strays` the timer messages that came
through the mailbox.
-/
structure ThreadState where
  pc : Pc
  now : Nat
  nextTick : Nat
  stop : Bool
  mailbox : List MailMsg
  factory : DataFactory
  dispatched : List TimerDispatch
  skipped : Nat
  strays : Nat

/-- The thread at the start of its loop, with a factory as it is after start-up. -/
def ThreadState.init (f : DataFactory) : ThreadState where
  pc := .head
  now := 0
  nextTick := kTickNs
  stop := false
  mailbox := []
  factory := f
  dispatched := []
  skipped := 0
  strays := 0

/-- Time passes, a message arrives, another thread asks for a stop, or the thread goes on. -/
inductive Act where
  | pass (ns : Nat)
  | arrive (msg : MailMsg)
  | requestStop
  | run (us : UInt64)

/-- The call of the handler for the timer: no session, no payload. -/
def timerEntry (us : UInt64) (f : DataFactory) : DataFactory :=
  (dataMsgHandlerDispatch kDataGroups none msgIdTimer none 0).foldl (runData us) f

/-- The next step of the loop; `none` while it waits. -/
def threadRun (us : UInt64) (s : ThreadState) : Option ThreadState :=
  match s.pc with
  | .head => some { s with pc := if s.stop then .stopped else .check }
  | .check => some { s with pc := if s.nextTick ≤ s.now then .dispatch else .wait }
  | .dispatch =>
    let f := timerEntry us s.factory
    some { s with
      pc := .advance false
      factory := f
      dispatched := s.dispatched ++ [⟨s.now, f.tick⟩] }
  | .advance again =>
    some { s with
      pc := .advanced
      nextTick := s.nextTick + kTickNs
      skipped := if again then s.skipped + 1 else s.skipped }
  | .advanced => some { s with pc := if s.nextTick ≤ s.now then .advance true else .wait }
  | .wait =>
    match s.mailbox with
    | [] => if s.stop || s.nextTick ≤ s.now then some { s with pc := .head } else none
    | msg :: rest => some { s with pc := .handle msg, mailbox := rest }
  | .handle msg =>
    some { s with
      pc := .head
      factory := dataThreadStep us s.factory msg
      strays := if msg.msgId == msgIdTimer then s.strays + 1 else s.strays }
  | .stopped => none

def threadStep (s : ThreadState) : Act → Option ThreadState
  | .pass ns => some { s with now := s.now + ns }
  | .arrive msg => some { s with mailbox := s.mailbox ++ [msg] }
  | .requestStop => some { s with stop := true }
  | .run us => threadRun us s

/-! ## The law and its condition -/

/-- **Behind every dispatch the count is the number of whole periods since the start.** -/
def TicksAreTime (s : ThreadState) : Prop :=
  ∀ d ∈ s.dispatched, d.tick.toNat = d.clock / kTickNs

/--
At a dispatch every deadline that was stepped over, or has passed since the one of the dispatch, is
made up for by a timer message of the mailbox; and the periods can be counted in 32 bits.
-/
def onTime (s : ThreadState) : Act → Bool
  | .run _ =>
    match s.pc with
    | .dispatch => s.now / kTickNs < 2 ^ 32 &&
        s.strays % 2 ^ 32 == s.skipped + (s.now - s.nextTick) / kTickNs
    | _ => true
  | _ => true

/-! ## What a message does to the count -/

section Tick

variable (f : DataFactory) (us : UInt64)

theorem tick_runData (invoked : Invoked DataHandler) :
    (runData us f invoked).tick
      = match invoked with
        | .onTick _ _ => f.tick + 1
        | .handler _ => f.tick := by
  cases invoked with
  | onTick msg len => rfl
  | handler call =>
    obtain ⟨fn, msg, len⟩ := call
    cases fn with
    | onTaskActive =>
      show (dataOnTaskActive f msg len).tick = f.tick
      unfold dataOnTaskActive
      split
      · rfl
      · split
        · rfl
        · simp only
          split
          · rfl
          · rfl
    | onAgentData =>
      show (dataOnAgentData f msg len us).tick = f.tick
      unfold dataOnAgentData
      split
      · rfl
      · split
        · rfl
        · exact tick_process f us _ _
    | onOamStatsReq => rfl

theorem tick_timerEntry : (timerEntry us f).tick = f.tick + 1 := rfl

/-- A message moves the count only when its id is that of the timer. -/
theorem tick_dataThreadStep (msg : MailMsg) :
    (dataThreadStep us f msg).tick = if msg.msgId == msgIdTimer then f.tick + 1 else f.tick := by
  have hhandlers : ∀ (calls : List (Call DataHandler)) (f : DataFactory),
      ((calls.map Invoked.handler).foldl (runData us) f).tick = f.tick := by
    intro calls
    induction calls with
    | nil => exact fun _ => rfl
    | cons call calls ih =>
      intro f
      rw [List.map_cons, List.foldl_cons, ih, tick_runData]
  unfold dataThreadStep dataMsgHandlerDispatch msgHandlerDispatch
  simp only
  split
  · rfl
  · exact hhandlers _ f

end Tick

/-! ## The invariant -/

/-- The time by which the deadline is behind: it has been met, and the next one is not set yet. -/
def Pc.owed : Pc → Nat
  | .advance false => kTickNs
  | _ => 0

theorem owed_advance : Pc.owed (.advance false) = kTickNs := rfl

structure ThreadInv (s : ThreadState) : Prop where
  law : TicksAreTime s
  tick : s.factory.tick.toNat = (s.dispatched.length + s.strays) % 2 ^ 32
  deadline : s.nextTick + s.pc.owed = (s.dispatched.length + s.skipped + 1) * kTickNs
  due : s.pc = .dispatch → s.nextTick ≤ s.now

theorem threadInv_init (f : DataFactory) (hf : f.tick = 0) : ThreadInv (ThreadState.init f) where
  law := fun _ h => absurd h List.not_mem_nil
  tick := by
    show f.tick.toNat = 0
    rw [hf]
    rfl
  deadline := by simp [ThreadState.init, Pc.owed]
  due := fun h => by cases h

theorem toNat_succ (n : UInt32) : (n + 1).toNat = (n.toNat + 1) % 2 ^ 32 := UInt32.toNat_add n 1

/-- The periods since the start, at a dispatch. -/
theorem ThreadInv.periods {s : ThreadState} (h : ThreadInv s) (hpc : s.pc = .dispatch) :
    s.now / kTickNs = s.dispatched.length + s.skipped + 1 + (s.now - s.nextTick) / kTickNs := by
  have hdue := h.due hpc
  have hdeadline := h.deadline
  rw [hpc] at hdeadline
  change s.nextTick + 0 = _ at hdeadline
  have hsplit : s.now = (s.now - s.nextTick) + (s.dispatched.length + s.skipped + 1) * kTickNs := by
    omega
  conv_lhs => rw [hsplit]
  rw [Nat.add_mul_div_right _ _ (by decide), Nat.add_comm]

/-- The count behind a dispatch is the time if and only if the dispatch is on time. -/
theorem tick_eq_iff {s : ThreadState} (h : ThreadInv s) (hpc : s.pc = .dispatch) (us : UInt64) :
    (timerEntry us s.factory).tick.toNat = s.now / kTickNs ↔ onTime s (.run us) = true := by
  have hperiods := h.periods hpc
  rw [tick_timerEntry, toNat_succ, h.tick]
  simp only [onTime, hpc, Bool.and_eq_true, decide_eq_true_eq, beq_iff_eq]
  generalize s.now / kTickNs = periods at hperiods ⊢
  generalize (s.now - s.nextTick) / kTickNs = late at hperiods ⊢
  omega

/-- The report timestamp of a count that is the time: the whole periods, in milliseconds. -/
theorem timestamp_eq {d : TimerDispatch} (h : d.tick.toNat = d.clock / kTickNs) :
    (d.tick.toUInt64 * kTickMs).toNat = d.clock / kTickNs * 100 := by
  have hlt := d.tick.toNat_lt
  have hms : kTickMs.toNat = 100 := rfl
  rw [UInt64.toNat_mul, UInt32.toNat_toUInt64, hms, h, Nat.mod_eq_of_lt (by omega)]

/-! ## The steps -/

/-- A turn that only moves on. -/
theorem ThreadInv.goTo {s : ThreadState} (h : ThreadInv s) {pc : Pc} {mailbox : List MailMsg}
    (howed : pc.owed = s.pc.owed) (hdue : pc = .dispatch → s.nextTick ≤ s.now) :
    ThreadInv { s with pc := pc, mailbox := mailbox } where
  law := h.law
  tick := h.tick
  deadline := by
    show s.nextTick + pc.owed = _
    rw [howed]
    exact h.deadline
  due := hdue

/-- The dispatch of the timer. -/
theorem ThreadInv.dispatch {s : ThreadState} {us : UInt64} (h : ThreadInv s)
    (hpc : s.pc = .dispatch) (hc : onTime s (.run us) = true) :
    ThreadInv { s with
      pc := .advance false
      factory := timerEntry us s.factory
      dispatched := s.dispatched ++ [⟨s.now, (timerEntry us s.factory).tick⟩] } where
  law := by
    intro d hd
    rcases List.mem_append.mp hd with hold | hnew
    · exact h.law d hold
    · rw [List.mem_singleton.mp hnew]
      exact (tick_eq_iff h hpc us).mpr hc
  tick := by
    show (timerEntry us s.factory).tick.toNat
      = ((s.dispatched ++ [_]).length + s.strays) % 2 ^ 32
    rw [tick_timerEntry, toNat_succ, h.tick, List.length_append, List.length_singleton]
    omega
  deadline := by
    have hdeadline := h.deadline
    rw [hpc] at hdeadline
    change s.nextTick + 0 = _ at hdeadline
    have hnext : (s.dispatched.length + 1 + s.skipped + 1) * kTickNs
        = (s.dispatched.length + s.skipped + 1) * kTickNs + kTickNs := by
      rw [Nat.add_right_comm s.dispatched.length 1, Nat.succ_mul]
    simp only [owed_advance, List.length_append, List.length_singleton]
    omega
  due := by
    intro hpc
    cases hpc

/-- One deadline further: the first time it is that of the dispatch, and then one is skipped. -/
theorem ThreadInv.advance {s : ThreadState} {again : Bool} (h : ThreadInv s)
    (hpc : s.pc = .advance again) :
    ThreadInv { s with
      pc := .advanced
      nextTick := s.nextTick + kTickNs
      skipped := if again then s.skipped + 1 else s.skipped } where
  law := h.law
  tick := h.tick
  deadline := by
    have hdeadline := h.deadline
    rw [hpc] at hdeadline
    show s.nextTick + kTickNs + 0
      = (s.dispatched.length + (if again then s.skipped + 1 else s.skipped) + 1) * kTickNs
    cases again with
    | false =>
      change s.nextTick + kTickNs = _ at hdeadline
      simp only [Bool.false_eq_true, if_false]
      omega
    | true =>
      change s.nextTick + 0 = _ at hdeadline
      simp only [if_true]
      have hnext : (s.dispatched.length + (s.skipped + 1) + 1) * kTickNs
          = (s.dispatched.length + s.skipped + 1) * kTickNs + kTickNs := Nat.succ_mul _ _
      omega
  due := by
    intro hpc
    cases hpc

/-- A message of the mailbox. -/
theorem ThreadInv.handle {s : ThreadState} {us : UInt64} {msg : MailMsg} (h : ThreadInv s)
    (hpc : s.pc = .handle msg) :
    ThreadInv { s with
      pc := .head
      factory := dataThreadStep us s.factory msg
      strays := if msg.msgId == msgIdTimer then s.strays + 1 else s.strays } where
  law := h.law
  tick := by
    show (dataThreadStep us s.factory msg).tick.toNat
      = (s.dispatched.length + if msg.msgId == msgIdTimer then s.strays + 1 else s.strays)
        % 2 ^ 32
    rw [tick_dataThreadStep]
    split
    · rw [toNat_succ, h.tick]
      omega
    · exact h.tick
  deadline := by
    have hdeadline := h.deadline
    rw [hpc] at hdeadline
    exact hdeadline
  due := by
    intro hpc
    cases hpc

theorem run_inv {s t : ThreadState} {us : UInt64} (h : ThreadInv s)
    (hstep : threadRun us s = some t) (hc : onTime s (.run us) = true) : ThreadInv t := by
  unfold threadRun at hstep
  split at hstep
  · -- head
    rename_i hpc
    cases hstep
    refine h.goTo ?_ ?_
    · rw [hpc]
      cases s.stop <;> rfl
    · cases s.stop <;> (intro hpc; cases hpc)
  · -- check
    rename_i hpc
    cases hstep
    refine h.goTo ?_ ?_
    · rw [hpc]
      split <;> rfl
    · split
      · exact fun _ => ‹_›
      · intro hpc
        cases hpc
  · -- dispatch
    rename_i hpc
    cases hstep
    exact h.dispatch hpc hc
  · -- one deadline further
    rename_i again hpc
    cases hstep
    exact h.advance hpc
  · -- the test of the catch-up loop
    rename_i hpc
    cases hstep
    refine h.goTo ?_ ?_
    · rw [hpc]
      split <;> rfl
    · split <;> (intro hpc; cases hpc)
  · -- wait
    rename_i hpc
    split at hstep
    · split at hstep
      · cases hstep
        exact h.goTo (by rw [hpc]; rfl) (by intro hpc; cases hpc)
      · cases hstep
    · cases hstep
      exact h.goTo (by rw [hpc]; rfl) (by intro hpc; cases hpc)
  · -- a message
    rename_i msg hpc
    cases hstep
    exact h.handle hpc
  · cases hstep

theorem threadStep_inv {s t : ThreadState} {a : Act} (h : ThreadInv s)
    (hstep : threadStep s a = some t) (hc : onTime s a = true) : ThreadInv t := by
  cases a with
  | pass ns =>
    cases hstep
    exact ⟨h.law, h.tick, h.deadline, fun hpc => (h.due hpc).trans (Nat.le_add_right _ _)⟩
  | arrive msg =>
    cases hstep
    exact ⟨h.law, h.tick, h.deadline, h.due⟩
  | requestStop =>
    cases hstep
    exact ⟨h.law, h.tick, h.deadline, h.due⟩
  | run us => exact run_inv h hstep hc

/-- A step behind which the count is the time was on time. -/
theorem onTime_of_ticksAreTime {s t : ThreadState} {a : Act} (h : ThreadInv s)
    (hstep : threadStep s a = some t) (hlaw : TicksAreTime t) : onTime s a = true := by
  cases a with
  | pass ns => rfl
  | arrive msg => rfl
  | requestStop => rfl
  | run us =>
    by_cases hpc : s.pc = .dispatch
    · have hrun : threadRun us s = some t := hstep
      unfold threadRun at hrun
      rw [hpc] at hrun
      cases hrun
      exact (tick_eq_iff h hpc us).mp (hlaw ⟨s.now, _⟩ (List.mem_append_right _ List.mem_cons_self))
    · simp only [onTime]

/--
**Ticks are time.** Behind every dispatch of the run `m_tick` is the number of whole periods since
the start if and only if at every dispatch the deadlines that were not dispatched are as many as the
timer messages of the mailbox, and the periods can be counted in 32 bits.
-/
theorem ticks_iff (alloc : Nat → Nat) (mem : Mem) (reg : ExtractorRegistry) (bypass : Bypass)
    (warnUs alarmUs : UInt64) (as : List Act) :
    AllStates threadStep TicksAreTime
        (ThreadState.init (DataFactory.assemble alloc mem reg bypass warnUs alarmUs)) as ↔
      AllSteps threadStep (fun s a => onTime s a = true)
        (ThreadState.init (DataFactory.assemble alloc mem reg bypass warnUs alarmUs)) as :=
  allStates_iff_allSteps ThreadInv (fun _ h => h.law)
    (fun _ _ _ h hstep hc => threadStep_inv h hstep hc)
    (fun _ _ _ h hstep hlaw => onTime_of_ticksAreTime h hstep hlaw) as _
    (threadInv_init _ rfl)

/-- A message without a handler that takes 350 ms, and then the timer. -/
def slowMessage : List Act :=
  [.arrive ⟨1, none, none⟩, .run 0, .run 0, .run 0, .pass 350000000, .run 0, .run 0, .run 0, .run 0]

/-- The dispatch after 350 ms is the first one: the count is 1, and three periods have passed. -/
theorem ticks_fail_slow_message :
    ((exec threadStep (ThreadState.init
        (DataFactory.assemble (fun _ => 0) (fun _ => 0) [] .FULL 0 0)) slowMessage).map
        fun s => s.dispatched) = some [⟨350000000, 1⟩] ∧
      ¬ AllStates threadStep TicksAreTime (ThreadState.init
        (DataFactory.assemble (fun _ => 0) (fun _ => 0) [] .FULL 0 0)) slowMessage := by
  have hrun : ((exec threadStep (ThreadState.init
      (DataFactory.assemble (fun _ => 0) (fun _ => 0) [] .FULL 0 0)) slowMessage).map
        fun s => s.dispatched) = some [⟨350000000, 1⟩] := by decide
  refine ⟨hrun, ?_⟩
  intro h
  obtain ⟨s, hs, hdispatched⟩ := Option.map_eq_some_iff.mp hrun
  have hlaw := h.last hs ⟨350000000, 1⟩
  rw [hdispatched] at hlaw
  have htick := hlaw List.mem_cons_self
  revert htick
  decide

end Dts.Thread
