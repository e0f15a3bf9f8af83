import Dts.Thread.ThreadRun

/-!
# The thread loop for any callback

`ThreadRun` and `Mailbox`, for an arbitrary entry callback. Time passes, messages arrive and a stop
is requested between any two steps of the loop, and every step that reads the clock gets its own
reading. A call of the callback takes as long as the clock moves on before the next step.

* `TickLaw` — the tick grid, and what a full mailbox can do to it
* `tickLaw_of_run` — it holds in every state of every run
* `Follows` — the loop of the data thread is the loop for the callback of that thread
* `exists_tickLaw_of_thread` — so the data thread keeps the law
-/

namespace Dts.Thread

open Infra Routing

/-! ## The loop -/

def msgIdStatus : UInt32 := 0x0000

/-- `ThreadStatus::IDLE`. -/
def statusIdle : UInt8 := 0

/-- `sizeof(StatusMsg)`: the status, and three bytes that are reserved. -/
def sizeofStatusMsg : ℕ := 4

/-- The arguments of a call of the callback. -/
structure EntryCall where
  status : UInt8
  sessionInst : CStr
  msgId : UInt32
  msg : Option Bytes
  len : UInt32

/-- A call that the loop makes at a deadline: in which turn, for which deadline, and when. -/
structure TimerCall where
  turn : ℕ
  deadline : ℕ
  clock : ℕ
  deriving DecidableEq

/--
The thread with the state `world` of its callback. The last five fields are the history: the turns
begun, the values that `nextTick` has had, the last clock reading that ended the catch-up loop, the
calls at deadlines, and the calls for messages of the mailbox, whatever their id.
-/
structure LoopState (σ : Type*) where
  pc : Pc
  now : ℕ
  nextTick : ℕ
  stop : Bool
  status : UInt8
  mailbox : List MailMsg
  world : σ
  turn : ℕ
  deadlines : List ℕ
  caughtUp : Option ℕ
  timers : List TimerCall
  messages : List EntryCall

variable {σ : Type*}

/-- The loop starts when the clock shows `t0`. -/
def LoopState.init (t0 : ℕ) (world : σ) : LoopState σ where
  pc := .head
  now := t0
  nextTick := t0 + kTickNs
  stop := false
  status := statusIdle
  mailbox := []
  world := world
  turn := 0
  deadlines := [t0 + kTickNs]
  caughtUp := none
  timers := []
  messages := []

/-- A status message of full length sets the status of the thread. -/
def statusAfter (msg : MailMsg) (status : UInt8) : UInt8 :=
  match msg.payload with
  | none => status
  | some bs =>
    if msg.msgId == msgIdStatus && decide (sizeofStatusMsg ≤ bs.length) then bs.getD 0 0 else status

def timerCall (status : UInt8) : EntryCall := ⟨status, none, msgIdTimer, none, 0⟩

/-- The call for a message. An empty payload is handed over as `nullptr`. -/
def messageCall (status : UInt8) (msg : MailMsg) : EntryCall where
  status := status
  sessionInst := msg.sessionInst
  msgId := msg.msgId
  msg := msg.payload.filter fun bs => !bs.isEmpty
  len := UInt32.ofNat (msg.payload.getD []).length

/-- The next step of the loop; `none` while it waits. `us` is what the callback measures itself. -/
def loopRun (entry : UInt64 → EntryCall → σ → σ) (us : UInt64) (s : LoopState σ) :
    Option (LoopState σ) :=
  match s.pc with
  | .head =>
    if s.stop then some { s with pc := .stopped }
    else some { s with pc := .check, turn := s.turn + 1 }
  | .check => some { s with pc := if s.nextTick ≤ s.now then .dispatch else .wait }
  | .dispatch =>
    some { s with
      pc := .advance false
      world := entry us (timerCall s.status) s.world
      timers := s.timers ++ [⟨s.turn, s.nextTick, s.now⟩] }
  | .advance _ =>
    some { s with
      pc := .advanced
      nextTick := s.nextTick + kTickNs
      deadlines := s.deadlines ++ [s.nextTick + kTickNs] }
  | .advanced =>
    if s.nextTick ≤ s.now then some { s with pc := .advance true }
    else some { s with pc := .wait, caughtUp := some s.now }
  | .wait =>
    -- the end of `wait_until` and `TryPopLocked`, under one lock
    match s.mailbox with
    | [] => if s.stop || s.nextTick ≤ s.now then some { s with pc := .head } else none
    | msg :: rest => some { s with pc := .handle msg, mailbox := rest }
  | .handle msg =>
    let status := statusAfter msg s.status
    let call := messageCall status msg
    some { s with
      pc := .head
      status := status
      world := entry us call s.world
      messages := s.messages ++ [call] }
  | .stopped => none

def loopStep (entry : UInt64 → EntryCall → σ → σ) (s : LoopState σ) : Act → Option (LoopState σ)
  | .pass ns => some { s with now := s.now + ns }
  | .arrive msg => some { s with mailbox := s.mailbox ++ [msg] }
  | .requestStop => some { s with stop := true }
  | .run us => loopRun entry us s

/-! ## The law -/

/-- Outside the catch-up loop. -/
def Pc.settled : Pc → Bool
  | .advance _ => false
  | .advanced => false
  | _ => true

/-- The messages that are taken from the mailbox and not yet dispatched. -/
def Pc.popped : Pc → ℕ
  | .handle _ => 1
  | _ => 0

/-- With those that the wait under way still takes. -/
def Pc.underWay : Pc → ℕ
  | .wait => 1
  | .handle _ => 1
  | _ => 0

/-- The first `n` deadlines of a thread that started at `t0`. -/
def gridTo (t0 n : ℕ) : List ℕ := (List.range n).map fun k => t0 + (k + 1) * kTickNs

def Act.isOwn : Act → Bool
  | .run _ => true
  | _ => false

/-- The steps of the thread itself in a run. -/
def ownSteps (as : List Act) : ℕ := as.countP Act.isOwn

/-- In every continuation, at most `n` messages are dispatched before the next call at a deadline. -/
def DispatchesAtMost (entry : UInt64 → EntryCall → σ → σ) (s : LoopState σ) (n : ℕ) : Prop :=
  ∀ as t, exec (loopStep entry) s as = some t → t.timers = s.timers →
    t.messages.length ≤ s.messages.length + n

/-- **The ticks of a thread that started at `t0`.** -/
structure TickLaw (entry : UInt64 → EntryCall → σ → σ) (t0 : ℕ) (s : LoopState σ) : Prop where
  /-- `nextTick` has run through the grid, one deadline after the other -/
  grid : s.deadlines = gridTo t0 s.deadlines.length
  current : s.deadlines.getLast? = some s.nextTick
  /-- and lies behind the reading that ended the catch-up loop -/
  caughtUp : ∀ c, s.caughtUp = some c → c < s.nextTick
  /-- no call is early, and there is one at most in a turn and for a deadline -/
  due : ∀ c ∈ s.timers, c.deadline ≤ c.clock ∧ c.deadline ∈ s.deadlines
  once : s.timers.Pairwise fun a b => a.turn < b.turn ∧ a.deadline < b.deadline
  /-- when the clock has passed `nextTick`, at most one message comes before the call -/
  prompt : s.pc.settled = true → s.nextTick ≤ s.now → DispatchesAtMost entry s s.pc.underWay
  /-- which the thread makes within five steps of its own, none of which can block -/
  soon : s.pc.settled = true → s.nextTick ≤ s.now →
    ∀ as t, exec (loopStep entry) s as = some t → 5 ≤ ownSteps as →
      s.timers.length < t.timers.length ∨ t.pc = .stopped
  awake : s.pc.settled = true → s.nextTick ≤ s.now → s.pc = .stopped ∨
    ∀ us, (loopRun entry us s).isSome = true

/-! ## The invariant -/

/-- A turn that has begun and made no call yet. -/
def Pc.fresh : Pc → ℕ
  | .check => 1
  | .dispatch => 1
  | _ => 0

/-- How far `nextTick` lies behind the last call at least. -/
def Pc.ahead : Pc → ℕ
  | .advance false => 0
  | _ => 1

theorem gridTo_succ (t0 n : ℕ) : gridTo t0 (n + 1) = gridTo t0 n ++ [t0 + (n + 1) * kTickNs] := by
  rw [gridTo, gridTo, List.range_succ, List.map_append]
  rfl

theorem length_gridTo (t0 n : ℕ) : (gridTo t0 n).length = n := by
  rw [gridTo, List.length_map, List.length_range]

/-- Holds from the start of the loop on. -/
structure LoopInv (t0 : ℕ) (s : LoopState σ) : Prop where
  grid : ∃ n, s.deadlines = gridTo t0 n ++ [s.nextTick] ∧ s.nextTick = t0 + (n + 1) * kTickNs
  caughtUp : ∀ c, s.caughtUp = some c → c < s.nextTick
  due : ∀ c ∈ s.timers, c.deadline ≤ c.clock ∧ c.deadline ∈ s.deadlines
  once : s.timers.Pairwise fun a b => a.turn < b.turn ∧ a.deadline < b.deadline
  turns : ∀ c ∈ s.timers, c.turn + s.pc.fresh ≤ s.turn
  behind : ∀ c ∈ s.timers, c.deadline + s.pc.ahead ≤ s.nextTick
  onTime : s.pc = .dispatch → s.nextTick ≤ s.now

theorem loopInv_init (t0 : ℕ) (world : σ) : LoopInv t0 (LoopState.init t0 world) where
  grid := by
    refine ⟨0, rfl, ?_⟩
    rw [Nat.zero_add, Nat.one_mul]
    rfl
  caughtUp := fun _ h => by cases h
  due := fun _ h => absurd h List.not_mem_nil
  once := List.Pairwise.nil
  turns := fun _ h => absurd h List.not_mem_nil
  behind := fun _ h => absurd h List.not_mem_nil
  onTime := fun h => by cases h

section Steps

variable {entry : UInt64 → EntryCall → σ → σ} {t0 : ℕ} {s t : LoopState σ} {us : UInt64}

/-- A step that changes neither the deadlines nor the calls at them. -/
theorem LoopInv.goTo (h : LoopInv t0 s) {p : Pc} (hpc : s.pc = p)
    (hnext : t.nextTick = s.nextTick) (hdeadlines : t.deadlines = s.deadlines)
    (htimers : t.timers = s.timers) (hcaught : ∀ c, t.caughtUp = some c → c < s.nextTick)
    (hturns : s.turn + t.pc.fresh ≤ t.turn + p.fresh) (hahead : t.pc.ahead ≤ p.ahead)
    (honTime : t.pc = .dispatch → s.nextTick ≤ t.now) : LoopInv t0 t where
  grid := by
    rw [hnext, hdeadlines]
    exact h.grid
  caughtUp := by
    rw [hnext]
    exact hcaught
  due := by
    rw [htimers, hdeadlines]
    exact h.due
  once := by
    rw [htimers]
    exact h.once
  turns := by
    intro c hc
    rw [htimers] at hc
    have hle := h.turns c hc
    rw [hpc] at hle
    omega
  behind := by
    intro c hc
    rw [htimers] at hc
    have hle := h.behind c hc
    rw [hpc] at hle
    omega
  onTime := by
    rw [hnext]
    exact honTime

/-- The call at the deadline: the first one of its turn. -/
theorem LoopInv.dispatch (h : LoopInv t0 s) (hpc : s.pc = .dispatch) (world : σ) :
    LoopInv t0 { s with
      pc := .advance false
      world := world
      timers := s.timers ++ [⟨s.turn, s.nextTick, s.now⟩] } where
  grid := h.grid
  caughtUp := h.caughtUp
  due := by
    intro c hc
    rcases List.mem_append.mp hc with hold | hnew
    · exact h.due c hold
    · obtain ⟨n, hn, -⟩ := h.grid
      rw [List.mem_singleton.mp hnew, hn]
      exact ⟨h.onTime hpc, List.mem_append_right _ (List.mem_singleton_self _)⟩
  once := by
    refine List.pairwise_append.mpr ⟨h.once, List.pairwise_singleton _ _, ?_⟩
    intro a ha b hb
    rw [List.mem_singleton.mp hb]
    have hturn := h.turns a ha
    have hbehind := h.behind a ha
    rw [hpc] at hturn hbehind
    exact ⟨hturn, hbehind⟩
  turns := by
    intro c hc
    rcases List.mem_append.mp hc with hold | hnew
    · exact Nat.le_trans (Nat.le_add_right _ _) (h.turns c hold)
    · rw [List.mem_singleton.mp hnew]
      exact Nat.le_refl _
  behind := by
    intro c hc
    rcases List.mem_append.mp hc with hold | hnew
    · exact Nat.le_trans (Nat.le_add_right _ _) (h.behind c hold)
    · rw [List.mem_singleton.mp hnew]
      exact Nat.le_refl _
  onTime := fun hpc => by cases hpc

/-- One deadline further. -/
theorem LoopInv.advance (h : LoopInv t0 s) (hfresh : s.pc.fresh = 0) :
    LoopInv t0 { s with
      pc := .advanced
      nextTick := s.nextTick + kTickNs
      deadlines := s.deadlines ++ [s.nextTick + kTickNs] } where
  grid := by
    obtain ⟨n, hn, hnext⟩ := h.grid
    refine ⟨n + 1, ?_, ?_⟩
    · rw [gridTo_succ, ← hnext, hn]
    · show s.nextTick + kTickNs = _
      rw [hnext, Nat.succ_mul (n + 1)]
      omega
  caughtUp := fun c hc => Nat.lt_of_lt_of_le (h.caughtUp c hc) (Nat.le_add_right _ _)
  due := fun c hc => ⟨(h.due c hc).1, List.mem_append_left _ (h.due c hc).2⟩
  once := h.once
  turns := by
    intro c hc
    have := h.turns c hc
    rw [hfresh] at this
    exact this
  behind := by
    intro c hc
    have hle := h.behind c hc
    have hpos : 0 < kTickNs := by decide
    show c.deadline + 1 ≤ s.nextTick + kTickNs
    omega
  onTime := fun hpc => by cases hpc

theorem loopRun_inv (h : LoopInv t0 s) (hstep : loopRun entry us s = some t) : LoopInv t0 t := by
  unfold loopRun at hstep
  split at hstep
  · -- head: a turn begins, or the loop ends
    rename_i hpc
    split at hstep
    · cases hstep
      exact h.goTo hpc rfl rfl rfl h.caughtUp (Nat.le_refl _) (Nat.le_refl _)
        fun hpc => by cases hpc
    · cases hstep
      exact h.goTo hpc rfl rfl rfl h.caughtUp (Nat.le_refl _) (Nat.le_refl _)
        fun hpc => by cases hpc
  · -- the test of the deadline
    rename_i hpc
    cases hstep
    by_cases hdue : s.nextTick ≤ s.now
    · rw [if_pos hdue]
      exact h.goTo hpc rfl rfl rfl h.caughtUp (Nat.le_refl _) (Nat.le_refl _) fun _ => hdue
    · rw [if_neg hdue]
      exact h.goTo hpc rfl rfl rfl h.caughtUp (Nat.le_succ _) (Nat.le_refl _)
        fun hpc => by cases hpc
  · -- the call at the deadline
    rename_i hpc
    cases hstep
    exact h.dispatch hpc _
  · -- one deadline further
    rename_i again hpc
    cases hstep
    exact h.advance (by rw [hpc]; rfl)
  · -- the test of the catch-up loop
    rename_i hpc
    split at hstep
    · cases hstep
      exact h.goTo hpc rfl rfl rfl h.caughtUp (Nat.le_refl _) (Nat.le_refl _)
        fun hpc => by cases hpc
    · rename_i hahead
      cases hstep
      refine h.goTo hpc rfl rfl rfl ?_ (Nat.le_refl _) (Nat.le_refl _) fun hpc => by cases hpc
      intro c hc
      cases hc
      exact Nat.lt_of_not_le hahead
  · -- the wait ends at the deadline or a stop, or takes a message
    rename_i hpc
    split at hstep
    · split at hstep
      · cases hstep
        exact h.goTo hpc rfl rfl rfl h.caughtUp (Nat.le_refl _) (Nat.le_refl _)
          fun hpc => by cases hpc
      · cases hstep
    · cases hstep
      exact h.goTo hpc rfl rfl rfl h.caughtUp (Nat.le_refl _) (Nat.le_refl _)
        fun hpc => by cases hpc
  · -- a message
    rename_i msg hpc
    cases hstep
    exact h.goTo hpc rfl rfl rfl h.caughtUp (Nat.le_refl _) (Nat.le_refl _)
      fun hpc => by cases hpc
  · cases hstep

theorem loopStep_inv {a : Act} (h : LoopInv t0 s) (hstep : loopStep entry s a = some t) :
    LoopInv t0 t := by
  cases a with
  | pass ns =>
    cases hstep
    exact h.goTo rfl rfl rfl rfl h.caughtUp (Nat.le_refl _) (Nat.le_refl _)
      fun hpc => Nat.le_trans (h.onTime hpc) (Nat.le_add_right _ _)
  | arrive msg =>
    cases hstep
    exact h.goTo rfl rfl rfl rfl h.caughtUp (Nat.le_refl _) (Nat.le_refl _) h.onTime
  | requestStop =>
    cases hstep
    exact h.goTo rfl rfl rfl rfl h.caughtUp (Nat.le_refl _) (Nat.le_refl _) h.onTime
  | run us => exact loopRun_inv h hstep

/-! ## After the clock has passed `nextTick` -/

/-- The steps to the call at the deadline at most. -/
def Pc.toTimer : Pc → ℕ
  | .wait => 5
  | .handle _ => 4
  | .head => 3
  | .check => 2
  | .dispatch => 1
  | _ => 0

theorem Pc.eq_stopped {pc : Pc} (hsettled : pc.settled = true) (hnone : pc.toTimer = 0) :
    pc = .stopped := by
  cases pc with
  | stopped => rfl
  | advance again => cases hsettled
  | advanced => cases hsettled
  | head => cases hnone
  | check => cases hnone
  | dispatch => cases hnone
  | wait => cases hnone
  | handle msg => cases hnone

/-- The clock has passed `nextTick`, up to `b` messages come before the call, and up to `n` steps. -/
structure Late (b n : ℕ) (s : LoopState σ) : Prop where
  settled : s.pc.settled = true
  passed : s.nextTick ≤ s.now
  messages : s.messages.length + s.pc.underWay ≤ b
  steps : s.pc.toTimer ≤ n

theorem late_self (hsettled : s.pc.settled = true) (hpassed : s.nextTick ≤ s.now) :
    Late (s.messages.length + s.pc.underWay) 5 s := by
  refine ⟨hsettled, hpassed, Nat.le_refl _, ?_⟩
  cases s.pc <;> simp [Pc.toTimer]

/-- **A step towards the call.** -/
theorem Late.run {b n : ℕ} (h : Late b n s) (hstep : loopRun entry us s = some t) :
    s.timers.length < t.timers.length ∨ t.timers = s.timers ∧ Late b (n - 1) t := by
  obtain ⟨hsettled, hpassed, hmessages, hsteps⟩ := h
  unfold loopRun at hstep
  split at hstep
  · rename_i hpc
    rw [hpc] at hmessages hsteps
    change 3 ≤ n at hsteps
    split at hstep
    · cases hstep
      exact Or.inr ⟨rfl, rfl, hpassed, hmessages, Nat.zero_le _⟩
    · cases hstep
      exact Or.inr ⟨rfl, rfl, hpassed, hmessages, (by omega : 2 ≤ n - 1)⟩
  · -- the reading is not before `nextTick`
    rename_i hpc
    rw [hpc] at hmessages hsteps
    change 2 ≤ n at hsteps
    rw [if_pos hpassed] at hstep
    cases hstep
    exact Or.inr ⟨rfl, rfl, hpassed, hmessages, (by omega : 1 ≤ n - 1)⟩
  · cases hstep
    left
    show s.timers.length < (s.timers ++ [_]).length
    rw [List.length_append, List.length_singleton]
    exact Nat.lt_succ_self _
  · rename_i again hpc
    rw [hpc] at hsettled
    cases hsettled
  · rename_i hpc
    rw [hpc] at hsettled
    cases hsettled
  · -- the wait does not block, and takes one message at most
    rename_i hpc
    rw [hpc] at hmessages hsteps
    change 5 ≤ n at hsteps
    split at hstep
    · split at hstep
      · cases hstep
        exact Or.inr ⟨rfl, rfl, hpassed, Nat.le_of_succ_le hmessages, (by omega : 3 ≤ n - 1)⟩
      · cases hstep
    · cases hstep
      exact Or.inr ⟨rfl, rfl, hpassed, hmessages, (by omega : 4 ≤ n - 1)⟩
  · rename_i msg hpc
    rw [hpc] at hmessages hsteps
    change 4 ≤ n at hsteps
    cases hstep
    refine Or.inr ⟨rfl, rfl, hpassed, ?_, (by omega : 3 ≤ n - 1)⟩
    show (s.messages ++ [_]).length + 0 ≤ b
    rw [List.length_append, List.length_singleton]
    exact hmessages
  · cases hstep

/-- Calls at deadlines are never taken back. -/
theorem timers_le_of_loopRun (hstep : loopRun entry us s = some t) :
    s.timers.length ≤ t.timers.length := by
  unfold loopRun at hstep
  split at hstep
  · split at hstep
    · cases hstep
      exact Nat.le_refl _
    · cases hstep
      exact Nat.le_refl _
  · cases hstep
    exact Nat.le_refl _
  · -- the one step that makes such a call
    cases hstep
    show s.timers.length ≤ (s.timers ++ [_]).length
    rw [List.length_append]
    exact Nat.le_add_right _ _
  · cases hstep
    exact Nat.le_refl _
  · split at hstep
    · cases hstep
      exact Nat.le_refl _
    · cases hstep
      exact Nat.le_refl _
  · split at hstep
    · split at hstep
      · cases hstep
        exact Nat.le_refl _
      · cases hstep
    · cases hstep
      exact Nat.le_refl _
  · cases hstep
    exact Nat.le_refl _
  · cases hstep

theorem timers_le_of_loopStep (s : LoopState σ) (a : Act) (t : LoopState σ)
    (hstep : loopStep entry s a = some t) : s.timers.length ≤ t.timers.length := by
  cases a with
  | run us => exact timers_le_of_loopRun hstep
  | pass ns =>
    cases hstep
    exact Nat.le_refl _
  | arrive msg =>
    cases hstep
    exact Nat.le_refl _
  | requestStop =>
    cases hstep
    exact Nat.le_refl _

/-- **What a run does** after the clock has passed `nextTick`, until the call at the deadline. -/
theorem Late.exec {b : ℕ} : ∀ {as : List Act} {s t : LoopState σ} {n : ℕ}, Late b n s →
    exec (loopStep entry) s as = some t →
    s.timers.length < t.timers.length ∨ Late b (n - ownSteps as) t
  | [], s, t, n, h, hexec => by
    cases hexec
    exact Or.inr h
  | a :: as, s, t, n, h, hexec => by
    rw [exec_cons, Option.bind_eq_some_iff] at hexec
    obtain ⟨u, hu, hrest⟩ := hexec
    have hmono : u.timers.length ≤ t.timers.length := exec_mono _ timers_le_of_loopStep hrest
    -- the other acts leave the thread where it is
    have hother : a.isOwn = false → Late b n u → u.timers = s.timers →
        s.timers.length < t.timers.length ∨ Late b (n - ownSteps (a :: as)) t := by
      intro hown hu heq
      have hsteps : ownSteps (a :: as) = ownSteps as := List.countP_cons_of_neg (by simp [hown])
      rw [hsteps, ← heq]
      exact hu.exec hrest
    cases a with
    | pass ns =>
      cases hu
      exact hother rfl ⟨h.settled, Nat.le_trans h.passed (Nat.le_add_right _ _), h.messages,
        h.steps⟩ rfl
    | arrive msg =>
      cases hu
      exact hother rfl ⟨h.settled, h.passed, h.messages, h.steps⟩ rfl
    | requestStop =>
      cases hu
      exact hother rfl ⟨h.settled, h.passed, h.messages, h.steps⟩ rfl
    | run us =>
      rcases h.run hu with hcall | ⟨heq, hu⟩
      · exact Or.inl (Nat.lt_of_lt_of_le hcall hmono)
      · have hsteps : ownSteps (.run us :: as) = ownSteps as + 1 := List.countP_cons_of_pos rfl
        rw [hsteps, ← heq, Nat.add_comm, Nat.sub_add_eq]
        exact hu.exec hrest

theorem Late.awake {b n : ℕ} (h : Late b n s) :
    s.pc = .stopped ∨ ∀ us, (loopRun entry us s).isSome = true := by
  have hsettled := h.settled
  cases hpc : s.pc with
  | stopped => exact Or.inl rfl
  | wait =>
    right
    intro us
    simp only [loopRun, hpc]
    cases s.mailbox with
    | nil => simp [h.passed]
    | cons msg rest => rfl
  | head =>
    right
    intro us
    simp only [loopRun, hpc]
    split <;> rfl
  | check => exact Or.inr fun us => by simp only [loopRun, hpc, Option.isSome_some]
  | dispatch => exact Or.inr fun us => by simp only [loopRun, hpc, Option.isSome_some]
  | handle msg => exact Or.inr fun us => by simp only [loopRun, hpc, Option.isSome_some]
  | advance again =>
    rw [hpc] at hsettled
    cases hsettled
  | advanced =>
    rw [hpc] at hsettled
    cases hsettled

theorem tickLaw_of_inv (h : LoopInv t0 s) : TickLaw entry t0 s := by
  obtain ⟨n, hn, hnext⟩ := h.grid
  constructor
  case grid =>
    have hlen : s.deadlines.length = n + 1 := by
      rw [hn, List.length_append, length_gridTo, List.length_singleton]
    rw [hlen, gridTo_succ, ← hnext, hn]
  case current => rw [hn, List.getLast?_concat]
  case caughtUp => exact h.caughtUp
  case due => exact h.due
  case once => exact h.once
  case prompt =>
    intro hsettled hpassed as t hexec htimers
    rcases (late_self hsettled hpassed).exec hexec with hcall | hlate
    · rw [htimers] at hcall
      exact absurd hcall (Nat.lt_irrefl _)
    · exact Nat.le_trans (Nat.le_add_right _ _) hlate.messages
  case soon =>
    intro hsettled hpassed as t hexec hown
    rcases (late_self hsettled hpassed).exec hexec with hcall | hlate
    · exact Or.inl hcall
    · -- no step is left, and outside the catch-up loop only the end of the loop has none to go
      right
      have hzero : t.pc.toTimer ≤ 0 := Nat.le_trans hlate.steps (by omega)
      exact Pc.eq_stopped hlate.settled (Nat.le_zero.mp hzero)
  case awake => exact fun hsettled hpassed => (late_self hsettled hpassed).awake

end Steps

/-! ## Runs -/

/--
**The tick under load.** In every run, whatever the callback does, the clock shows and the mailbox
holds, the ticks keep to the grid, and a call at a deadline waits for one message at most.
-/
theorem tickLaw_of_run (entry : UInt64 → EntryCall → σ → σ) (t0 : ℕ) (world : σ) (as : List Act) :
    AllStates (loopStep entry) (TickLaw entry t0) (LoopState.init t0 world) as := by
  refine (allStates_iff_prefixes as _).mpr ?_
  intro pre _ t ht
  have hstart := loopInv_init t0 world
  exact tickLaw_of_inv (Reachable.invariant ⟨pre, ht⟩ hstart fun _ _ _ => loopStep_inv)

/-- A callback that does nothing. -/
def noEntry : UInt64 → EntryCall → Unit → Unit := fun _ _ world => world

/-- The thread waits on an empty mailbox until the deadline. -/
def waitsToDeadline : List Act := [.run 0, .run 0, .pass kTickNs]

/-- The call at the first deadline takes 150 ms, and `nextTick` moves on for the first time. -/
def callTakesLong : List Act :=
  waitsToDeadline ++ [.run 0, .run 0, .run 0, .run 0, .pass 150000000, .run 0]

/-- Two messages, which the thread takes after it has left the catch-up loop. -/
def twoMessages : List Act :=
  [.run 0, .run 0, .run 0, .arrive ⟨1, none, none⟩, .arrive ⟨1, none, none⟩, .run 0, .run 0, .run 0,
    .run 0, .run 0, .run 0]

/-- There, 150 ms after the deadline at 100 ms: the deadline at 200 ms is about to be stepped over. -/
def stepsOver : LoopState Unit where
  pc := .advanced
  now := 250000000
  nextTick := 200000000
  stop := false
  status := statusIdle
  mailbox := []
  world := ()
  turn := 2
  deadlines := [100000000, 200000000]
  caughtUp := none
  timers := [⟨2, 100000000, 100000000⟩]
  messages := []

/--
The clock has passed `nextTick`, no message is popped, and the wait still takes one that arrives
now; inside the catch-up loop `nextTick` can be a deadline that is stepped over, and then any number
of messages comes before the next call.
-/
theorem not_dispatchesAtMost_popped :
    (¬ AllStates (loopStep noEntry)
        (fun s => s.nextTick ≤ s.now → DispatchesAtMost noEntry s s.pc.popped)
        (LoopState.init 0 ()) waitsToDeadline) ∧
      ¬ AllStates (loopStep noEntry)
        (fun s => s.nextTick ≤ s.now → DispatchesAtMost noEntry s 1)
        (LoopState.init 0 ()) callTakesLong := by
  constructor
  · intro h
    have hlaw := h.last rfl (by decide) [.arrive ⟨1, none, none⟩, .run 0, .run 0] _ rfl rfl
    revert hlaw
    decide
  · intro h
    have hrun : exec (loopStep noEntry) (LoopState.init 0 ()) callTakesLong = some stepsOver := rfl
    have hmore : (exec (loopStep noEntry) stepsOver twoMessages).map
        (fun t => (t.timers, t.messages.length)) = some (stepsOver.timers, 2) := by decide
    obtain ⟨t, ht, hend⟩ := Option.map_eq_some_iff.mp hmore
    obtain ⟨htimers, hmessages⟩ := Prod.mk.inj hend
    have hlaw := h.last hrun (by decide) twoMessages t ht htimers
    rw [hmessages] at hlaw
    revert hlaw
    decide

/-! ## The data thread -/

open Data

/-- The callback of the data thread. -/
def dataEntry (us : UInt64) (call : EntryCall) (f : DataFactory) : DataFactory :=
  (dataMsgHandlerDispatch kDataGroups call.sessionInst call.msgId call.msg call.len).foldl
    (runData us) f

/-- The clock of the data thread counts from its first reading `t0`. -/
structure Follows (t0 : ℕ) (s : ThreadState) (l : LoopState DataFactory) : Prop where
  pc : l.pc = s.pc
  now : l.now = t0 + s.now
  nextTick : l.nextTick = t0 + s.nextTick
  stop : l.stop = s.stop
  mailbox : l.mailbox = s.mailbox
  world : l.world = s.factory
  timers : l.timers.map TimerCall.clock = s.dispatched.map fun d => t0 + d.clock

theorem follows_init (t0 : ℕ) (f : DataFactory) :
    Follows t0 (ThreadState.init f) (LoopState.init t0 f) :=
  ⟨rfl, rfl, rfl, rfl, rfl, rfl, rfl⟩

theorem follows_run {t0 : ℕ} {s s' : ThreadState} {l : LoopState DataFactory} {us : UInt64}
    (h : Follows t0 s l) (hstep : threadRun us s = some s') :
    ∃ l', loopRun dataEntry us l = some l' ∧ Follows t0 s' l' := by
  obtain ⟨hpc, hnow, hnext, hstop, hmailbox, hworld, htimers⟩ := h
  have hpassed : l.nextTick ≤ l.now ↔ s.nextTick ≤ s.now := by
    rw [hnow, hnext, Nat.add_le_add_iff_left]
  unfold threadRun at hstep
  split at hstep
  · rename_i hs
    cases hstep
    rw [hs] at hpc
    simp only [loopRun, hpc]
    rw [hstop]
    cases s.stop with
    | true => exact ⟨_, rfl, rfl, hnow, hnext, rfl, hmailbox, hworld, htimers⟩
    | false => exact ⟨_, rfl, rfl, hnow, hnext, rfl, hmailbox, hworld, htimers⟩
  · rename_i hs
    cases hstep
    rw [hs] at hpc
    simp only [loopRun, hpc]
    refine ⟨_, rfl, ?_, hnow, hnext, hstop, hmailbox, hworld, htimers⟩
    simp only [hpassed]
  · rename_i hs
    cases hstep
    rw [hs] at hpc
    simp only [loopRun, hpc]
    refine ⟨_, rfl, rfl, hnow, hnext, hstop, hmailbox, ?_, ?_⟩
    · rw [hworld]
      rfl
    · rw [List.map_append, List.map_append, htimers, hnow]
      rfl
  · rename_i again hs
    cases hstep
    rw [hs] at hpc
    simp only [loopRun, hpc]
    refine ⟨_, rfl, rfl, hnow, ?_, hstop, hmailbox, hworld, htimers⟩
    show l.nextTick + kTickNs = t0 + (s.nextTick + kTickNs)
    omega
  · rename_i hs
    cases hstep
    rw [hs] at hpc
    simp only [loopRun, hpc]
    by_cases hle : s.nextTick ≤ s.now
    · rw [if_pos (hpassed.mpr hle), if_pos hle]
      exact ⟨_, rfl, rfl, hnow, hnext, hstop, hmailbox, hworld, htimers⟩
    · rw [if_neg (fun hl => hle (hpassed.mp hl)), if_neg hle]
      exact ⟨_, rfl, rfl, hnow, hnext, hstop, hmailbox, hworld, htimers⟩
  · rename_i hs
    rw [hs] at hpc
    simp only [loopRun, hpc]
    rw [hmailbox]
    cases hmail : s.mailbox with
    | nil =>
      simp only [hmail] at hstep ⊢
      split at hstep
      · rename_i hwake
        cases hstep
        have hwake' : (l.stop || decide (l.nextTick ≤ l.now)) = true := by
          rw [hstop]
          simpa only [hpassed] using hwake
        rw [if_pos hwake']
        exact ⟨_, rfl, rfl, hnow, hnext, hstop, rfl, hworld, htimers⟩
      · cases hstep
    | cons msg rest =>
      simp only [hmail] at hstep ⊢
      cases hstep
      exact ⟨_, rfl, rfl, hnow, hnext, hstop, rfl, hworld, htimers⟩
  · rename_i msg hs
    cases hstep
    rw [hs] at hpc
    simp only [loopRun, hpc]
    refine ⟨_, rfl, rfl, hnow, hnext, hstop, hmailbox, ?_, htimers⟩
    rw [hworld]
    rfl
  · cases hstep

theorem follows_step {t0 : ℕ} (s : ThreadState) (l : LoopState DataFactory) (a : Act)
    (s' : ThreadState) (h : Follows t0 s l) (hstep : threadStep s a = some s') :
    ∃ l', loopStep dataEntry l a = some l' ∧ Follows t0 s' l' := by
  cases a with
  | pass ns =>
    cases hstep
    refine ⟨_, rfl, h.pc, ?_, h.nextTick, h.stop, h.mailbox, h.world, h.timers⟩
    show l.now + ns = t0 + (s.now + ns)
    rw [h.now, Nat.add_assoc]
  | arrive msg =>
    cases hstep
    refine ⟨_, rfl, h.pc, h.now, h.nextTick, h.stop, ?_, h.world, h.timers⟩
    rw [h.mailbox]
  | requestStop =>
    cases hstep
    exact ⟨_, rfl, h.pc, h.now, h.nextTick, rfl, h.mailbox, h.world, h.timers⟩
  | run us => exact follows_run h hstep

/-- **The data thread keeps the law**: its runs are runs of the loop. -/
theorem exists_tickLaw_of_thread (t0 : ℕ) {f : DataFactory} {as : List Act} {s : ThreadState}
    (h : exec threadStep (ThreadState.init f) as = some s) :
    ∃ l, Follows t0 s l ∧ TickLaw dataEntry t0 l := by
  obtain ⟨l, hl, hfollows⟩ := exec_simulation (Follows t0) follows_step (follows_init t0 f) h
  have hstart := loopInv_init t0 f
  exact ⟨l, hfollows, tickLaw_of_inv
    (Reachable.invariant ⟨as, hl⟩ hstart fun _ _ _ => loopStep_inv)⟩

end Dts.Thread
