import Mathlib.Logic.Function.Basic
import Dts.Infra.Monitor
import Dts.Thread.Loop

/-!
# The mailbox, instruction by instruction

`Dts.Thread.Loop` takes the wait for a message as one step. Here `ThreadRun` takes the lock, tests
the predicate of `wait_until`, sleeps, reads the clock behind the sleep and pops, and any number of
threads are anywhere inside `Send` and `RequestStop` at the same time.

* `exists_loop_run` — every run of this system is a run of the loop
* `mailboxLaw_of_run` — so the ticks keep their law; and every message that was sent is handled
  once, in the order of the pushes, and never waits for a thread that sleeps for good
-/

namespace Dts.Thread

open Infra Routing

/-! ## The system -/

/-- What the thread with the mutex does next: test the predicate, read the clock, or pop. -/
inductive Stage where
  | test
  | clock
  | pop
  deriving DecidableEq

/-- Where a thread is that sends or stops. -/
inductive Caller where
  | idle
  /-- `Send`: before the lock, with the lock, behind the push, and behind the unlock -/
  | lock (msg : MailMsg)
  | push (msg : MailMsg)
  | unlock
  | notifyOne
  /-- `RequestStop`: the flag is stored -/
  | notifyAll

/--
The thread inside `wait_until` has a waiter that is not `out`. The last three fields are the history:
the calls of `Send`, the pushes, each with its thread, and the messages that the loop has handled.
-/
structure MailState (σ : Type*) where
  loop : LoopState σ
  mon : Monitor ℕ
  stage : Stage
  callers : ℕ → Caller
  calls : List (ℕ × MailMsg)
  pushed : List (ℕ × MailMsg)
  handled : List MailMsg

variable {σ : Type*}

def MailState.init (t0 : ℕ) (world : σ) : MailState σ where
  loop := LoopState.init t0 world
  mon := Monitor.init
  stage := .test
  callers := fun _ => .idle
  calls := []
  pushed := []
  handled := []

/-- The message that is taken from the mailbox and not handled yet. -/
def Pc.inHand : Pc → List MailMsg
  | .handle msg => [msg]
  | _ => []

/-- `wait_until(lk, nextTick, pred)`, `TryPopLocked` and the end of the lock. -/
def waitRun (s : MailState σ) : Option (MailState σ) :=
  match s.mon.waiter with
  | .out => if s.mon.owner.isNone then some { s with mon := s.mon.acquire, stage := .test } else none
  | .holding =>
    match s.stage with
    | .test =>
      if !s.loop.mailbox.isEmpty || s.loop.stop then some { s with stage := .pop }
      else some { s with mon := s.mon.decide }
    | .clock =>
      -- `cv_status::timeout`; the predicate is evaluated again, and its value is not used
      some { s with stage := if s.loop.nextTick ≤ s.loop.now then .pop else .test }
    | .pop =>
      match s.loop.mailbox with
      | [] => some { s with mon := s.mon.leave, loop := { s.loop with pc := .head } }
      | msg :: rest =>
        some { s with
          mon := s.mon.leave
          loop := { s.loop with pc := .handle msg, mailbox := rest } }
  | .decided => some { s with mon := s.mon.sleep }
  | .asleep => none
  | .awake =>
    if s.mon.owner.isNone then some { s with mon := s.mon.acquire, stage := .clock } else none

/-- The next step of `ThreadRun`. -/
def mailRun (entry : UInt64 → EntryCall → σ → σ) (us : UInt64) (s : MailState σ) :
    Option (MailState σ) :=
  match s.loop.pc with
  | .wait => waitRun s
  | pc => (loopRun entry us s.loop).map fun l =>
      { s with loop := l, handled := s.handled ++ pc.inHand }

/-- The next step of thread `i` in `Send` or `RequestStop`. -/
def callerRun (i : ℕ) (s : MailState σ) : Option (MailState σ) :=
  match s.callers i with
  | .idle => none
  | .lock msg =>
    if s.mon.owner.isNone then
      some { s with mon := s.mon.lock i, callers := Function.update s.callers i (.push msg) }
    else none
  | .push msg =>
    some { s with
      loop := { s.loop with mailbox := s.loop.mailbox ++ [msg] }
      pushed := s.pushed ++ [(i, msg)]
      callers := Function.update s.callers i .unlock }
  | .unlock =>
    some { s with mon := s.mon.unlock, callers := Function.update s.callers i .notifyOne }
  | .notifyOne => some { s with mon := s.mon.wake, callers := Function.update s.callers i .idle }
  | .notifyAll => some { s with mon := s.mon.wake, callers := Function.update s.callers i .idle }

/-- Time passes, a thread calls `Send` or `RequestStop` or goes on, the sleep ends, or the loop
goes on. -/
inductive MailAct where
  | pass (ns : ℕ)
  | send (i : ℕ) (msg : MailMsg)
  | requestStop (i : ℕ)
  | caller (i : ℕ)
  /-- the deadline, or a wake-up for no reason -/
  | wake
  | run (us : UInt64)

def mailStep (entry : UInt64 → EntryCall → σ → σ) (s : MailState σ) : MailAct → Option (MailState σ)
  | .pass ns => some { s with loop := { s.loop with now := s.loop.now + ns } }
  | .send i msg =>
    match s.callers i with
    | .idle =>
      some { s with callers := Function.update s.callers i (.lock msg), calls := s.calls ++ [(i, msg)] }
    | _ => none
  | .requestStop i =>
    -- the store of the flag: an atomic, and no mutex
    match s.callers i with
    | .idle =>
      some { s with
        loop := { s.loop with stop := true }
        callers := Function.update s.callers i .notifyAll }
    | _ => none
  | .caller i => callerRun i s
  | .wake => if s.mon.waiter = .asleep then some { s with mon := s.mon.wake } else none
  | .run us => mailRun entry us s

/-! ## The law -/

/-- `Send` or `RequestStop` has changed the condition, and its notification is to come. -/
def Caller.owes : Caller → Bool
  | .unlock => true
  | .notifyOne => true
  | .notifyAll => true
  | _ => false

def Caller.hasLock : Caller → Bool
  | .push _ => true
  | .unlock => true
  | _ => false

/-- The message of a call of `Send` that is not pushed yet. -/
def Caller.pending : Caller → List MailMsg
  | .lock msg => [msg]
  | .push msg => [msg]
  | _ => []

/-- The messages of thread `i`. -/
def sentBy (i : ℕ) (calls : List (ℕ × MailMsg)) : List MailMsg :=
  (calls.filter fun c => c.1 == i).map Prod.snd

/-- The status behind the messages `msgs`. -/
def statusAll (status : UInt8) (msgs : List MailMsg) : UInt8 :=
  msgs.foldl (fun st msg => statusAfter msg st) status

/-- The calls of the callback for the messages `msgs`, of a thread in `status`. -/
def callsOf : UInt8 → List MailMsg → List EntryCall
  | _, [] => []
  | status, msg :: msgs =>
    messageCall (statusAfter msg status) msg :: callsOf (statusAfter msg status) msgs

/-- Some thread owes a notification. -/
def MailState.Noted (s : MailState σ) : Prop := ∃ i, (s.callers i).owes = true

/-- **The mailbox of a thread that started at `t0`.** -/
structure MailboxLaw (entry : UInt64 → EntryCall → σ → σ) (t0 : ℕ) (s : MailState σ) : Prop where
  ticks : TickLaw entry t0 s.loop
  /-- what was pushed is handled, in hand, or in the mailbox, in the order of the pushes -/
  order : s.pushed.map Prod.snd = s.handled ++ s.loop.pc.inHand ++ s.loop.mailbox
  /-- each message handled has had its one call -/
  once : s.loop.messages = callsOf statusIdle s.handled
  /-- and each thread's messages are pushed in the order of its calls -/
  program : ∀ i, sentBy i s.calls = sentBy i s.pushed ++ (s.callers i).pending
  awake : s.mon.waiter = .asleep → s.loop.mailbox ≠ [] → s.Noted
  /-- the thread has stopped, or it sleeps on an empty mailbox, or it goes on, or a sender does -/
  live : s.loop.pc = .stopped ∨ s.mon.waiter = .asleep ∧ s.loop.mailbox = [] ∨
    (∀ us, (mailRun entry us s).isSome = true) ∨ ∃ i, (callerRun i s).isSome = true
  /-- a thread inside `Send` or `RequestStop` goes on, or the one that has the mutex does -/
  callers : ∀ i, s.callers i ≠ .idle → (callerRun i s).isSome = true ∨
    (s.mon.owner = some .waiter ∧ ∀ us, (mailRun entry us s).isSome = true) ∨
    ∃ j, s.mon.owner = some (.other j) ∧ (callerRun j s).isSome = true

/-! ## The invariants -/

/-- The mutex and the wait. -/
structure WaitInv (s : MailState σ) : Prop where
  outside : s.loop.pc ≠ .wait → s.mon.waiter = .out
  /-- the wait ends for a message, for a stop, or at the deadline -/
  ready : s.stage = .pop →
    s.mon.waiter = .holding → s.loop.mailbox ≠ [] ∨ s.loop.stop = true ∨ s.loop.nextTick ≤ s.loop.now
  sound : s.mon.Sound (s.loop.mailbox ≠ []) s.Noted
  holder : ∀ i, s.mon.owner = some (.other i) ↔ (s.callers i).hasLock = true

/-- The messages. -/
structure FifoInv (s : MailState σ) : Prop where
  order : s.pushed.map Prod.snd = s.handled ++ s.loop.pc.inHand ++ s.loop.mailbox
  status : s.loop.status = statusAll statusIdle s.handled
  once : s.loop.messages = callsOf statusIdle s.handled
  program : ∀ i, sentBy i s.calls = sentBy i s.pushed ++ (s.callers i).pending

theorem waitInv_init (t0 : ℕ) (world : σ) : WaitInv (MailState.init t0 world) where
  outside := fun _ => rfl
  ready := by
    intro hstage
    cases hstage
  sound := Monitor.sound_init
  holder := fun _ => ⟨fun h => (by cases h), fun h => by cases h⟩

theorem fifoInv_init (t0 : ℕ) (world : σ) : FifoInv (MailState.init t0 world) :=
  ⟨rfl, rfl, rfl, fun _ => rfl⟩

theorem callsOf_append (status : UInt8) (as bs : List MailMsg) :
    callsOf status (as ++ bs) = callsOf status as ++ callsOf (statusAll status as) bs := by
  induction as generalizing status with
  | nil => rfl
  | cons a as ih =>
    rw [List.cons_append, callsOf, callsOf, ih]
    rfl

theorem statusAll_append (status : UInt8) (as bs : List MailMsg) :
    statusAll status (as ++ bs) = statusAll (statusAll status as) bs := List.foldl_append

theorem sentBy_append (i : ℕ) (as bs : List (ℕ × MailMsg)) :
    sentBy i (as ++ bs) = sentBy i as ++ sentBy i bs := by
  rw [sentBy, List.filter_append, List.map_append]
  rfl

theorem sentBy_singleton (i j : ℕ) (msg : MailMsg) :
    sentBy i [(j, msg)] = if j = i then [msg] else [] := by
  by_cases h : j = i
  · simp [sentBy, h]
  · simp [sentBy, h]

section Steps

variable {entry : UInt64 → EntryCall → σ → σ} {t0 : ℕ} {s t : MailState σ} {us : UInt64}

/-- **What a step of the loop outside the wait does** to the messages: it handles the one in hand. -/
theorem loopRun_effect {l l' : LoopState σ} (hpc : l.pc ≠ .wait)
    (h : loopRun entry us l = some l') :
    l'.mailbox = l.mailbox ∧ l'.stop = l.stop ∧ l'.pc.inHand = [] ∧
      l'.status = statusAll l.status l.pc.inHand ∧
      l'.messages = l.messages ++ callsOf l.status l.pc.inHand := by
  unfold loopRun at h
  split at h
  case h_6 hw => exact absurd hw hpc
  case h_8 => cases h
  case h_7 msg hhandle =>
    cases h
    rw [hhandle]
    exact ⟨rfl, rfl, rfl, rfl, rfl⟩
  case h_1 hhead =>
    split at h
    all_goals
      cases h
      rw [hhead]
      exact ⟨rfl, rfl, rfl, rfl, (List.append_nil _).symm⟩
  case h_2 hcheck =>
    cases h
    rw [hcheck]
    refine ⟨rfl, rfl, ?_, rfl, (List.append_nil _).symm⟩
    show (if l.nextTick ≤ l.now then Pc.dispatch else Pc.wait).inHand = []
    split <;> rfl
  case h_3 hdispatch =>
    cases h
    rw [hdispatch]
    exact ⟨rfl, rfl, rfl, rfl, (List.append_nil _).symm⟩
  case h_4 again hadvance =>
    cases h
    rw [hadvance]
    exact ⟨rfl, rfl, rfl, rfl, (List.append_nil _).symm⟩
  case h_5 hadvanced =>
    split at h
    all_goals
      cases h
      rw [hadvanced]
      exact ⟨rfl, rfl, rfl, rfl, (List.append_nil _).symm⟩

/-- Outside the wait only the end of the loop stands still. -/
theorem isSome_loopRun {l : LoopState σ} (hpc : l.pc ≠ .wait) (hstop : l.pc ≠ .stopped)
    (us : UInt64) : (loopRun entry us l).isSome = true := by
  unfold loopRun
  split
  case h_1 => split <;> rfl
  case h_2 => rfl
  case h_3 => rfl
  case h_4 => rfl
  case h_5 => split <;> rfl
  case h_6 hw => exact absurd hw hpc
  case h_7 => rfl
  case h_8 hs => exact absurd hs hstop

/-- A step of the thread is a step of the wait, or a step of the loop outside it. -/
theorem mailRun_cases (h : mailRun entry us s = some t) :
    s.loop.pc = .wait ∧ waitRun s = some t ∨
      s.loop.pc ≠ .wait ∧ ∃ l, loopRun entry us s.loop = some l ∧
        t = { s with loop := l, handled := s.handled ++ s.loop.pc.inHand } := by
  unfold mailRun at h
  split at h
  · rename_i hw
    exact Or.inl ⟨hw, h⟩
  · rename_i hw
    obtain ⟨l, hl, heq⟩ := Option.map_eq_some_iff.mp h
    exact Or.inr ⟨fun hpc => hw hpc, l, hl, heq.symm⟩

/-- **What a step of the wait does.** -/
inductive WaitEffect (s : MailState σ) : MailState σ → Prop
  | lock (stage : Stage) (hfree : s.mon.owner = none) (hstage : stage ≠ .pop) :
    WaitEffect s { s with mon := s.mon.acquire, stage := stage }
  | goOn (stage : Stage) (hw : s.mon.waiter = .holding)
    (hready : stage = .pop →
      s.loop.mailbox ≠ [] ∨ s.loop.stop = true ∨ s.loop.nextTick ≤ s.loop.now) :
    WaitEffect s { s with stage := stage }
  | decide (hw : s.mon.waiter = .holding) (hmail : s.loop.mailbox = [])
    (hstop : s.loop.stop = false) : WaitEffect s { s with mon := s.mon.decide }
  | sleep (hw : s.mon.waiter = .decided) : WaitEffect s { s with mon := s.mon.sleep }
  | leave (hw : s.mon.waiter = .holding) (hstage : s.stage = .pop) (hmail : s.loop.mailbox = []) :
    WaitEffect s { s with mon := s.mon.leave, loop := { s.loop with pc := .head } }
  | pop (msg : MailMsg) (rest : List MailMsg) (hw : s.mon.waiter = .holding)
    (hstage : s.stage = .pop) (hmail : s.loop.mailbox = msg :: rest) :
    WaitEffect s { s with
      mon := s.mon.leave
      loop := { s.loop with pc := .handle msg, mailbox := rest } }

theorem waitEffect (h : waitRun s = some t) : WaitEffect s t := by
  unfold waitRun at h
  split at h
  case h_1 hw =>
    split at h
    · rename_i hfree
      cases h
      exact .lock .test (Option.isNone_iff_eq_none.mp hfree) fun h => by cases h
    · cases h
  case h_2 hw =>
    split at h
    case h_1 hstage =>
      split at h
      · rename_i hpred
        cases h
        refine .goOn .pop hw fun _ => ?_
        rcases Bool.or_eq_true_iff.mp hpred with hne | hstop
        · exact Or.inl (by simpa using hne)
        · exact Or.inr (Or.inl hstop)
      · rename_i hpred
        cases h
        simp only [Bool.or_eq_true, Bool.not_eq_true', List.isEmpty_eq_false_iff, not_or, not_not,
          Bool.not_eq_true] at hpred
        exact .decide hw hpred.1 hpred.2
    case h_2 hstage =>
      cases h
      refine .goOn _ hw fun hpop => ?_
      split at hpop
      · rename_i hpassed
        exact Or.inr (Or.inr hpassed)
      · cases hpop
    case h_3 hstage =>
      split at h
      · rename_i hmail
        cases h
        exact .leave hw hstage hmail
      · rename_i msg rest hmail
        cases h
        exact .pop msg rest hw hstage hmail
  case h_3 hw =>
    cases h
    exact .sleep hw
  case h_4 hw => cases h
  case h_5 hw =>
    split at h
    · rename_i hfree
      cases h
      exact .lock .clock (Option.isNone_iff_eq_none.mp hfree) fun h => by cases h
    · cases h

/-- **What a step of a thread in `Send` or `RequestStop` does.** -/
inductive CallerEffect (i : ℕ) (s : MailState σ) : MailState σ → Prop
  | lock (msg : MailMsg) (hi : s.callers i = .lock msg) (hfree : s.mon.owner = none) :
    CallerEffect i s { s with
      mon := s.mon.lock i, callers := Function.update s.callers i (.push msg) }
  | push (msg : MailMsg) (hi : s.callers i = .push msg) :
    CallerEffect i s { s with
      loop := { s.loop with mailbox := s.loop.mailbox ++ [msg] }
      pushed := s.pushed ++ [(i, msg)]
      callers := Function.update s.callers i .unlock }
  | unlock (hi : s.callers i = .unlock) :
    CallerEffect i s { s with
      mon := s.mon.unlock, callers := Function.update s.callers i .notifyOne }
  | notify (hi : s.callers i = .notifyOne ∨ s.callers i = .notifyAll) :
    CallerEffect i s { s with mon := s.mon.wake, callers := Function.update s.callers i .idle }

theorem callerEffect {i : ℕ} (h : callerRun i s = some t) : CallerEffect i s t := by
  unfold callerRun at h
  split at h
  case h_1 hi => cases h
  case h_2 msg hi =>
    split at h
    · rename_i hfree
      cases h
      exact .lock msg hi (Option.isNone_iff_eq_none.mp hfree)
    · cases h
  case h_3 msg hi =>
    cases h
    exact .push msg hi
  case h_4 hi =>
    cases h
    exact .unlock hi
  case h_5 hi =>
    cases h
    exact .notify (Or.inl hi)
  case h_6 hi =>
    cases h
    exact .notify (Or.inr hi)

/-! ## The mutex and the wait -/

/-- The others are where they were. -/
theorem noted_update {callers : ℕ → Caller} {i : ℕ} {c : Caller}
    (hi : (callers i).owes = true → c.owes = true) (h : ∃ j, (callers j).owes = true) :
    ∃ j, (Function.update callers i c j).owes = true := by
  obtain ⟨j, hj⟩ := h
  refine ⟨j, ?_⟩
  by_cases hji : j = i
  · rw [hji, Function.update_self]
    exact hi (hji ▸ hj)
  · rw [Function.update_of_ne hji]
    exact hj

theorem noted_update_self (callers : ℕ → Caller) (i : ℕ) {c : Caller} (hc : c.owes = true) :
    ∃ j, (Function.update callers i c j).owes = true :=
  ⟨i, by rw [Function.update_self]; exact hc⟩

/-- A thread that neither takes nor gives up the mutex. -/
theorem holder_update {callers : ℕ → Caller} {owner : Option (Owner ℕ)} {i : ℕ} {c : Caller}
    (h : ∀ j, owner = some (.other j) ↔ (callers j).hasLock = true)
    (hc : c.hasLock = (callers i).hasLock) (j : ℕ) :
    owner = some (.other j) ↔ (Function.update callers i c j).hasLock = true := by
  by_cases hji : j = i
  · rw [hji, Function.update_self, hc]
    exact h i
  · rw [Function.update_of_ne hji]
    exact h j

/-- A thread that takes the mutex. -/
theorem holder_lock {callers : ℕ → Caller} {i : ℕ} {c : Caller}
    (h : ∀ j, (callers j).hasLock = false) (hc : c.hasLock = true) (j : ℕ) :
    some (Owner.other i) = some (Owner.other j) ↔
      (Function.update callers i c j).hasLock = true := by
  by_cases hji : j = i
  · rw [hji, Function.update_self, hc]
    exact ⟨fun _ => rfl, fun _ => rfl⟩
  · rw [Function.update_of_ne hji, h j]
    constructor
    · intro heq
      cases heq
      exact absurd rfl hji
    · intro heq
      cases heq

/-- The thread with the mutex gives it up. -/
theorem holder_unlock {callers : ℕ → Caller} {i : ℕ} {c : Caller}
    (h : ∀ j, some (Owner.other i) = some (Owner.other j) ↔ (callers j).hasLock = true)
    (hc : c.hasLock = false) (j : ℕ) :
    none = some (Owner.other j) ↔ (Function.update callers i c j).hasLock = true := by
  by_cases hji : j = i
  · rw [hji, Function.update_self, hc]
    exact ⟨fun heq => (by cases heq), fun heq => by cases heq⟩
  · rw [Function.update_of_ne hji, ← h j]
    constructor
    · intro heq
      cases heq
    · intro heq
      cases heq
      exact absurd rfl hji

/-- With the mutex free or the waiter's, nobody else has it. -/
theorem WaitInv.no_holder (h : WaitInv s) {owner : Option (Owner ℕ)}
    (hs : ∀ j, s.mon.owner ≠ some (.other j)) (ho : ∀ j, owner ≠ some (.other j)) (i : ℕ) :
    owner = some (.other i) ↔ (s.callers i).hasLock = true :=
  ⟨fun hi => absurd hi (ho i), fun hi => absurd ((h.holder i).mpr hi) (hs i)⟩

theorem WaitInv.owner_ne (h : WaitInv s) (hw : s.mon.HasMutex) (j : ℕ) :
    s.mon.owner ≠ some (.other j) := by
  rw [h.sound.owned.mpr hw]
  intro hj
  cases hj

theorem waitRun_inv (h : WaitInv s) (hpc : s.loop.pc = .wait) (hstep : waitRun s = some t) :
    WaitInv t := by
  cases waitEffect hstep with
  | lock stage hfree hstage =>
    refine ⟨fun hne => absurd hpc hne, fun hpop => absurd hpop hstage,
      Monitor.sound_acquire s.mon, ?_⟩
    refine h.no_holder ?_ ?_
    · intro j hj
      rw [hfree] at hj
      cases hj
    · intro j hj
      cases hj
  | goOn stage hw hready =>
    exact ⟨fun hne => absurd hpc hne, fun hpop _ => hready hpop, h.sound, h.holder⟩
  | decide hw hmail hstop =>
    refine ⟨fun hne => absurd hpc hne, ?_, h.sound.decide hw fun hne => hne hmail, h.holder⟩
    intro _ hdecided
    cases hdecided
  | sleep hw =>
    refine ⟨fun hne => absurd hpc hne, ?_, h.sound.sleep hw, ?_⟩
    · intro _ hasleep
      cases hasleep
    · refine h.no_holder (h.owner_ne (Or.inr hw)) ?_
      intro j hj
      cases hj
  | leave hw hstage hmail =>
    refine ⟨fun _ => rfl, ?_, Monitor.sound_leave s.mon, ?_⟩
    · intro _ hout
      cases hout
    · refine h.no_holder (h.owner_ne (Or.inl hw)) ?_
      intro j hj
      cases hj
  | pop msg rest hw hstage hmail =>
    refine ⟨fun _ => rfl, ?_, Monitor.sound_leave s.mon, ?_⟩
    · intro _ hout
      cases hout
    · refine h.no_holder (h.owner_ne (Or.inl hw)) ?_
      intro j hj
      cases hj

theorem callerRun_inv {i : ℕ} (h : WaitInv s) (hstep : callerRun i s = some t) : WaitInv t := by
  cases callerEffect hstep with
  | lock msg hi hfree =>
    refine ⟨h.outside, h.ready, ?_, ?_⟩
    · refine (h.sound.lock hfree i).weaken id (noted_update ?_)
      rw [hi]
      intro howes
      cases howes
    · refine holder_lock ?_ rfl
      intro j
      refine Bool.eq_false_iff.mpr fun hj => ?_
      have howner := (h.holder j).mpr hj
      rw [hfree] at howner
      cases howner
  | push msg hi =>
    have howner : s.mon.owner = some (.other i) := (h.holder i).mpr (by rw [hi]; rfl)
    refine ⟨h.outside, ?_, ?_, holder_update h.holder (by rw [hi]; rfl)⟩
    · intro _ _
      left
      exact List.append_ne_nil_of_right_ne_nil _ (List.cons_ne_nil _ _)
    · exact h.sound.change_locked howner (noted_update_self _ _ rfl)
  | unlock hi =>
    have howner : s.mon.owner = some (.other i) := (h.holder i).mpr (by rw [hi]; rfl)
    refine ⟨h.outside, h.ready, ?_, ?_⟩
    · exact (h.sound.unlock howner).weaken id (noted_update fun _ => rfl)
    · refine holder_unlock ?_ rfl
      rw [← howner]
      exact h.holder
  | notify hi =>
    refine ⟨?_, ?_, h.sound.wake, ?_⟩
    · exact fun hpc => Monitor.waiter_wake_eq_out (h.outside hpc)
    · intro hpop hholding
      refine h.ready hpop ?_
      have hne : s.mon.waiter ≠ .asleep := by
        intro hasleep
        unfold Monitor.wake at hholding
        rw [hasleep] at hholding
        cases hholding
      rw [Monitor.wake_eq hne] at hholding
      exact hholding
    · refine holder_update h.holder ?_
      rcases hi with hi | hi <;> rw [hi] <;> rfl

/-- A thread that is nowhere inside `Send` and `RequestStop` begins a call. -/
theorem begins {β : Type*} {c : Caller} {x y : β}
    (h : (match c with | .idle => some x | _ => none) = some y) : c = .idle ∧ x = y := by
  split at h
  · exact ⟨rfl, Option.some.inj h⟩
  · cases h

theorem wakes (h : mailStep entry s .wake = some t) :
    s.mon.waiter = .asleep ∧ { s with mon := s.mon.wake } = t := by
  change (if s.mon.waiter = .asleep then some { s with mon := s.mon.wake } else none) = some t at h
  split at h
  · rename_i hasleep
    exact ⟨hasleep, Option.some.inj h⟩
  · cases h

theorem mailStep_inv {a : MailAct} (h : WaitInv s) (hstep : mailStep entry s a = some t) :
    WaitInv t := by
  cases a with
  | pass ns =>
    cases hstep
    refine ⟨h.outside, ?_, h.sound, h.holder⟩
    intro hpop hholding
    rcases h.ready hpop hholding with hmail | hstop | hpassed
    · exact Or.inl hmail
    · exact Or.inr (Or.inl hstop)
    · exact Or.inr (Or.inr (Nat.le_trans hpassed (Nat.le_add_right _ _)))
  | send i msg =>
    obtain ⟨hi, rfl⟩ := begins hstep
    refine ⟨h.outside, h.ready, ?_, holder_update h.holder (by rw [hi]; rfl)⟩
    refine h.sound.weaken id (noted_update ?_)
    rw [hi]
    intro howes
    cases howes
  | requestStop i =>
    obtain ⟨hi, rfl⟩ := begins hstep
    refine ⟨h.outside, fun _ _ => Or.inr (Or.inl rfl), ?_, holder_update h.holder (by rw [hi]; rfl)⟩
    exact h.sound.weaken id (noted_update fun _ => rfl)
  | caller i => exact callerRun_inv h hstep
  | wake =>
    obtain ⟨hasleep, rfl⟩ := wakes hstep
    have hawake : s.mon.wake.waiter ≠ .holding := by
      unfold Monitor.wake
      rw [hasleep]
      intro hw
      cases hw
    refine ⟨?_, fun _ hw => absurd hw hawake, h.sound.wake, h.holder⟩
    exact fun hpc => Monitor.waiter_wake_eq_out (h.outside hpc)
  | run us =>
    rcases mailRun_cases hstep with ⟨hpc, hwait⟩ | ⟨hpc, l, hl, rfl⟩
    · exact waitRun_inv h hpc hwait
    · have hout := h.outside hpc
      obtain ⟨hmail, -, -, -, -⟩ := loopRun_effect hpc hl
      refine ⟨fun _ => hout, ?_, ?_, h.holder⟩
      · intro _ hw
        rw [hout] at hw
        cases hw
      · exact h.sound.weaken (fun hne => hmail ▸ hne) id

/-! ## The loop below -/

/-- **Every step is a step of the loop, or none.** -/
theorem mailStep_loop {a : MailAct} (h : WaitInv s) (hstep : mailStep entry s a = some t) :
    ∃ bs, exec (loopStep entry) s.loop bs = some t.loop := by
  cases a with
  | pass ns =>
    cases hstep
    exact ⟨[.pass ns], rfl⟩
  | send i msg =>
    obtain ⟨-, rfl⟩ := begins hstep
    exact ⟨[], rfl⟩
  | requestStop i =>
    obtain ⟨-, rfl⟩ := begins hstep
    exact ⟨[.requestStop], rfl⟩
  | caller i =>
    cases callerEffect hstep with
    | lock msg hi hfree => exact ⟨[], rfl⟩
    | push msg hi => exact ⟨[.arrive msg], rfl⟩
    | unlock hi => exact ⟨[], rfl⟩
    | notify hi => exact ⟨[], rfl⟩
  | wake =>
    obtain ⟨-, rfl⟩ := wakes hstep
    exact ⟨[], rfl⟩
  | run us =>
    rcases mailRun_cases hstep with ⟨hpc, hwait⟩ | ⟨hpc, l, hl, rfl⟩
    · cases waitEffect hwait with
      | lock stage hfree hstage => exact ⟨[], rfl⟩
      | goOn stage hw hready => exact ⟨[], rfl⟩
      | decide hw hmail hstop => exact ⟨[], rfl⟩
      | sleep hw => exact ⟨[], rfl⟩
      | leave hw hstage hmail =>
        -- the wait of the loop ends with no message only for a stop or at the deadline
        refine ⟨[.run us], ?_⟩
        have hready : (s.loop.stop || decide (s.loop.nextTick ≤ s.loop.now)) = true := by
          rcases h.ready hstage hw with hne | hstop | hpassed
          · exact absurd hmail hne
          · rw [hstop, Bool.true_or]
          · rw [decide_eq_true hpassed, Bool.or_true]
        rw [exec_cons]
        simp only [loopStep, loopRun, hpc, hmail, hready, if_true]
        rfl
      | pop msg rest hw hstage hmail =>
        refine ⟨[.run us], ?_⟩
        rw [exec_cons]
        simp only [loopStep, loopRun, hpc, hmail]
        rfl
    · refine ⟨[.run us], ?_⟩
      rw [exec_cons]
      simp only [loopStep, hl]
      rfl

/-- **The refinement**: from a state with the invariant, every run is a run of the loop. -/
theorem exists_loop_run {as : List MailAct} (h : WaitInv s)
    (hexec : exec (mailStep entry) s as = some t) :
    ∃ bs, exec (loopStep entry) s.loop bs = some t.loop := by
  have hsim : ∀ (s : MailState σ) (l : LoopState σ) a s', WaitInv s ∧ s.loop = l →
      mailStep entry s a = some s' →
      ∃ bs l', exec (loopStep entry) l bs = some l' ∧ WaitInv s' ∧ s'.loop = l' := by
    rintro s l a s' ⟨hs, rfl⟩ hstep
    obtain ⟨bs, hbs⟩ := mailStep_loop hs hstep
    exact ⟨bs, s'.loop, hbs, mailStep_inv hs hstep, rfl⟩
  obtain ⟨bs, l, hl, -, heq⟩ := exec_refinement _ hsim ⟨h, rfl⟩ hexec
  exact ⟨bs, heq ▸ hl⟩

/-! ## The messages -/

theorem FifoInv.goOn (h : FifoInv s) (hpushed : t.pushed = s.pushed)
    (hhandled : t.handled = s.handled ++ s.loop.pc.inHand)
    (hrest : t.loop.pc.inHand ++ t.loop.mailbox = s.loop.mailbox)
    (hstatus : t.loop.status = statusAll s.loop.status s.loop.pc.inHand)
    (honce : t.loop.messages = s.loop.messages ++ callsOf s.loop.status s.loop.pc.inHand)
    (hcalls : t.calls = s.calls) (hcallers : t.callers = s.callers) : FifoInv t where
  order := by
    rw [hpushed, hhandled, h.order, List.append_assoc _ t.loop.pc.inHand, hrest]
  status := by rw [hstatus, hhandled, statusAll_append, h.status]
  once := by rw [honce, hhandled, callsOf_append, h.once, h.status]
  program := by
    rw [hcalls, hpushed, hcallers]
    exact h.program

/-- A caller that moves on inside its call. -/
theorem program_update {calls pushed : List (ℕ × MailMsg)} {callers : ℕ → Caller} {i : ℕ}
    {c : Caller} (h : ∀ j, sentBy j calls = sentBy j pushed ++ (callers j).pending)
    (hc : c.pending = (callers i).pending) (j : ℕ) :
    sentBy j calls = sentBy j pushed ++ (Function.update callers i c j).pending := by
  rw [h j]
  by_cases hji : j = i
  · rw [hji, Function.update_self, hc]
  · rw [Function.update_of_ne hji]

theorem mailStep_fifo {a : MailAct} (h : FifoInv s) (hstep : mailStep entry s a = some t) :
    FifoInv t := by
  cases a with
  | pass ns =>
    cases hstep
    exact ⟨h.order, h.status, h.once, h.program⟩
  | send i msg =>
    obtain ⟨hi, rfl⟩ := begins hstep
    refine ⟨h.order, h.status, h.once, ?_⟩
    intro j
    show sentBy j (s.calls ++ [(i, msg)]) =
      sentBy j s.pushed ++ (Function.update s.callers i (.lock msg) j).pending
    rw [sentBy_append, sentBy_singleton, h.program j]
    by_cases hji : j = i
    · rw [hji, Function.update_self, hi, if_pos rfl]
      simp [Caller.pending]
    · rw [Function.update_of_ne hji, if_neg (Ne.symm hji), List.append_nil]
  | requestStop i =>
    obtain ⟨hi, rfl⟩ := begins hstep
    exact ⟨h.order, h.status, h.once, program_update h.program (by rw [hi]; rfl)⟩
  | caller i =>
    cases callerEffect hstep with
    | lock msg hi hfree =>
      exact ⟨h.order, h.status, h.once, program_update h.program (by rw [hi]; rfl)⟩
    | push msg hi =>
      refine ⟨?_, h.status, h.once, ?_⟩
      · show (s.pushed ++ [(i, msg)]).map Prod.snd =
          s.handled ++ s.loop.pc.inHand ++ (s.loop.mailbox ++ [msg])
        rw [List.map_append, h.order, List.append_assoc _ s.loop.mailbox]
        rfl
      · intro j
        show sentBy j s.calls =
          sentBy j (s.pushed ++ [(i, msg)]) ++ (Function.update s.callers i .unlock j).pending
        rw [sentBy_append, sentBy_singleton, h.program j]
        by_cases hji : j = i
        · rw [hji, Function.update_self, hi, if_pos rfl]
          simp [Caller.pending]
        · rw [Function.update_of_ne hji, if_neg (Ne.symm hji), List.append_nil]
    | unlock hi => exact ⟨h.order, h.status, h.once, program_update h.program (by rw [hi]; rfl)⟩
    | notify hi =>
      refine ⟨h.order, h.status, h.once, program_update h.program ?_⟩
      rcases hi with hi | hi <;> rw [hi] <;> rfl
  | wake =>
    obtain ⟨-, rfl⟩ := wakes hstep
    exact ⟨h.order, h.status, h.once, h.program⟩
  | run us =>
    rcases mailRun_cases hstep with ⟨hpc, hwait⟩ | ⟨hpc, l, hl, rfl⟩
    · have hhand : s.loop.pc.inHand = [] := by rw [hpc]; rfl
      have hstay : s.handled = s.handled ++ s.loop.pc.inHand := by rw [hhand, List.append_nil]
      cases waitEffect hwait with
      | lock stage hfree hstage => exact ⟨h.order, h.status, h.once, h.program⟩
      | goOn stage hw hready => exact ⟨h.order, h.status, h.once, h.program⟩
      | decide hw hmail hstop => exact ⟨h.order, h.status, h.once, h.program⟩
      | sleep hw => exact ⟨h.order, h.status, h.once, h.program⟩
      | leave hw hstage hmail =>
        refine h.goOn rfl hstay rfl ?_ ?_ rfl rfl
        · rw [hhand]
          rfl
        · rw [hhand]
          exact (List.append_nil _).symm
      | pop msg rest hw hstage hmail =>
        refine h.goOn rfl hstay hmail.symm ?_ ?_ rfl rfl
        · rw [hhand]
          rfl
        · rw [hhand]
          exact (List.append_nil _).symm
    · obtain ⟨hmail, -, hhand, hstatus, honce⟩ := loopRun_effect hpc hl
      refine h.goOn rfl rfl ?_ hstatus honce rfl rfl
      rw [hhand, List.nil_append]
      exact hmail

/-! ## The laws -/

/-- A thread with the mutex, or with a notification to make, goes on. -/
theorem isSome_callerRun {i : ℕ}
    (h : (s.callers i).hasLock = true ∨ (s.callers i).owes = true) :
    (callerRun i s).isSome = true := by
  unfold callerRun
  cases hi : s.callers i with
  | push msg => rfl
  | unlock => rfl
  | notifyOne => rfl
  | notifyAll => rfl
  | idle => simp [hi, Caller.hasLock, Caller.owes] at h
  | lock msg => simp [hi, Caller.hasLock, Caller.owes] at h

theorem isSome_waitRun (h : s.mon.HasMutex) : (waitRun s).isSome = true := by
  unfold waitRun
  rcases h with hw | hw
  · rw [hw]
    cases hstage : s.stage with
    | test =>
      simp only
      split <;> rfl
    | clock => rfl
    | pop =>
      simp only
      split <;> rfl
  · rw [hw]
    rfl

/-- A thread that wants the mutex goes on, or the one that has it does. -/
theorem WaitInv.live_lock (h : WaitInv s) (hw : s.mon.waiter = .out ∨ s.mon.waiter = .awake) :
    (waitRun s).isSome = true ∨ ∃ i, (callerRun i s).isSome = true := by
  cases howner : s.mon.owner with
  | none =>
    left
    rcases hw with hw | hw <;> simp [waitRun, hw, howner]
  | some o =>
    cases o with
    | waiter =>
      rcases h.sound.owned.mp howner with hhas | hhas
      · rw [hhas] at hw
        rcases hw with hw | hw <;> cases hw
      · rw [hhas] at hw
        rcases hw with hw | hw <;> cases hw
    | other i => exact Or.inr ⟨i, isSome_callerRun (Or.inl ((h.holder i).mp howner))⟩

/-- **The thread is not stuck.** -/
theorem WaitInv.live (h : WaitInv s) (entry : UInt64 → EntryCall → σ → σ) :
    s.loop.pc = .stopped ∨ s.mon.waiter = .asleep ∧ s.loop.mailbox = [] ∨
      (∀ us, (mailRun entry us s).isSome = true) ∨ ∃ i, (callerRun i s).isSome = true := by
  by_cases hpc : s.loop.pc = .wait
  · have hrun : ∀ us, mailRun entry us s = waitRun s := by
      intro us
      unfold mailRun
      rw [hpc]
    simp only [hrun]
    cases hw : s.mon.waiter with
    | out =>
      rcases h.live_lock (Or.inl hw) with hgo | hgo
      · exact Or.inr (Or.inr (Or.inl fun _ => hgo))
      · exact Or.inr (Or.inr (Or.inr hgo))
    | awake =>
      rcases h.live_lock (Or.inr hw) with hgo | hgo
      · exact Or.inr (Or.inr (Or.inl fun _ => hgo))
      · exact Or.inr (Or.inr (Or.inr hgo))
    | holding => exact Or.inr (Or.inr (Or.inl fun _ => isSome_waitRun (Or.inl hw)))
    | decided => exact Or.inr (Or.inr (Or.inl fun _ => isSome_waitRun (Or.inr hw)))
    | asleep =>
      by_cases hmail : s.loop.mailbox = []
      · exact Or.inr (Or.inl ⟨rfl, hmail⟩)
      · obtain ⟨i, hi⟩ := h.sound.awake hw hmail
        exact Or.inr (Or.inr (Or.inr ⟨i, isSome_callerRun (Or.inr hi)⟩))
  · by_cases hstop : s.loop.pc = .stopped
    · exact Or.inl hstop
    · refine Or.inr (Or.inr (Or.inl fun us => ?_))
      have hrun : mailRun entry us s = (loopRun entry us s.loop).map fun l =>
          { s with loop := l, handled := s.handled ++ s.loop.pc.inHand } := by
        unfold mailRun
        split
        · rename_i hw
          exact absurd hw hpc
        · rfl
      rw [hrun, Option.isSome_map]
      exact isSome_loopRun hpc hstop us

/-- **A caller is not stuck**, whether or not the thread has stopped: what it waits for is the mutex,
and who has the mutex gives it up. -/
theorem WaitInv.live_caller (h : WaitInv s) (entry : UInt64 → EntryCall → σ → σ) {i : ℕ}
    (hi : s.callers i ≠ .idle) : (callerRun i s).isSome = true ∨
      (s.mon.owner = some .waiter ∧ ∀ us, (mailRun entry us s).isSome = true) ∨
      ∃ j, s.mon.owner = some (.other j) ∧ (callerRun j s).isSome = true := by
  cases hcaller : s.callers i with
  | idle => exact absurd hcaller hi
  | push msg => exact Or.inl (isSome_callerRun (Or.inl (by rw [hcaller]; rfl)))
  | unlock => exact Or.inl (isSome_callerRun (Or.inl (by rw [hcaller]; rfl)))
  | notifyOne => exact Or.inl (isSome_callerRun (Or.inr (by rw [hcaller]; rfl)))
  | notifyAll => exact Or.inl (isSome_callerRun (Or.inr (by rw [hcaller]; rfl)))
  | lock msg =>
    cases howner : s.mon.owner with
    | none =>
      left
      simp [callerRun, hcaller, howner]
    | some o =>
      right
      cases o with
      | waiter =>
        have hhas : s.mon.HasMutex := h.sound.owned.mp howner
        refine Or.inl ⟨rfl, fun us => ?_⟩
        -- the thread with the mutex is inside the wait
        have hpc : s.loop.pc = .wait := by
          by_contra hpc
          rcases hhas with hw | hw
          · rw [h.outside hpc] at hw
            cases hw
          · rw [h.outside hpc] at hw
            cases hw
        unfold mailRun
        rw [hpc]
        exact isSome_waitRun hhas
      | other j => exact Or.inr ⟨j, rfl, isSome_callerRun (Or.inl ((h.holder j).mp howner))⟩

end Steps

/-- The start of a thread with an empty mailbox. -/
theorem reachable_inv {entry : UInt64 → EntryCall → σ → σ} {t0 : ℕ} {world : σ} {s : MailState σ}
    (h : Reachable (mailStep entry) (MailState.init t0 world) s) :
    WaitInv s ∧ FifoInv s ∧ LoopInv t0 s.loop := by
  have hwait : WaitInv s :=
    h.invariant (waitInv_init t0 world) fun _ _ _ hs hstep => mailStep_inv hs hstep
  have hfifo : FifoInv s :=
    h.invariant (fifoInv_init t0 world) fun _ _ _ hs hstep => mailStep_fifo hs hstep
  obtain ⟨as, has⟩ := h
  obtain ⟨bs, hbs⟩ := exists_loop_run (waitInv_init t0 world) has
  exact ⟨hwait, hfifo, Reachable.invariant ⟨bs, hbs⟩ (loopInv_init t0 world) fun _ _ _ =>
    loopStep_inv⟩

/--
**The mailbox under any interleaving.** Whatever the threads do between two instructions of the
loop, no message is lost, doubled or overtaken by a later one of its thread, no wake-up for a
message is lost, and no thread is stuck inside `Send`.
-/
theorem mailboxLaw_of_run (entry : UInt64 → EntryCall → σ → σ) (t0 : ℕ) (world : σ)
    (as : List MailAct) :
    AllStates (mailStep entry) (MailboxLaw entry t0) (MailState.init t0 world) as := by
  refine (allStates_iff_prefixes as _).mpr ?_
  intro pre _ s hs
  obtain ⟨hwait, hfifo, hloop⟩ := reachable_inv ⟨pre, hs⟩
  exact ⟨tickLaw_of_inv hloop, hfifo.order, hfifo.once, hfifo.program, hwait.sound.awake,
    hwait.live entry, fun _ => hwait.live_caller entry⟩

end Dts.Thread
