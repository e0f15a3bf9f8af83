import Dts.Thread.Mailbox

/-!
# The stop of a thread

`RequestStop` stores a flag and notifies, without the mutex of the mailbox. A thread that has tested
the flag, and not begun to sleep yet, misses the notification.

* `stopHeard_iff` — in which runs a thread goes to sleep over the flag, with nobody to wake it
* `stopLaw_of_run` — what a thread still does behind the flag, and what a lost notification costs
-/

namespace Dts.Thread

open Infra Routing

variable {σ : Type*}

/-! ## The laws -/

/-- While the thread is about to sleep or sleeps, a stop that is requested has its notification to
come. -/
def StopHeard (s : MailState σ) : Prop :=
  s.mon.waiter = .decided ∨ s.mon.waiter = .asleep → s.loop.stop = true → s.Noted

/--
The last notification behind the flag does not come between the test of the predicate and the
sleep.
-/
def NotBeforeSleep (s : MailState σ) : MailAct → Prop
  | .caller i =>
    s.callers i = .notifyOne ∨ s.callers i = .notifyAll → s.mon.waiter = .decided →
      s.loop.stop = true → ∃ j, j ≠ i ∧ (s.callers j).owes = true
  | _ => True

/-- The calls at deadlines that a thread with the flag stored can still make. -/
def Pc.timersLeft : Pc → ℕ
  | .check => 1
  | .dispatch => 1
  | _ => 0

/-- The messages that it can still handle. -/
def Pc.messagesLeft : Pc → ℕ
  | .head => 0
  | .stopped => 0
  | _ => 1

/-- Between the tick and the end of the turn. -/
def Pc.ending : Pc → Bool
  | .wait => true
  | .handle _ => true
  | .head => true
  | .stopped => true
  | _ => false

/-- The thread's own steps in a run. -/
def ownMailSteps (as : List MailAct) : ℕ :=
  as.countP fun
    | .run _ => true
    | _ => false

/-- **A thread behind `RequestStop`.** -/
structure StopLaw (entry : UInt64 → EntryCall → σ → σ) (s : MailState σ) : Prop where
  /-- the deadline that ends a sleep is one period away at most -/
  period : s.loop.nextTick ≤ s.loop.now + kTickNs
  /-- one call at a deadline and one message at most follow -/
  timers : s.loop.stop = true → ∀ as t, exec (mailStep entry) s as = some t →
    t.loop.timers.length ≤ s.loop.timers.length + s.loop.pc.timersLeft
  messages : s.loop.stop = true → ∀ as t, exec (mailStep entry) s as = some t →
    t.loop.messages.length ≤ s.loop.messages.length + s.loop.pc.messagesLeft
  /-- and from the wait on, the loop ends in seven steps of its own -/
  ends : s.loop.stop = true → s.loop.pc.ending = true →
    ∀ as t, exec (mailStep entry) s as = some t → 7 ≤ ownMailSteps as → t.loop.pc = .stopped

section Stop

variable {entry : UInt64 → EntryCall → σ → σ} {t0 : ℕ} {s t : MailState σ} {us : UInt64}

/-- A notification to come, of somebody else than `i`. -/
theorem exists_owes_ne {callers : ℕ → Caller} {i : ℕ}
    (h : ∃ j, (Function.update callers i .idle j).owes = true) :
    ∃ j, j ≠ i ∧ (callers j).owes = true := by
  obtain ⟨j, hj⟩ := h
  by_cases hji : j = i
  · rw [hji, Function.update_self] at hj
    cases hj
  · rw [Function.update_of_ne hji] at hj
    exact ⟨j, hji, hj⟩

theorem mailStep_stopHeard {a : MailAct} (h : WaitInv s ∧ StopHeard s)
    (hstep : mailStep entry s a = some t) (hok : NotBeforeSleep s a) :
    WaitInv t ∧ StopHeard t := by
  refine ⟨mailStep_inv h.1 hstep, ?_⟩
  obtain ⟨hinv, hheard⟩ := h
  cases a with
  | pass ns =>
    cases hstep
    exact hheard
  | send i msg =>
    obtain ⟨hi, rfl⟩ := begins hstep
    intro hw hstop
    refine noted_update ?_ (hheard hw hstop)
    rw [hi]
    intro howes
    cases howes
  | requestStop i =>
    obtain ⟨hi, rfl⟩ := begins hstep
    exact fun _ _ => noted_update_self _ _ rfl
  | caller i =>
    cases callerEffect hstep with
    | lock msg hi hfree =>
      intro hw hstop
      refine noted_update ?_ (hheard hw hstop)
      rw [hi]
      intro howes
      cases howes
    | push msg hi => exact fun _ _ => noted_update_self _ _ rfl
    | unlock hi => exact fun hw hstop => noted_update (fun _ => rfl) (hheard hw hstop)
    | notify hi =>
      intro hw hstop
      by_cases hasleep : s.mon.waiter = .asleep
      · -- it wakes the thread
        have hawake : s.mon.wake.waiter = .awake := by
          unfold Monitor.wake
          rw [hasleep]
        change s.mon.wake.waiter = .decided ∨ s.mon.wake.waiter = .asleep at hw
        rw [hawake] at hw
        rcases hw with hw | hw <;> cases hw
      · change s.mon.wake.waiter = .decided ∨ s.mon.wake.waiter = .asleep at hw
        rw [Monitor.wake_eq hasleep] at hw
        rcases hw with hdecided | hw
        · obtain ⟨j, hji, hj⟩ := hok hi hdecided hstop
          refine ⟨j, ?_⟩
          show (Function.update s.callers i .idle j).owes = true
          rw [Function.update_of_ne hji]
          exact hj
        · exact absurd hw hasleep
  | wake =>
    obtain ⟨hasleep, rfl⟩ := wakes hstep
    intro hw
    change s.mon.wake.waiter = .decided ∨ s.mon.wake.waiter = .asleep at hw
    unfold Monitor.wake at hw
    rw [hasleep] at hw
    rcases hw with hw | hw <;> cases hw
  | run us =>
    rcases mailRun_cases hstep with ⟨hpc, hwait⟩ | ⟨hpc, l, hl, rfl⟩
    · cases waitEffect hwait with
      | lock stage hfree hstage =>
        intro hw
        rcases hw with hw | hw <;> cases hw
      | goOn stage hw hready => exact hheard
      | decide hw hmail hstop =>
        -- the predicate has seen the flag
        intro _ hset
        change s.loop.stop = true at hset
        rw [hstop] at hset
        cases hset
      | sleep hw => exact fun _ hstop => hheard (Or.inl hw) hstop
      | leave hw hstage hmail =>
        intro hw
        rcases hw with hw | hw <;> cases hw
      | pop msg rest hw hstage hmail =>
        intro hw
        rcases hw with hw | hw <;> cases hw
    · intro hw
      change s.mon.waiter = .decided ∨ s.mon.waiter = .asleep at hw
      rw [hinv.outside hpc] at hw
      rcases hw with hw | hw <;> cases hw

theorem notBeforeSleep_of_stopHeard {a : MailAct} (hstep : mailStep entry s a = some t)
    (h : StopHeard t) : NotBeforeSleep s a := by
  cases a with
  | caller i =>
    intro hi hdecided hstop
    have heq : t = { s with mon := s.mon.wake, callers := Function.update s.callers i .idle } := by
      have hrun : callerRun i s =
          some { s with mon := s.mon.wake, callers := Function.update s.callers i .idle } := by
        unfold callerRun
        rcases hi with hi | hi <;> rw [hi]
      change callerRun i s = some t at hstep
      rw [hrun] at hstep
      exact (Option.some.inj hstep).symm
    subst heq
    have hne : s.mon.waiter ≠ .asleep := by
      rw [hdecided]
      intro hw
      cases hw
    have hwaiter : s.mon.wake.waiter = .decided := by rw [Monitor.wake_eq hne, hdecided]
    exact exists_owes_ne (h (Or.inl hwaiter) hstop)
  | pass ns => trivial
  | send i msg => trivial
  | requestStop i => trivial
  | wake => trivial
  | run us => trivial

/-! ## Behind the flag -/

/-- The next deadline is near. -/
structure NearInv (l : LoopState σ) : Prop where
  period : l.nextTick ≤ l.now + kTickNs
  onTime : l.pc = .dispatch → l.nextTick ≤ l.now
  passed : ∀ again, l.pc = .advance again → l.nextTick ≤ l.now

theorem nearInv_init (t0 : ℕ) (world : σ) : NearInv (LoopState.init t0 world) where
  period := Nat.le_refl _
  onTime := fun h => by cases h
  passed := fun _ h => by cases h

/-- Outside the tick only the clock matters. -/
theorem NearInv.goTo {l l' : LoopState σ} (h : NearInv l) (hnext : l'.nextTick = l.nextTick)
    (hnow : l'.now = l.now) (hdispatch : l'.pc ≠ .dispatch)
    (hadvance : ∀ again, l'.pc ≠ .advance again) : NearInv l' where
  period := by
    rw [hnext, hnow]
    exact h.period
  onTime := fun hpc => absurd hpc hdispatch
  passed := fun again hpc => absurd hpc (hadvance again)

theorem loopStep_near {l l' : LoopState σ} {a : Act} (h : NearInv l)
    (hstep : loopStep entry l a = some l') : NearInv l' := by
  cases a with
  | pass ns =>
    cases hstep
    refine ⟨?_, fun hpc => Nat.le_trans (h.onTime hpc) (Nat.le_add_right _ _),
      fun again hpc => Nat.le_trans (h.passed again hpc) (Nat.le_add_right _ _)⟩
    have hperiod := h.period
    show l.nextTick ≤ l.now + ns + kTickNs
    omega
  | arrive msg =>
    cases hstep
    exact ⟨h.period, h.onTime, h.passed⟩
  | requestStop =>
    cases hstep
    exact ⟨h.period, h.onTime, h.passed⟩
  | run us =>
    change loopRun entry us l = some l' at hstep
    unfold loopRun at hstep
    split at hstep
    case h_1 =>
      split at hstep
      · cases hstep
        exact h.goTo rfl rfl (fun hpc => by cases hpc) fun _ hpc => by cases hpc
      · cases hstep
        exact h.goTo rfl rfl (fun hpc => by cases hpc) fun _ hpc => by cases hpc
    case h_2 =>
      cases hstep
      by_cases hdue : l.nextTick ≤ l.now
      · rw [if_pos hdue]
        exact ⟨h.period, fun _ => hdue, fun _ hpc => by cases hpc⟩
      · rw [if_neg hdue]
        exact h.goTo rfl rfl (fun hpc => by cases hpc) fun _ hpc => by cases hpc
    case h_3 hdispatch =>
      cases hstep
      exact ⟨h.period, fun hpc => (by cases hpc), fun _ _ => h.onTime hdispatch⟩
    case h_4 again hadvance =>
      -- one period further than a deadline that has passed
      cases hstep
      exact ⟨Nat.add_le_add_right (h.passed again hadvance) _, fun hpc => (by cases hpc),
        fun _ hpc => by cases hpc⟩
    case h_5 =>
      split at hstep
      · rename_i hdue
        cases hstep
        exact ⟨h.period, fun hpc => (by cases hpc), fun _ _ => hdue⟩
      · cases hstep
        exact h.goTo rfl rfl (fun hpc => by cases hpc) fun _ hpc => by cases hpc
    case h_6 =>
      split at hstep
      · split at hstep
        · cases hstep
          exact h.goTo rfl rfl (fun hpc => by cases hpc) fun _ hpc => by cases hpc
        · cases hstep
      · cases hstep
        exact h.goTo rfl rfl (fun hpc => by cases hpc) fun _ hpc => by cases hpc
    case h_7 =>
      cases hstep
      exact h.goTo rfl rfl (fun hpc => by cases hpc) fun _ hpc => by cases hpc
    case h_8 => cases hstep

/-- What is done and what is left after the flag. -/
structure Stopping (timers messages : ℕ) (l : LoopState σ) : Prop where
  stop : l.stop = true
  timers : l.timers.length + l.pc.timersLeft ≤ timers
  messages : l.messages.length + l.pc.messagesLeft ≤ messages

theorem Stopping.step {n m : ℕ} {l l' : LoopState σ} {a : Act} (h : Stopping n m l)
    (hstep : loopStep entry l a = some l') : Stopping n m l' := by
  obtain ⟨hstop, htimers, hmessages⟩ := h
  cases a with
  | pass ns =>
    cases hstep
    exact ⟨hstop, htimers, hmessages⟩
  | arrive msg =>
    cases hstep
    exact ⟨hstop, htimers, hmessages⟩
  | requestStop =>
    cases hstep
    exact ⟨rfl, htimers, hmessages⟩
  | run us =>
    change loopRun entry us l = some l' at hstep
    unfold loopRun at hstep
    split at hstep
    case h_1 hpc =>
      rw [hpc] at htimers hmessages
      rw [if_pos hstop] at hstep
      cases hstep
      exact ⟨hstop, htimers, hmessages⟩
    case h_2 hpc =>
      rw [hpc] at htimers hmessages
      cases hstep
      refine ⟨hstop, Nat.le_trans (Nat.add_le_add_left ?_ _) htimers,
        Nat.le_trans (Nat.add_le_add_left ?_ _) hmessages⟩
      · by_cases hdue : l.nextTick ≤ l.now <;> simp [hdue, Pc.timersLeft]
      · by_cases hdue : l.nextTick ≤ l.now <;> simp [hdue, Pc.messagesLeft]
    case h_3 hpc =>
      -- the call that was left
      rw [hpc] at htimers hmessages
      cases hstep
      refine ⟨hstop, ?_, hmessages⟩
      show (l.timers ++ [_]).length + 0 ≤ n
      rw [List.length_append, List.length_singleton]
      exact htimers
    case h_4 again hpc =>
      rw [hpc] at htimers hmessages
      cases hstep
      exact ⟨hstop, htimers, hmessages⟩
    case h_5 hpc =>
      rw [hpc] at htimers hmessages
      split at hstep
      · cases hstep
        exact ⟨hstop, htimers, hmessages⟩
      · cases hstep
        exact ⟨hstop, htimers, hmessages⟩
    case h_6 hpc =>
      rw [hpc] at htimers hmessages
      split at hstep
      · split at hstep
        · cases hstep
          exact ⟨hstop, htimers, Nat.le_of_succ_le hmessages⟩
        · cases hstep
      · cases hstep
        exact ⟨hstop, htimers, hmessages⟩
    case h_7 msg hpc =>
      rw [hpc] at htimers hmessages
      cases hstep
      refine ⟨hstop, htimers, ?_⟩
      show (l.messages ++ [_]).length + 0 ≤ m
      rw [List.length_append, List.length_singleton]
      exact hmessages
    case h_8 => cases hstep

theorem Stopping.run {n m : ℕ} {l l' : LoopState σ} (h : Stopping n m l) {as : List Act}
    (hexec : exec (loopStep entry) l as = some l') : Stopping n m l' :=
  Reachable.invariant ⟨as, hexec⟩ h fun _ _ _ => Stopping.step

/-- The thread's own steps to the end of the loop at most, from the wait on. -/
def MailState.toEnd (s : MailState σ) : ℕ :=
  match s.loop.pc with
  | .head => 1
  | .handle _ => 2
  | .wait =>
    match s.mon.waiter with
    | .out => 5
    | .holding =>
      match s.stage with
      | .pop => 3
      | .test => 4
      | .clock => 5
    | .awake => 6
    | .asleep => 6
    | .decided => 7
  | _ => 0

/-- The flag is stored, the tick of the turn is over, and up to `n` steps are left. -/
structure Ending (n : ℕ) (s : MailState σ) : Prop where
  stop : s.loop.stop = true
  ending : s.loop.pc.ending = true
  steps : s.toEnd ≤ n

/-- **A step towards the end.** -/
theorem Ending.run {n : ℕ} (h : Ending n s) (hstep : mailRun entry us s = some t) :
    Ending (n - 1) t := by
  obtain ⟨hstop, hending, hsteps⟩ := h
  rcases mailRun_cases hstep with ⟨hpc, hwait⟩ | ⟨hpc, l, hl, rfl⟩
  · unfold waitRun at hwait
    simp only [MailState.toEnd, hpc] at hsteps
    split at hwait
    case h_1 hw =>
      rw [hw] at hsteps
      split at hwait
      · cases hwait
        refine ⟨hstop, hending, ?_⟩
        simp only [MailState.toEnd, hpc, Monitor.acquire]
        exact Nat.sub_le_sub_right hsteps 1
      · cases hwait
    case h_2 hw =>
      rw [hw] at hsteps
      split at hwait
      case h_1 hstage =>
        -- the predicate sees the flag
        rw [hstop, Bool.or_true, if_pos rfl] at hwait
        rw [hstage] at hsteps
        cases hwait
        refine ⟨hstop, hending, ?_⟩
        simp only [MailState.toEnd, hpc, hw]
        exact Nat.sub_le_sub_right hsteps 1
      case h_2 hstage =>
        rw [hstage] at hsteps
        change 5 ≤ n at hsteps
        cases hwait
        refine ⟨hstop, hending, ?_⟩
        simp only [MailState.toEnd, hpc, hw]
        by_cases hpassed : s.loop.nextTick ≤ s.loop.now
        · simp only [if_pos hpassed]
          omega
        · simp only [if_neg hpassed]
          omega
      case h_3 hstage =>
        rw [hstage] at hsteps
        change 3 ≤ n at hsteps
        split at hwait
        · cases hwait
          exact ⟨hstop, rfl, (by omega : 1 ≤ n - 1)⟩
        · cases hwait
          exact ⟨hstop, rfl, (by omega : 2 ≤ n - 1)⟩
    case h_3 hw =>
      rw [hw] at hsteps
      cases hwait
      refine ⟨hstop, hending, ?_⟩
      simp only [MailState.toEnd, hpc, Monitor.sleep]
      exact Nat.sub_le_sub_right hsteps 1
    case h_4 hw => cases hwait
    case h_5 hw =>
      rw [hw] at hsteps
      split at hwait
      · cases hwait
        refine ⟨hstop, hending, ?_⟩
        simp only [MailState.toEnd, hpc, Monitor.acquire]
        exact Nat.sub_le_sub_right hsteps 1
      · cases hwait
  · unfold loopRun at hl
    split at hl
    case h_1 hhead =>
      rw [if_pos hstop] at hl
      cases hl
      exact ⟨hstop, rfl, Nat.zero_le _⟩
    case h_7 msg hhandle =>
      rw [MailState.toEnd, hhandle] at hsteps
      change 2 ≤ n at hsteps
      cases hl
      exact ⟨hstop, rfl, (by omega : 1 ≤ n - 1)⟩
    case h_6 hw => exact absurd hw hpc
    case h_8 => cases hl
    case h_2 hw =>
      rw [hw] at hending
      cases hending
    case h_3 hw =>
      rw [hw] at hending
      cases hending
    case h_4 again hw =>
      rw [hw] at hending
      cases hending
    case h_5 hw =>
      rw [hw] at hending
      cases hending

/-- The other acts take nothing off, and add nothing. -/
theorem Ending.other {n : ℕ} (h : Ending n s) (hstop : t.loop.stop = true)
    (hpc : t.loop.pc = s.loop.pc) (hstage : t.stage = s.stage)
    (hmon : t.mon.waiter = s.mon.waiter ∨ t.mon.waiter = .awake ∧ s.mon.waiter = .asleep) :
    Ending n t where
  stop := hstop
  ending := by
    rw [hpc]
    exact h.ending
  steps := by
    refine Nat.le_trans (Nat.le_of_eq ?_) h.steps
    unfold MailState.toEnd
    rw [hpc, hstage]
    rcases hmon with hmon | ⟨hawake, hasleep⟩
    · rw [hmon]
    · rw [hawake, hasleep]

/-- The end of a sleep, if there is one. -/
theorem waiter_wake_cases (m : Monitor ℕ) :
    m.wake.waiter = m.waiter ∨ m.wake.waiter = .awake ∧ m.waiter = .asleep := by
  by_cases hasleep : m.waiter = .asleep
  · right
    refine ⟨?_, hasleep⟩
    unfold Monitor.wake
    rw [hasleep]
  · exact Or.inl (by rw [Monitor.wake_eq hasleep])

theorem Ending.step {n : ℕ} {a : MailAct} (h : Ending n s)
    (hstep : mailStep entry s a = some t) : Ending (n - ownMailSteps [a]) t := by
  cases a with
  | pass ns =>
    cases hstep
    exact h.other h.stop rfl rfl (Or.inl rfl)
  | send i msg =>
    obtain ⟨-, rfl⟩ := begins hstep
    exact h.other h.stop rfl rfl (Or.inl rfl)
  | requestStop i =>
    obtain ⟨-, rfl⟩ := begins hstep
    exact h.other rfl rfl rfl (Or.inl rfl)
  | caller i =>
    cases callerEffect hstep with
    | lock msg hi hfree => exact h.other h.stop rfl rfl (Or.inl rfl)
    | push msg hi => exact h.other h.stop rfl rfl (Or.inl rfl)
    | unlock hi => exact h.other h.stop rfl rfl (Or.inl rfl)
    | notify hi => exact h.other h.stop rfl rfl (waiter_wake_cases s.mon)
  | wake =>
    obtain ⟨-, rfl⟩ := wakes hstep
    exact h.other h.stop rfl rfl (waiter_wake_cases s.mon)
  | run us => exact h.run hstep

theorem Ending.exec : ∀ {as : List MailAct} {s t : MailState σ} {n : ℕ}, Ending n s →
    Infra.exec (mailStep entry) s as = some t → Ending (n - ownMailSteps as) t
  | [], s, t, n, h, hexec => by
    cases hexec
    exact h
  | a :: as, s, t, n, h, hexec => by
    rw [exec_cons, Option.bind_eq_some_iff] at hexec
    obtain ⟨u, hu, hrest⟩ := hexec
    have hsum : ownMailSteps (a :: as) = ownMailSteps [a] + ownMailSteps as := by
      rw [← List.singleton_append, ownMailSteps, List.countP_append]
      rfl
    rw [hsum, Nat.sub_add_eq]
    exact (h.step hu).exec hrest

/-- No more steps than seven, and only the end has none. -/
theorem toEnd_le (s : MailState σ) : s.toEnd ≤ 7 := by
  unfold MailState.toEnd
  split
  case h_3 =>
    split
    case h_2 => split <;> simp
    all_goals simp
  all_goals simp

theorem eq_stopped_of_toEnd (hending : s.loop.pc.ending = true) (h : s.toEnd = 0) :
    s.loop.pc = .stopped := by
  unfold MailState.toEnd at h
  split at h
  case h_1 => cases h
  case h_2 => cases h
  case h_3 =>
    split at h
    case h_2 => split at h <;> cases h
    all_goals cases h
  case h_4 hhead hhandle hwait =>
    cases hpc : s.loop.pc with
    | stopped => rfl
    | head => exact absurd hpc hhead
    | handle msg => exact absurd hpc (hhandle msg)
    | wait => exact absurd hpc hwait
    | check =>
      rw [hpc] at hending
      cases hending
    | dispatch =>
      rw [hpc] at hending
      cases hending
    | advance again =>
      rw [hpc] at hending
      cases hending
    | advanced =>
      rw [hpc] at hending
      cases hending

end Stop

theorem stopLaw_of_inv {entry : UInt64 → EntryCall → σ → σ} {s : MailState σ} (hwait : WaitInv s)
    (hnear : NearInv s.loop) : StopLaw entry s where
  period := hnear.period
  timers := by
    intro hstop as t hexec
    obtain ⟨bs, hbs⟩ := exists_loop_run hwait hexec
    have hstopping := Stopping.run ⟨hstop, Nat.le_refl _, Nat.le_refl _⟩ hbs
    exact Nat.le_trans (Nat.le_add_right _ _) hstopping.timers
  messages := by
    intro hstop as t hexec
    obtain ⟨bs, hbs⟩ := exists_loop_run hwait hexec
    have hstopping := Stopping.run ⟨hstop, Nat.le_refl _, Nat.le_refl _⟩ hbs
    exact Nat.le_trans (Nat.le_add_right _ _) hstopping.messages
  ends := by
    intro hstop hending as t hexec hown
    have hend : Ending (7 - ownMailSteps as) t := Ending.exec ⟨hstop, hending, toEnd_le s⟩ hexec
    refine eq_stopped_of_toEnd hend.ending ?_
    have hzero : 7 - ownMailSteps as = 0 := Nat.sub_eq_zero_of_le hown
    exact Nat.le_zero.mp (hzero ▸ hend.steps)

/--
**The stop under any interleaving.** One call at a deadline and one message at most come behind the
flag, the loop ends in a few steps of its own, and a sleep over a lost notification takes 100 ms at
most.
-/
theorem stopLaw_of_run (entry : UInt64 → EntryCall → σ → σ) (t0 : ℕ) (world : σ)
    (as : List MailAct) :
    AllStates (mailStep entry) (StopLaw entry) (MailState.init t0 world) as := by
  refine (allStates_iff_prefixes as _).mpr ?_
  intro pre _ s hs
  obtain ⟨hwait, -, -⟩ := reachable_inv ⟨pre, hs⟩
  obtain ⟨bs, hbs⟩ := exists_loop_run (waitInv_init t0 world) hs
  exact stopLaw_of_inv hwait (Reachable.invariant ⟨bs, hbs⟩ (nearInv_init t0 world) fun _ _ _ =>
    loopStep_near)

/--
**The flag without the mutex.** A run never lets the thread go to sleep over a stop, with nobody
left to wake it, exactly when no last notification comes between the test and the sleep.
-/
theorem stopHeard_iff (entry : UInt64 → EntryCall → σ → σ) (t0 : ℕ) (world : σ)
    (as : List MailAct) :
    AllStates (mailStep entry) StopHeard (MailState.init t0 world) as ↔
      AllSteps (mailStep entry) NotBeforeSleep (MailState.init t0 world) as := by
  refine allStates_iff_allSteps (fun s => WaitInv s ∧ StopHeard s) (fun _ h => h.2) ?_ ?_ as _ ?_
  · exact fun _ _ _ => mailStep_stopHeard
  · exact fun _ _ _ _ => notBeforeSleep_of_stopHeard
  · refine ⟨waitInv_init t0 world, ?_⟩
    intro hw
    rcases hw with hw | hw <;> cases hw

/-- The notification comes when the thread has tested the flag and does not sleep yet. -/
example : (exec (mailStep noEntry) (MailState.init 0 ())
      [.run 0, .run 0, .run 0, .run 0, .requestStop 7, .caller 7, .run 0]).map
    (fun s => (s.mon.waiter, s.loop.stop, (s.callers 7).owes)) = some (.asleep, true, false) := by
  decide

end Dts.Thread
