import Dts.Console.Control
import Mathlib.Data.List.Nodup
import Mathlib.Data.List.Perm.Basic

/-!
# Who completes a job

* `Accounted` — every pushed job that is not done is in the queue of a live control loop, or
  is the one this loop has taken
* `Served` — every session that waits waits for a job that some thread will complete

`PushJob` does not look at the stop flag, so a session that has read its line before the control
thread exits and pushes after it waits for ever: both properties hold exactly in the runs without
such a push (`Accounted` also says nothing about the jobs that `control_stop` takes over, so it
needs the queue to be empty then).

The jobs in flight are those in the queue, the one the control thread has taken and those that
`control_stop` has taken over. `Ledger` relates them to the jobs pushed and done.
-/

namespace Dts.Console

open Infra

variable {s t : State} {jobs jobs' : JobId → Job} {next next' : Nat}
  {pushed flight flight' : List JobId} {j : JobId}

/-! ## The properties -/

/-- In the queue of a control loop that has not exited, or taken by it. -/
def State.HasWorker (s : State) (j : JobId) : Prop :=
  (j ∈ s.queue ∧ s.control ≠ .exited) ∨ s.control.job = some j

/-- Every job that is not done has somebody who will complete it. -/
def State.Accounted (s : State) : Prop :=
  ∀ j ∈ s.pushed, (s.jobs j).done = false → s.HasWorker j

/-- And so has every session that waits. -/
def State.Served (s : State) : Prop :=
  ∀ c j, s.sessions c = .waiting j → (s.jobs j).done = false →
    s.HasWorker j ∨ j ∈ s.stop.pending

/-- Sessions push only while the control loop has not exited. -/
def PushBeforeExit (s : State) : Action → Prop
  | .submit c => (s.sessions c).pushes = true → s.control ≠ .exited
  | _ => True

/-- `control_stop` finds no job in the queue. -/
def DrainsNothing (s : State) : Action → Prop
  | .stopDrain => s.queue = []
  | _ => True

/-! ## Jobs in flight -/

/-- The jobs pushed and not done are those in flight, each once. -/
structure Ledger (jobs : JobId → Job) (next : Nat) (pushed flight : List JobId) : Prop where
  nodup : flight.Nodup
  made : ∀ j ∈ pushed, j < next
  known : ∀ j ∈ flight, j ∈ pushed
  undone : ∀ j ∈ flight, (jobs j).done = false
  tracked : ∀ j ∈ pushed, (jobs j).done = false → j ∈ flight

namespace Ledger

theorem perm (h : Ledger jobs next pushed flight) (hp : flight'.Perm flight) :
    Ledger jobs next pushed flight' where
  nodup := hp.nodup_iff.mpr h.nodup
  made := h.made
  known := fun j hj => h.known j (hp.mem_iff.mp hj)
  undone := fun j hj => h.undone j (hp.mem_iff.mp hj)
  tracked := fun j hj hd => hp.mem_iff.mpr (h.tracked j hj hd)

/-- Only `done` of the jobs made matters. -/
theorem congr (h : Ledger jobs next pushed flight)
    (hdone : ∀ j < next, (jobs' j).done = (jobs j).done) (hnext : next ≤ next') :
    Ledger jobs' next' pushed flight where
  nodup := h.nodup
  made := fun j hj => (h.made j hj).trans_le hnext
  known := h.known
  undone := fun j hj => by rw [hdone j (h.made j (h.known j hj))]; exact h.undone j hj
  tracked := fun j hj hd => h.tracked j hj (by rwa [← hdone j (h.made j hj)])

/-- A new job is pushed. -/
theorem push (h : Ledger jobs next pushed flight) {job : Job} (hjob : job.done = false) :
    Ledger (Function.update jobs next job) (next + 1) (pushed ++ [next]) (next :: flight) := by
  have hold : ∀ j < next, (Function.update jobs next job j).done = (jobs j).done := by
    intro j hj
    rw [Function.update_of_ne hj.ne]
  have hfresh : next ∉ flight := fun hn => absurd (h.made next (h.known next hn)) (lt_irrefl _)
  have h' : Ledger (Function.update jobs next job) (next + 1) pushed flight :=
    h.congr hold (Nat.le_succ next)
  refine ⟨List.nodup_cons.mpr ⟨hfresh, h.nodup⟩, fun j hj => ?_, fun j hj => ?_, fun j hj => ?_,
    fun j hj hd => ?_⟩
  · rcases List.mem_append.mp hj with hj | hj
    · exact h'.made j hj
    · rw [List.mem_singleton.mp hj]
      exact Nat.lt_succ_self next
  · rcases List.mem_cons.mp hj with rfl | hj
    · simp
    · exact List.mem_append_left _ (h.known j hj)
  · rcases List.mem_cons.mp hj with rfl | hj
    · simpa using hjob
    · exact h'.undone j hj
  · rcases List.mem_append.mp hj with hj | hj
    · exact List.mem_cons_of_mem _ (h'.tracked j hj hd)
    · exact List.mem_cons.mpr (Or.inl (List.mem_singleton.mp hj))

/-- A job in flight is marked done. -/
theorem finish (h : Ledger jobs next pushed (j :: flight)) {job : Job} (hjob : job.done = true) :
    Ledger (Function.update jobs j job) next pushed flight := by
  obtain ⟨hj, hnodup⟩ := List.nodup_cons.mp h.nodup
  refine ⟨hnodup, h.made, fun i hi => h.known i (List.mem_cons_of_mem _ hi), fun i hi => ?_,
    fun i hi hd => ?_⟩
  · have hne : i ≠ j := fun heq => hj (heq ▸ hi)
    rw [Function.update_of_ne hne]
    exact h.undone i (List.mem_cons_of_mem _ hi)
  · rcases eq_or_ne i j with rfl | hne
    · rw [Function.update_self, hjob] at hd
      cases hd
    · rw [Function.update_of_ne hne] at hd
      rcases List.mem_cons.mp (h.tracked i hi hd) with rfl | hi
      · exact absurd rfl hne
      · exact hi

end Ledger

/-! ## The invariant -/

/-- In the queue, in the hands of the control thread, and taken by `control_stop`. -/
def State.inFlight (s : State) : List JobId :=
  s.queue ++ (s.control.job.toList ++ s.stop.pending)

/-- A session waits for a job that was pushed or is done. -/
def WaitsOk (s : State) (j : JobId) : Prop :=
  j < s.next ∧ (j ∈ s.pushed ∨ (s.jobs j).done = true)

/-- The ledger, and where the threads are. -/
structure Inv (s : State) : Prop where
  ledger : Ledger s.jobs s.next s.pushed s.inFlight
  sessions : ∀ c j, s.sessions c = .waiting j → WaitsOk s j
  exited : s.control = .exited → s.controlStop = true

theorem inv_init : Inv State.init where
  ledger := ⟨List.nodup_nil, by simp [State.init], by simp [State.init, State.inFlight, Control.job,
    Stop.pending], by simp [State.init, State.inFlight, Control.job, Stop.pending],
    by simp [State.init]⟩
  sessions := fun c j h => by simp [State.init] at h
  exited := by rintro ⟨⟩

/-- A session moves to a place where it does not wait. -/
theorem Inv.setSession (h : Inv s) (c : Nat) {session : Session}
    (hsession : ∀ j, session = .waiting j → WaitsOk s j) : Inv (s.setSession c session) := by
  refine ⟨h.ledger, fun d j hd => ?_, h.exited⟩
  rcases eq_or_ne d c with rfl | hne
  · exact hsession j (by simpa [State.setSession] using hd)
  · exact h.sessions d j (by simpa [State.setSession, Function.update_of_ne hne] using hd)

/-- A finished job outside the queue: the overlong line. -/
theorem Inv.make (h : Inv s) {job : Job} : Inv (s.make job) := by
  have hold : ∀ j < s.next, (s.make job).jobs j = s.jobs j :=
    fun j hj => Function.update_of_ne hj.ne ..
  refine ⟨h.ledger.congr (fun j hj => by rw [hold j hj]) (Nat.le_succ _), fun c j hc => ?_, h.exited⟩
  obtain ⟨hlt, hj⟩ := h.sessions c j hc
  refine ⟨hlt.trans (Nat.lt_succ_self _), ?_⟩
  rwa [hold j hlt]

theorem Inv.push (h : Inv s) {job : Job} (hjob : job.done = false) : Inv (s.push job) := by
  refine ⟨(h.ledger.push hjob).perm ?_, fun c j hc => ?_, h.exited⟩
  · show ((s.queue ++ [s.next]) ++ (s.control.job.toList ++ s.stop.pending)).Perm _
    rw [List.append_assoc]
    exact List.perm_middle
  · obtain ⟨hlt, hj⟩ := h.sessions c j hc
    refine ⟨hlt.trans (Nat.lt_succ_self _), hj.imp (List.mem_append_left _) ?_⟩
    intro hd
    show (Function.update s.jobs s.next job j).done = true
    rwa [Function.update_of_ne hlt.ne]

/-- Jobs change hands, and `done` of every job made stays or becomes true. -/
theorem Inv.move (h : Inv s) (hledger : Ledger t.jobs t.next t.pushed t.inFlight)
    (hsessions : t.sessions = s.sessions) (hnext : t.next = s.next) (hpushed : t.pushed = s.pushed)
    (hdone : ∀ j, (s.jobs j).done = true → (t.jobs j).done = true)
    (hexited : t.control = .exited → t.controlStop = true) : Inv t := by
  refine ⟨hledger, fun c j hc => ?_, hexited⟩
  rw [hsessions] at hc
  obtain ⟨hlt, hj⟩ := h.sessions c j hc
  exact ⟨hnext ▸ hlt, hj.imp (fun hp => hpushed ▸ hp) (hdone j)⟩

theorem done_update_resp (j : JobId) (resp : Bytes) (i : JobId) :
    (Function.update jobs j { jobs j with resp := resp } i).done = (jobs i).done := by
  rcases eq_or_ne i j with rfl | hne
  · rw [Function.update_self]
  · rw [Function.update_of_ne hne]

theorem done_markDone (s : State) (j i : JobId) (h : (s.jobs i).done = true) :
    ((s.markDone j).jobs i).done = true := by
  rcases eq_or_ne i j with rfl | hne
  · simp [State.markDone]
  · simpa [State.markDone, Function.update_of_ne hne] using h

/-! ## Steps -/

/-- **Step lemma.** -/
theorem step_inv {a : Action} (h : Inv s) (hstep : step s a = some t) : Inv t := by
  cases effect_of_step hstep with
  | accept c session hidle | enter c session hidle | readLine c result session hidle
  | respond c sent session hidle => exact h.setSession c fun j hj => absurd hj (hidle j)
  | overlong c job hread hdone =>
    refine h.make.setSession c ?_
    intro j hj
    cases hj
    exact ⟨Nat.lt_succ_self _, Or.inr (by simpa [State.make] using hdone)⟩
  | push c job hread hdone =>
    refine (h.push hdone).setSession c ?_
    intro j hj
    cases hj
    exact ⟨Nat.lt_succ_self _, Or.inl (by simp [State.push])⟩
  | pushDds line job hdone hstop => exact h.push hdone
  | refuseDds line => exact h
  | take j queue hcontrol hqueue =>
    refine h.move (h.ledger.perm ?_) rfl rfl rfl (fun _ hd => hd) (by rintro ⟨⟩)
    -- the head of the queue is now the job taken
    show (queue ++ ([j] ++ s.stop.pending)).Perm s.inFlight
    simp only [State.inFlight, Control.job, hcontrol, hqueue, Option.toList, List.nil_append,
      List.cons_append]
    exact List.perm_middle
  | exit hcontrol hqueue hstop =>
    refine h.move (h.ledger.perm ?_) rfl rfl rfl (fun _ hd => hd) fun _ => hstop
    simp [State.inFlight, Control.job, hcontrol, hqueue]
  | execute j resp hcontrol =>
    have hledger := h.ledger.congr (fun i _ => done_update_resp j resp i) le_rfl
    refine h.move (hledger.perm ?_) rfl rfl rfl (fun i hd => ?_) (by rintro ⟨⟩)
    · simp [State.inFlight, Control.job, hcontrol, State.setResp]
    · exact (done_update_resp j resp i).trans hd
  | finish j hcontrol =>
    have hperm : (j :: (s.queue ++ s.stop.pending)).Perm s.inFlight := by
      simp only [State.inFlight, Control.job, hcontrol, Option.toList, List.cons_append,
        List.nil_append]
      exact List.perm_middle.symm
    exact h.move ((h.ledger.perm hperm).finish rfl) rfl rfl rfl (done_markDone s j) (by rintro ⟨⟩)
  | drain hstop =>
    refine h.move (h.ledger.perm ?_) rfl rfl rfl (fun _ hd => hd) fun _ => rfl
    -- the jobs of the queue are now pending
    show ([] ++ (s.control.job.toList ++ s.queue)).Perm s.inFlight
    simp only [State.inFlight, Stop.pending, hstop, List.nil_append, List.append_nil]
    exact List.perm_append_comm
  | mark j js resp hstop =>
    have hperm : (j :: (s.queue ++ (s.control.job.toList ++ js))).Perm s.inFlight := by
      simp only [State.inFlight, Stop.pending, hstop]
      rw [← List.append_assoc, ← List.append_assoc]
      exact List.perm_middle.symm
    have hledger := (h.ledger.perm hperm).congr (fun i _ => done_update_resp j resp i) le_rfl
    refine h.move (hledger.finish rfl) rfl rfl rfl (fun i hd => ?_) h.exited
    exact done_markDone (s.setResp j _) j i ((done_update_resp j _ i).trans hd)
  | join hstop hcontrol =>
    refine h.move (h.ledger.perm ?_) rfl rfl rfl (fun _ hd => hd) h.exited
    simp [State.inFlight, Stop.pending, hstop]
  | consoleDown hstop =>
    refine h.move (h.ledger.perm ?_) rfl rfl rfl (fun _ hd => hd) h.exited
    simp [State.inFlight, Stop.pending, hstop]

/-- The control loop exits on an empty queue, which stays empty. -/
def State.QueueLive (s : State) : Prop := s.control = .exited → s.queue = []

theorem step_queueLive {a : Action} (h : Inv s) (hq : s.QueueLive) (hpush : PushBeforeExit s a)
    (hstep : step s a = some t) : t.QueueLive := by
  cases effect_of_step hstep with
  | push c job hread hdone => exact fun he => absurd he (hpush hread)
  | pushDds line job hdone hstop =>
    -- the loop only exits after the flag is set, and the flag is what this path looks at
    intro he
    rw [h.exited he] at hstop
    cases hstop
  | take j queue hcontrol hqueue => rintro ⟨⟩
  | exit hcontrol hqueue hstop => exact fun _ => hqueue
  | execute j resp hcontrol => rintro ⟨⟩
  | finish j hcontrol => rintro ⟨⟩
  | drain hstop => exact fun _ => rfl
  | _ => exact hq

/-- Nothing is taken over from an empty queue. -/
theorem step_pending {a : Action} (hp : s.stop.pending = []) (hdrain : DrainsNothing s a)
    (hstep : step s a = some t) : t.stop.pending = [] := by
  cases effect_of_step hstep with
  | drain hstop => exact hdrain
  | mark j js resp hstop =>
    rw [hstop] at hp
    cases hp
  | join hstop hcontrol => rfl
  | consoleDown hstop => rfl
  | _ => exact hp

/-! ## Runs -/

/-- A job pushed and not done is in the queue, taken by the loop, or taken over. -/
theorem Inv.worker_or_pending (h : Inv s) (hq : s.QueueLive) (hj : j ∈ s.pushed)
    (hd : (s.jobs j).done = false) : s.HasWorker j ∨ j ∈ s.stop.pending := by
  rcases List.mem_append.mp (h.ledger.tracked j hj hd) with hj | hj
  · refine Or.inl (Or.inl ⟨hj, fun he => ?_⟩)
    rw [hq he] at hj
    cases hj
  · rcases List.mem_append.mp hj with hj | hj
    · exact Or.inl (Or.inr (by simpa using hj))
    · exact Or.inr hj

theorem Inv.served (h : Inv s) (hq : s.QueueLive) : s.Served := by
  intro c j hc hd
  obtain ⟨-, hj | hj⟩ := h.sessions c j hc
  · exact h.worker_or_pending hq hj hd
  · rw [hd] at hj
    cases hj

theorem Inv.accounted (h : Inv s) (hq : s.QueueLive) (hp : s.stop.pending = []) : s.Accounted := by
  intro j hj hd
  rcases h.worker_or_pending hq hj hd with hw | hpend
  · exact hw
  · rw [hp] at hpend
    cases hpend

/-- After the exit no job has a worker, wherever it is. -/
theorem no_worker_of_exited (he : s.control = .exited) (j : JobId) : ¬ s.HasWorker j := by
  rintro (⟨-, hne⟩ | hjob)
  · exact hne he
  · rw [he] at hjob
    cases hjob

theorem pushBeforeExit_of_served {a : Action} (h : Inv s) (hstep : step s a = some t)
    (hserved : t.Served) : PushBeforeExit s a := by
  cases effect_of_step hstep with
  | push c job hread hdone =>
    intro _ he
    have hundone : ((s.push job).jobs s.next).done = false := by
      simpa [State.push, State.make] using hdone
    rcases hserved c s.next (by simp [State.setSession]) hundone with hworker | hpend
    · exact no_worker_of_exited (s := (s.push job).setSession c _) he s.next hworker
    · have hflight : s.next ∈ s.inFlight := List.mem_append_right _ (List.mem_append_right _ hpend)
      exact absurd (h.ledger.made _ (h.ledger.known _ hflight)) (lt_irrefl _)
  | overlong c job hread hdone =>
    intro hpushes
    rw [hread] at hpushes
    cases hpushes
  | _ => trivial

theorem pushBeforeExit_of_accounted {a : Action} (hstep : step s a = some t)
    (hacc : t.Accounted) : PushBeforeExit s a := by
  cases effect_of_step hstep with
  | push c job hread hdone =>
    intro _ he
    refine no_worker_of_exited (s := (s.push job).setSession c _) he s.next (hacc s.next ?_ ?_)
    · simp [State.setSession, State.push]
    · simpa [State.setSession, State.push, State.make] using hdone
  | overlong c job hread hdone =>
    intro hpushes
    rw [hread] at hpushes
    cases hpushes
  | _ => trivial

theorem drainsNothing_of_accounted {a : Action} (h : Inv s) (hstep : step s a = some t)
    (hacc : t.Accounted) : DrainsNothing s a := by
  cases effect_of_step hstep with
  | drain hstop =>
    refine List.eq_nil_iff_forall_not_mem.mpr ?_
    intro j hj
    have hflight : j ∈ s.inFlight := List.mem_append_left _ hj
    rcases hacc j (h.ledger.known j hflight) (h.ledger.undone j hflight) with ⟨hnil, -⟩ | hjob
    · cases hnil
    · have hjob : s.control.job = some j := hjob
      have hdisj := (List.nodup_append'.mp h.ledger.nodup).2.2
      exact hdisj hj (List.mem_append_left _ (by simp [hjob]))
  | _ => trivial

/--
**Who completes a job.** In a run of sessions, control thread and shutdown, every job pushed and not
done is in the queue of a live control loop or taken by it exactly when sessions push only before
the loop exits and `control_stop` finds the queue empty; and no session waits for a job that nobody
completes exactly when sessions push only before the loop exits.
-/
theorem jobs_completed_iff (run : List Action) :
    (AllStates step State.Accounted State.init run ↔
      AllSteps step (fun s a => PushBeforeExit s a ∧ DrainsNothing s a) State.init run) ∧
    (AllStates step State.Served State.init run ↔
      AllSteps step PushBeforeExit State.init run) := by
  have hlive : State.init.QueueLive := fun _ => rfl
  constructor
  · refine allStates_iff_allSteps (fun s => Inv s ∧ s.QueueLive ∧ s.stop.pending = [])
      (fun s hs => hs.1.accounted hs.2.1 hs.2.2) (fun s a t hs hstep hc => ?_)
      (fun s a t hs hstep hacc => ?_) run _ ⟨inv_init, hlive, rfl⟩
    · exact ⟨step_inv hs.1 hstep, step_queueLive hs.1 hs.2.1 hc.1 hstep,
        step_pending hs.2.2 hc.2 hstep⟩
    · exact ⟨pushBeforeExit_of_accounted hstep hacc, drainsNothing_of_accounted hs.1 hstep hacc⟩
  · refine allStates_iff_allSteps (fun s => Inv s ∧ s.QueueLive)
      (fun s hs => hs.1.served hs.2) (fun s a t hs hstep hc => ?_)
      (fun s a t hs hstep hserved => ?_) run _ ⟨inv_init, hlive⟩
    · exact ⟨step_inv hs.1 hstep, step_queueLive hs.1 hs.2 hc hstep⟩
    · exact pushBeforeExit_of_served hs.1 hstep hserved

/-- A session has read a line, the control thread exits, the session pushes and waits. -/
def latePush : List Action :=
  [.accept 0, .enter 0, .readLine 0 (some (utf8 "ps", false)), .stopDrain, .nextJob, .submit 0]

/-- After it the job is not done, nobody has it, and the session waits for it. -/
theorem late_push_never_completed : ¬ ∀ run : List Action,
    AllStates step State.Accounted State.init run ∧ AllStates step State.Served State.init run := by
  intro hclaim
  have hend : (exec step State.init latePush).map (fun t =>
      (t.sessions 0, (t.jobs 0).done, t.control, t.stop)) =
        some (.waiting 0, false, .exited, .marking []) := by decide +kernel
  obtain ⟨t, ht, hval⟩ := Option.map_eq_some_iff.mp hend
  simp only [Prod.mk.injEq] at hval
  obtain ⟨hsession, hdone, hcontrol, hstop⟩ := hval
  have hserved := (hclaim latePush).2.last ht
  rcases hserved 0 0 hsession hdone with hworker | hpend
  · exact no_worker_of_exited hcontrol 0 hworker
  · rw [hstop] at hpend
    cases hpend

end Dts.Console
