import Dts.Console.Jobs
import Dts.Infra.Text

/-!
# Commands, one after the other

Commands come in from the sessions of the console and over DDS, into one queue. The control thread
executes them, answers those of DDS itself with `PublishCtlResp`, and wakes the session of the
others. `Dts.Console.Jobs` says who completes a job; here the histories of the calls say what is
answered. A response whose publish fails is an answer too: nothing looks at the result.

* `commandLaw_of_run` — in every interleaving the commands are executed in the order of the queue,
  and every answer is the answer to its own command
-/

namespace Dts.Console

open Infra

/-! ## The histories -/

/-- What a session sends behind one of its commands. -/
structure Reply where
  session : ℕ
  job : JobId
  text : Bytes
  sent : Bool

/-- What `PublishCtlResp` sends; `published` is false when it could not. -/
structure Response where
  job : JobId
  text : Bytes
  published : Bool

/-- `executed` are the jobs with what `Execute` answers, `drained` those `control_stop` took. -/
structure Commands where
  state : State
  executed : List (JobId × Bytes)
  drained : List JobId
  submitted : List (ℕ × JobId)
  replies : List Reply
  responses : List Response

def Commands.init : Commands := ⟨State.init, [], [], [], [], []⟩

/-- `"cmd=" + line + "\n" + out`. -/
def ctlResp (line out : Bytes) : Bytes := utf8 "cmd=" ++ (line ++ 10 :: out)

def executedBy (s : State) : Action → List (JobId × Bytes)
  | .execute resp =>
    match s.control with
    | .executing j => [(j, resp)]
    | _ => []
  | _ => []

def drainedBy (s : State) : Action → List JobId
  | .stopDrain => s.queue
  | _ => []

def submittedBy (s : State) : Action → List (ℕ × JobId)
  | .submit c => [(c, s.next)]
  | _ => []

def repliedBy (s : State) : Action → List Reply
  | .respond c sent =>
    match s.sessions c with
    | .waiting j => [⟨c, j, (s.jobs j).resp, sent⟩]
    | _ => []
  | _ => []

/-- The jobs of DDS are answered between `Execute` and the mark. -/
def respondedBy (s : State) (published : Bool) : Action → List Response
  | .finish =>
    match s.control with
    | .executed j =>
      if (s.jobs j).dds then [⟨j, ctlResp (s.jobs j).line (s.jobs j).resp, published⟩] else []
    | _ => []
  | _ => []

/-- A step, and whether `publish_external` would succeed. -/
def cmdStep (s : Commands) (a : Action × Bool) : Option Commands :=
  (step s.state a.1).map fun t => {
    state := t
    executed := s.executed ++ executedBy s.state a.1
    drained := s.drained ++ drainedBy s.state a.1
    submitted := s.submitted ++ submittedBy s.state a.1
    replies := s.replies ++ repliedBy s.state a.1
    responses := s.responses ++ respondedBy s.state a.2 a.1 }

/-! ## The law -/

/-- The job inside `Execute`. -/
def Control.inExecute : Control → List JobId
  | .executing j => [j]
  | _ => []

/-- The job that a session waits for. -/
def Session.waitsFor : Session → List JobId
  | .waiting j => [j]
  | _ => []

/-- The executed jobs that the control thread is through with. -/
def Commands.settled (s : Commands) : List (JobId × Bytes) :=
  match s.state.control with
  | .executed _ => s.executed.dropLast
  | _ => s.executed

/-- The answers to the commands of DDS among the executed jobs. -/
def owed (jobs : JobId → Job) (executed : List (JobId × Bytes)) : List (JobId × Bytes) :=
  (executed.filter fun e => (jobs e.1).dds).map fun e => (e.1, ctlResp (jobs e.1).line e.2)

/-- Where the text of an answer comes from. -/
def Commands.Answers (s : Commands) (j : JobId) (text : Bytes) : Prop :=
  (j, text) ∈ s.executed ∨ (j ∈ s.drained ∧ text = stoppedResp) ∨
    (j ∉ s.state.pushed ∧ text = tooLongResp)

/-- **The law.** -/
structure CommandLaw (s : Commands) : Prop where
  /-- one command is executed after the other, in the order of the queue, each once -/
  order : (s.state.pushed.filter fun j => j ∉ s.drained) =
    s.executed.map (·.1) ++ (s.state.control.inExecute ++ s.state.queue)
  once : s.state.pushed.Nodup
  /-- a session gets one answer to each of its commands before it sends the next -/
  session : ∀ c, (s.submitted.filter (·.1 = c)).map (·.2) =
    (s.replies.filter (·.session = c)).map (·.job) ++ (s.state.sessions c).waitsFor
  own : ∀ r ∈ s.replies, s.Answers r.job r.text
  /-- every command of DDS is answered in the order of execution, with its line and its output,
  whether or not the publish succeeds -/
  responses : s.responses.map (fun r => (r.job, r.text)) = owed s.state.jobs s.settled
  /-- so the text tells the line, when lines are one line each -/
  named : ∀ r ∈ s.responses, ∀ r' ∈ s.responses, r.text = r'.text →
    10 ∉ (s.state.jobs r.job).line → 10 ∉ (s.state.jobs r'.job).line →
      (s.state.jobs r.job).line = (s.state.jobs r'.job).line
  /-- and behind `control_stop` none is left that it has not taken -/
  complete : s.state.stop = .joined ∨ s.state.stop = .consoleDown →
    ∀ j ∈ s.state.pushed, (s.state.jobs j).dds = true →
      j ∈ s.drained ∨ ∃ r ∈ s.responses, r.job = j

/-! ## What a step does -/

/-- The steps with all that the histories need. -/
inductive Change (s : State) : Action → State → Prop
  | accept (c : ℕ) (session : Session) (hold : (s.sessions c).waitsFor = [])
      (hnew : session.waitsFor = []) : Change s (.accept c) (s.setSession c session)
  | enter (c : ℕ) (session : Session) (hold : (s.sessions c).waitsFor = [])
      (hnew : session.waitsFor = []) : Change s (.enter c) (s.setSession c session)
  | readLine (c : ℕ) (result : Option (Bytes × Bool)) (session : Session)
      (hold : (s.sessions c).waitsFor = []) (hnew : session.waitsFor = []) :
      Change s (.readLine c result) (s.setSession c session)
  | respond (c : ℕ) (sent : Bool) (j : JobId) (session : Session) (hold : s.sessions c = .waiting j)
      (hdone : (s.jobs j).done = true) (hnew : session.waitsFor = []) :
      Change s (.respond c sent) (s.setSession c session)
  | overlong (c : ℕ) (hold : (s.sessions c).waitsFor = []) : Change s (.submit c)
      ((s.make ⟨[], tooLongResp, true, false⟩).setSession c (.waiting s.next))
  | push (c : ℕ) (line : Bytes) (hold : (s.sessions c).waitsFor = []) : Change s (.submit c)
      ((s.push ⟨line, [], false, false⟩).setSession c (.waiting s.next))
  | pushDds (line : Bytes) (hstop : s.controlStop = false) :
      Change s (.submitDds line) (s.push ⟨line, [], false, true⟩)
  | refuseDds (line : Bytes) : Change s (.submitDds line) s
  | take (j : JobId) (queue : List JobId) (hcontrol : s.control = .waiting)
      (hqueue : s.queue = j :: queue) :
      Change s .nextJob { s with queue := queue, control := .executing j }
  | exit (hcontrol : s.control = .waiting) (hqueue : s.queue = []) :
      Change s .nextJob { s with control := .exited }
  | execute (j : JobId) (resp : Bytes) (hcontrol : s.control = .executing j) :
      Change s (.execute resp) { s.setResp j resp with control := .executed j }
  | finish (j : JobId) (hcontrol : s.control = .executed j) :
      Change s .finish { s.markDone j with control := .waiting }
  | drain (hstop : s.stop = .running) :
      Change s .stopDrain { s with controlStop := true, queue := [], stop := .marking s.queue }
  | mark (j : JobId) (js : List JobId) (hstop : s.stop = .marking (j :: js)) :
      Change s .stopMark { (s.setResp j stoppedResp).markDone j with stop := .marking js }
  | join (hcontrol : s.control = .exited) (hstop : s.stop = .marking []) :
      Change s .stopJoin { s with stop := .joined }
  | consoleDown (hstop : s.stop = .joined) :
      Change s .consoleStop { s with consoleStop := true, stop := .consoleDown }

/-- **Inversion.** -/
theorem change_of_step {s t : State} {a : Action} (hstep : step s a = some t) : Change s a t := by
  cases a with
  | accept c =>
    simp only [step, accept] at hstep
    split at hstep
    · rename_i h
      cases hstep
      exact .accept c .looping (by rw [h.1]; rfl) rfl
    · cases hstep
  | enter c =>
    simp only [step, enter] at hstep
    split at hstep
    · rename_i h
      cases hstep
      exact .enter c _ (by rw [h]; rfl) (by split <;> rfl)
    · cases hstep
  | readLine c result =>
    simp only [step, readLine] at hstep
    split at hstep
    · rename_i h
      cases hstep
      exact .readLine c _ _ (by rw [h]; rfl) rfl
    · rename_i h
      cases hstep
      exact .readLine c _ _ (by rw [h]; rfl) (by split <;> rfl)
    · cases hstep
  | submit c =>
    simp only [step, submit] at hstep
    split at hstep
    · rename_i h
      cases hstep
      exact .overlong c (by rw [h]; rfl)
    · rename_i line h
      cases hstep
      exact .push c line (by rw [h]; rfl)
    · cases hstep
  | respond c sent =>
    simp only [step, respond] at hstep
    split at hstep
    · rename_i j h
      split at hstep
      · rename_i hdone
        cases hstep
        exact .respond c sent j _ h hdone (by split <;> rfl)
      · cases hstep
    · cases hstep
  | submitDds line =>
    cases hstep
    unfold controlSubmitDds
    split
    · exact .refuseDds line
    · split
      · exact .refuseDds line
      · split
        · exact .refuseDds line
        · rename_i hstop
          exact .pushDds line (eq_false_of_ne_true hstop)
  | nextJob =>
    simp only [step, nextJob] at hstep
    split at hstep
    · rename_i hcontrol
      split at hstep
      · rename_i hqueue
        split at hstep
        · cases hstep
          exact .exit hcontrol hqueue
        · cases hstep
      · rename_i j queue hqueue
        cases hstep
        exact .take j queue hcontrol hqueue
    · cases hstep
  | execute resp =>
    simp only [step, execute] at hstep
    split at hstep
    · rename_i j hcontrol
      cases hstep
      exact .execute j resp hcontrol
    · cases hstep
  | finish =>
    simp only [step, finish] at hstep
    split at hstep
    · rename_i j hcontrol
      cases hstep
      exact .finish j hcontrol
    · cases hstep
  | stopDrain =>
    simp only [step, stopDrain] at hstep
    split at hstep
    · rename_i hstop
      cases hstep
      exact .drain hstop
    · cases hstep
  | stopMark =>
    simp only [step, stopMark] at hstep
    split at hstep
    · rename_i j js hstop
      cases hstep
      exact .mark j js hstop
    · cases hstep
  | stopJoin =>
    simp only [step, stopJoin] at hstep
    split at hstep
    · rename_i hstop
      split at hstep
      · rename_i hcontrol
        cases hstep
        exact .join hcontrol hstop
      · cases hstep
    · cases hstep
  | consoleStop =>
    simp only [step, consoleStop] at hstep
    split at hstep
    · rename_i hstop
      cases hstep
      exact .consoleDown hstop
    · cases hstep

/-- A write to a job that keeps its line and where it comes from. -/
theorem same_update (jobs : JobId → Job) (i : JobId) (job : Job) (hdds : job.dds = (jobs i).dds)
    (hline : job.line = (jobs i).line) (j : JobId) :
    (Function.update jobs i job j).dds = (jobs j).dds ∧
      (Function.update jobs i job j).line = (jobs j).line := by
  by_cases hji : j = i
  · rw [hji, Function.update_self]
    exact ⟨hdds, hline⟩
  · rw [Function.update_of_ne hji]
    exact ⟨rfl, rfl⟩

theorem next_le {s t : State} {a : Action} (h : Change s a t) : s.next ≤ t.next := by
  cases h with
  | overlong c | push c line | pushDds line => exact Nat.le_succ _
  | _ => exact le_rfl

/-- The jobs made so far keep their line and where they come from. -/
theorem same_job {s t : State} {a : Action} (h : Change s a t) {j : JobId} (hj : j < s.next) :
    (t.jobs j).dds = (s.jobs j).dds ∧ (t.jobs j).line = (s.jobs j).line := by
  have hmade (job : Job) : Function.update s.jobs s.next job j = s.jobs j :=
    Function.update_of_ne hj.ne ..
  cases h with
  | overlong c =>
    have hsame := hmade ⟨[], tooLongResp, true, false⟩
    exact ⟨congrArg Job.dds hsame, congrArg Job.line hsame⟩
  | push c line =>
    have hsame := hmade ⟨line, [], false, false⟩
    exact ⟨congrArg Job.dds hsame, congrArg Job.line hsame⟩
  | pushDds line =>
    have hsame := hmade ⟨line, [], false, true⟩
    exact ⟨congrArg Job.dds hsame, congrArg Job.line hsame⟩
  | execute i resp =>
    exact same_update s.jobs i { s.jobs i with resp := resp } rfl rfl j
  | finish i => exact same_update s.jobs i { s.jobs i with done := true } rfl rfl j
  | mark i js =>
    let stopped := s.setResp i stoppedResp
    obtain ⟨hdds, hline⟩ :=
      same_update s.jobs i { s.jobs i with resp := stoppedResp } rfl rfl j
    obtain ⟨hdds', hline'⟩ :=
      same_update stopped.jobs i { stopped.jobs i with done := true } rfl rfl j
    exact ⟨hdds'.trans hdds, hline'.trans hline⟩
  | _ => exact ⟨rfl, rfl⟩

/-- How a job comes to be done. -/
theorem done_cases {s t : State} {a : Action} (hinv : Inv s) (h : Change s a t) {j : JobId}
    (hj : j < t.next) (hdone : (t.jobs j).done = true) :
    (j < s.next ∧ (s.jobs j).done = true ∧ (t.jobs j).resp = (s.jobs j).resp) ∨
      (j < s.next ∧ s.control = .executed j ∧ (t.jobs j).resp = (s.jobs j).resp) ∨
      (j ∈ s.stop.pending ∧ (t.jobs j).resp = stoppedResp) ∨
      (j ∉ t.pushed ∧ (t.jobs j).resp = tooLongResp) := by
  have hflight : ∀ i ∈ s.inFlight, i < s.next ∧ (s.jobs i).done = false :=
    fun i hi => ⟨hinv.ledger.made i (hinv.ledger.known i hi), hinv.ledger.undone i hi⟩
  -- a new job that is not done is not the one
  have hnew (job : Job) (hundone : job.done = false) (hlt : j < s.next + 1)
      (hdone : (Function.update s.jobs s.next job j).done = true) :
      j < s.next ∧ (s.jobs j).done = true ∧
        (Function.update s.jobs s.next job j).resp = (s.jobs j).resp := by
    by_cases hjn : j = s.next
    · rw [hjn, Function.update_self, hundone] at hdone
      cases hdone
    · rw [Function.update_of_ne hjn] at hdone ⊢
      exact ⟨lt_of_le_of_ne (Nat.le_of_lt_succ hlt) hjn, hdone, rfl⟩
  cases h with
  | overlong c =>
    by_cases hjn : j = s.next
    · subst hjn
      refine Or.inr (Or.inr (Or.inr ⟨fun hmem => ?_, ?_⟩))
      · exact absurd (hinv.ledger.made _ hmem) (lt_irrefl _)
      · simp [State.setSession, State.make]
    · have hsame : (s.make ⟨[], tooLongResp, true, false⟩).jobs j = s.jobs j :=
        Function.update_of_ne hjn ..
      exact Or.inl ⟨lt_of_le_of_ne (Nat.le_of_lt_succ hj) hjn,
        (congrArg Job.done hsame).symm.trans hdone, congrArg Job.resp hsame⟩
  | push c line => exact Or.inl (hnew ⟨line, [], false, false⟩ rfl hj hdone)
  | pushDds line => exact Or.inl (hnew ⟨line, [], false, true⟩ rfl hj hdone)
  | execute i resp hcontrol =>
    have hi : (s.jobs i).done = false :=
      (hflight i (by simp [State.inFlight, hcontrol, Control.job])).2
    by_cases hji : j = i
    · subst hji
      have hdone : (s.jobs j).done = true := by simpa [State.setResp] using hdone
      rw [hi] at hdone
      cases hdone
    · have hsame : (s.setResp i resp).jobs j = s.jobs j := Function.update_of_ne hji ..
      exact Or.inl ⟨hj, (congrArg Job.done hsame).symm.trans hdone, congrArg Job.resp hsame⟩
  | finish i hcontrol =>
    by_cases hji : j = i
    · subst hji
      exact Or.inr (Or.inl ⟨hj, hcontrol, by simp [State.markDone]⟩)
    · have hsame : (s.markDone i).jobs j = s.jobs j := Function.update_of_ne hji ..
      exact Or.inl ⟨hj, (congrArg Job.done hsame).symm.trans hdone, congrArg Job.resp hsame⟩
  | mark i js hstop =>
    by_cases hji : j = i
    · subst hji
      refine Or.inr (Or.inr (Or.inl ⟨by simp [hstop, Stop.pending], ?_⟩))
      simp [State.markDone, State.setResp]
    · have hsame : ((s.setResp i stoppedResp).markDone i).jobs j = s.jobs j :=
        (Function.update_of_ne hji ..).trans (Function.update_of_ne hji ..)
      exact Or.inl ⟨hj, (congrArg Job.done hsame).symm.trans hdone, congrArg Job.resp hsame⟩
  | _ => exact Or.inl ⟨hj, hdone, rfl⟩

/-! ## The order -/

/-- The queue behind the executed jobs, without those that `control_stop` took. -/
structure OrderInv (s : Commands) : Prop where
  order : (s.state.pushed.filter fun j => j ∉ s.drained) =
    s.executed.map (·.1) ++ (s.state.control.inExecute ++ s.state.queue)
  once : s.state.pushed.Nodup
  known : ∀ j ∈ s.drained, j ∈ s.state.pushed
  fresh : s.state.stop = .running → s.drained = []

variable {s t : Commands} {a : Action} {published : Bool}

/-- The jobs move on from the queue to the executed ones. -/
theorem OrderInv.move (h : OrderInv s) (hpushed : t.state.pushed = s.state.pushed)
    (hdrained : t.drained = s.drained)
    (hjobs : t.executed.map (·.1) ++ (t.state.control.inExecute ++ t.state.queue) =
      s.executed.map (·.1) ++ (s.state.control.inExecute ++ s.state.queue))
    (hstop : t.state.stop = .running → s.state.stop = .running) : OrderInv t where
  order := by rw [hpushed, hdrained, hjobs, h.order]
  once := hpushed ▸ h.once
  known := by rw [hpushed, hdrained]; exact h.known
  fresh := fun hrun => hdrained.trans (h.fresh (hstop hrun))

/-- A new job goes to the end of the queue. -/
theorem OrderInv.push (h : OrderInv s) (hinv : Inv s.state) (job : Job) :
    OrderInv { s with state := s.state.push job } := by
  have hnew : s.state.next ∉ s.state.pushed :=
    fun hmem => absurd (hinv.ledger.made _ hmem) (lt_irrefl _)
  have hkept : s.state.next ∉ s.drained := fun hmem => hnew (h.known _ hmem)
  refine ⟨?_, ?_, fun j hj => List.mem_append_left _ (h.known j hj), h.fresh⟩
  · show (s.state.pushed ++ [s.state.next]).filter _ =
      _ ++ (s.state.control.inExecute ++ (s.state.queue ++ [s.state.next]))
    rw [List.filter_append, h.order]
    simp [hkept]
  · refine List.nodup_append'.mpr ⟨h.once, List.nodup_singleton _, ?_⟩
    exact List.disjoint_singleton.mpr hnew

/-- What is taken from the end of the queue is not executed. -/
theorem filter_drained {xs queue : List JobId} (h : (xs ++ queue).Nodup) :
    ((xs ++ queue).filter fun j => j ∉ queue) = xs := by
  have hdisj := (List.nodup_append'.mp h).2.2
  rw [List.filter_append, List.filter_eq_self.mpr, List.filter_eq_nil_iff.mpr, List.append_nil]
  · simp
  · intro j hj
    simpa using fun hq => hdisj hj hq

theorem OrderInv.step (h : OrderInv s) (hinv : Inv s.state)
    (hstep : cmdStep s (a, published) = some t) : OrderInv t := by
  obtain ⟨u, hu, rfl⟩ := Option.map_eq_some_iff.mp hstep
  cases change_of_step hu with
  | push c line =>
    refine (h.push hinv ⟨line, [], false, false⟩).move rfl (List.append_nil _) ?_ id
    simp [executedBy, State.setSession]
  | pushDds line =>
    refine (h.push hinv ⟨line, [], false, true⟩).move rfl (List.append_nil _) ?_ id
    simp [executedBy]
  | take j queue hcontrol hqueue =>
    refine h.move rfl (List.append_nil _) ?_ id
    simp [executedBy, hcontrol, hqueue, Control.inExecute]
  | exit hcontrol hqueue =>
    refine h.move rfl (List.append_nil _) ?_ id
    simp [executedBy, hcontrol, hqueue, Control.inExecute]
  | execute j resp hcontrol =>
    refine h.move rfl (List.append_nil _) ?_ id
    simp [executedBy, hcontrol, Control.inExecute, State.setResp]
  | finish j hcontrol =>
    refine h.move rfl (List.append_nil _) ?_ id
    simp [executedBy, hcontrol, Control.inExecute, State.markDone]
  | drain hstop =>
    -- before it nothing was taken from the queue
    have horder := h.order
    simp only [h.fresh hstop, List.not_mem_nil, not_false_eq_true, decide_true,
      List.filter_true] at horder
    rw [← List.append_assoc] at horder
    have honce := h.once
    rw [horder] at honce
    refine ⟨?_, h.once, fun j hj => ?_, by rintro ⟨⟩⟩
    · show (s.state.pushed.filter fun j => j ∉ s.drained ++ s.state.queue) =
        (s.executed ++ executedBy s.state .stopDrain).map (·.1) ++ (s.state.control.inExecute ++ [])
      rw [h.fresh hstop, List.nil_append, horder, filter_drained honce]
      simp [executedBy]
    · change j ∈ s.drained ++ s.state.queue at hj
      rw [h.fresh hstop, List.nil_append] at hj
      show j ∈ s.state.pushed
      rw [horder]
      exact List.mem_append_right _ hj
  | mark j js hstop =>
    refine h.move rfl (List.append_nil _) ?_ (by rintro ⟨⟩)
    simp [executedBy, State.setResp, State.markDone]
  | join hcontrol hstop =>
    refine h.move rfl (List.append_nil _) ?_ (by rintro ⟨⟩)
    simp [executedBy]
  | consoleDown hstop =>
    refine h.move rfl (List.append_nil _) ?_ (by rintro ⟨⟩)
    simp [executedBy]
  | _ =>
    refine h.move rfl (List.append_nil _) ?_ id
    simp [executedBy, State.setSession, State.make]

/-! ## The answers -/

theorem Commands.Answers.mono {j : JobId} {text : Bytes} (h : s.Answers j text)
    (hexecuted : s.executed ⊆ t.executed) (hdrained : s.drained ⊆ t.drained)
    (hpushed : j ∉ s.state.pushed → j ∉ t.state.pushed) : t.Answers j text := by
  rcases h with h | ⟨h, htext⟩ | ⟨h, htext⟩
  · exact Or.inl (hexecuted h)
  · exact Or.inr (Or.inl ⟨hdrained h, htext⟩)
  · exact Or.inr (Or.inr ⟨hpushed h, htext⟩)

/-- A job that is done has its answer, and so have the jobs behind the replies. -/
structure TextInv (s : Commands) : Prop where
  hand : ∀ j, s.state.control = .executed j →
    ∃ pre, s.executed = pre ++ [(j, (s.state.jobs j).resp)]
  done : ∀ j < s.state.next, (s.state.jobs j).done = true → s.Answers j (s.state.jobs j).resp
  own : ∀ r ∈ s.replies, r.job < s.state.next ∧ s.Answers r.job r.text
  pending : ∀ j ∈ s.state.stop.pending, j ∈ s.drained

/-- The answers given stay, and a job that is done keeps its own. -/
theorem cmdStep_answers (hstep : cmdStep s (a, published) = some t) {j : JobId}
    {text : Bytes} (hj : j < s.state.next) (h : s.Answers j text) : t.Answers j text := by
  obtain ⟨u, hu, rfl⟩ := Option.map_eq_some_iff.mp hstep
  refine h.mono (List.subset_append_left ..) (List.subset_append_left ..) ?_
  have hpush : j ∉ s.state.pushed → j ∉ s.state.pushed ++ [s.state.next] := by
    intro hnot hmem
    rcases List.mem_append.mp hmem with hmem | hmem
    · exact hnot hmem
    · exact hj.ne (List.mem_singleton.mp hmem)
  cases change_of_step hu with
  | push c line | pushDds line => exact hpush
  | _ => exact id

theorem TextInv.step_done (h : TextInv s) (hinv : Inv s.state)
    (hstep : cmdStep s (a, published) = some t) (j : JobId) (hj : j < t.state.next)
    (hdone : (t.state.jobs j).done = true) : t.Answers j (t.state.jobs j).resp := by
  have hkeep {i : JobId} {text : Bytes} (hi : i < s.state.next) : s.Answers i text →
      t.Answers i text := cmdStep_answers hstep hi
  obtain ⟨u, hu, ht⟩ := Option.map_eq_some_iff.mp hstep
  have hstate : t.state = u := by rw [← ht]
  rw [hstate] at hj hdone ⊢
  rcases done_cases hinv (change_of_step hu) hj hdone with ⟨hlt, hold, hresp⟩ |
    ⟨hlt, hcontrol, hresp⟩ | ⟨hpend, hresp⟩ | ⟨hout, hresp⟩
  · rw [hresp]
    exact hkeep hlt (h.done j hlt hold)
  · rw [hresp]
    obtain ⟨pre, hpre⟩ := h.hand j hcontrol
    exact hkeep hlt (Or.inl (by simp [hpre]))
  · rw [hresp]
    have hlt : j < s.state.next := hinv.ledger.made j (hinv.ledger.known j
      (List.mem_append_right _ (List.mem_append_right _ hpend)))
    exact hkeep hlt (Or.inr (Or.inl ⟨h.pending j hpend, rfl⟩))
  · rw [hresp]
    exact Or.inr (Or.inr ⟨hstate ▸ hout, rfl⟩)

theorem TextInv.step_own (h : TextInv s) (hinv : Inv s.state)
    (hstep : cmdStep s (a, published) = some t) (r : Reply) (hr : r ∈ t.replies) :
    r.job < t.state.next ∧ t.Answers r.job r.text := by
  have hkeep {i : JobId} {text : Bytes} (hi : i < s.state.next) : s.Answers i text →
      t.Answers i text := cmdStep_answers hstep hi
  obtain ⟨u, hu, ht⟩ := Option.map_eq_some_iff.mp hstep
  have hnext : s.state.next ≤ t.state.next := by
    rw [← ht]
    exact next_le (change_of_step hu)
  have hmem : r ∈ s.replies ++ repliedBy s.state a := by rwa [← ht] at hr
  rcases List.mem_append.mp hmem with hmem | hmem
  · obtain ⟨hlt, htext⟩ := h.own r hmem
    exact ⟨hlt.trans_le hnext, hkeep hlt htext⟩
  · cases change_of_step hu with
    | respond c sent j session hold hdone =>
      simp only [repliedBy, hold, List.mem_singleton] at hmem
      obtain ⟨hlt, -⟩ := hinv.sessions c j hold
      rw [hmem]
      exact ⟨hlt.trans_le hnext, hkeep hlt (h.done j hlt hdone)⟩
    | _ => cases hmem

theorem TextInv.step_pending (h : TextInv s) (hstep : cmdStep s (a, published) = some t) :
    ∀ j ∈ t.state.stop.pending, j ∈ t.drained := by
  obtain ⟨u, hu, rfl⟩ := Option.map_eq_some_iff.mp hstep
  cases change_of_step hu with
  | drain hstop => exact fun j hj => List.mem_append_right _ hj
  | mark j js hstop =>
    intro i hi
    refine List.mem_append_left _ (h.pending i ?_)
    rw [hstop]
    exact List.mem_cons_of_mem j hi
  | join hcontrol hstop | consoleDown hstop =>
    intro i hi
    cases hi
  | _ => exact fun j hj => List.mem_append_left _ (h.pending j hj)

/-- The control thread alone writes to the job it has taken. -/
theorem TextInv.step_hand (h : TextInv s) (hinv : Inv s.state)
    (hstep : cmdStep s (a, published) = some t) (j : JobId)
    (hj : t.state.control = .executed j) :
    ∃ pre, t.executed = pre ++ [(j, (t.state.jobs j).resp)] := by
  -- the job taken is not the new one, and not one that `control_stop` has taken over
  have hkeep (hcontrol : s.state.control = .executed j) (hexec : executedBy s.state a = [])
      (hresp : (t.state.jobs j).resp = (s.state.jobs j).resp) :
      ∃ pre, s.executed ++ executedBy s.state a = pre ++ [(j, (t.state.jobs j).resp)] := by
    obtain ⟨pre, hpre⟩ := h.hand j hcontrol
    exact ⟨pre, by rw [hexec, List.append_nil, hpre, hresp]⟩
  have hflight (hcontrol : s.state.control = .executed j) : j ∈ s.state.inFlight := by
    simp [State.inFlight, hcontrol, Control.job]
  have hnew (hcontrol : s.state.control = .executed j) (job : Job) :
      Function.update s.state.jobs s.state.next job j = s.state.jobs j := by
    have hlt := hinv.ledger.made j (hinv.ledger.known j (hflight hcontrol))
    exact Function.update_of_ne hlt.ne ..
  obtain ⟨u, hu, rfl⟩ := Option.map_eq_some_iff.mp hstep
  cases change_of_step hu with
  | overlong c =>
    exact hkeep hj rfl (congrArg Job.resp (hnew hj ⟨[], tooLongResp, true, false⟩))
  | push c line => exact hkeep hj rfl (congrArg Job.resp (hnew hj ⟨line, [], false, false⟩))
  | pushDds line => exact hkeep hj rfl (congrArg Job.resp (hnew hj ⟨line, [], false, true⟩))
  | execute i resp hcontrol =>
    cases hj
    exact ⟨s.executed, by simp [executedBy, hcontrol, State.setResp]⟩
  | mark i js hstop =>
    refine hkeep hj rfl ?_
    have hne : j ≠ i := by
      rintro rfl
      have hnodup := (List.nodup_append'.mp hinv.ledger.nodup).2.1
      have hdisj := (List.nodup_append'.mp hnodup).2.2
      refine hdisj (a := j) ?_ ?_
      · rw [show s.state.control = .executed j from hj]
        simp [Control.job]
      · simp [hstop, Stop.pending]
    have hsame : ((s.state.setResp i stoppedResp).markDone i).jobs j = s.state.jobs j :=
      (Function.update_of_ne hne ..).trans (Function.update_of_ne hne ..)
    exact congrArg Job.resp hsame
  | take | exit | finish => cases hj
  | _ => exact hkeep hj rfl rfl

theorem TextInv.step (h : TextInv s) (hinv : Inv s.state)
    (hstep : cmdStep s (a, published) = some t) : TextInv t where
  hand := h.step_hand hinv hstep
  done := h.step_done hinv hstep
  own := h.step_own hinv hstep
  pending := h.step_pending hstep

/-! ## The sessions -/

/-- One command of a session after the other. -/
def SessionInv (s : Commands) : Prop :=
  ∀ c, (s.submitted.filter (·.1 = c)).map (·.2) =
    (s.replies.filter (·.session = c)).map (·.job) ++ (s.state.sessions c).waitsFor

theorem waitsFor_setSession (s : State) (c : ℕ) (session : Session) (d : ℕ) :
    ((s.setSession c session).sessions d).waitsFor =
      if d = c then session.waitsFor else (s.sessions d).waitsFor := by
  by_cases hd : d = c <;> simp [State.setSession, hd]

theorem SessionInv.step (h : SessionInv s) (hstep : cmdStep s (a, published) = some t) :
    SessionInv t := by
  obtain ⟨u, hu, rfl⟩ := Option.map_eq_some_iff.mp hstep
  intro d
  have hd := h d
  cases change_of_step hu with
  | accept c session hold hnew | enter c session hold hnew | readLine c result session hold hnew =>
    rw [waitsFor_setSession]
    by_cases hdc : d = c
    · subst hdc
      simpa [submittedBy, repliedBy, hold, hnew] using hd
    · simpa [submittedBy, repliedBy, hdc] using hd
  | overlong c hold | push c line hold =>
    rw [waitsFor_setSession]
    by_cases hdc : d = c
    · subst hdc
      rw [hold, List.append_nil] at hd
      simp [submittedBy, repliedBy, hd, Session.waitsFor]
    · have hcd : ¬ c = d := fun heq => hdc heq.symm
      simpa [submittedBy, repliedBy, hdc, hcd, State.make, State.push] using hd
  | respond c sent j session hold hdone hnew =>
    rw [waitsFor_setSession]
    by_cases hdc : d = c
    · subst hdc
      have hwait : (s.state.sessions d).waitsFor = [j] := congrArg Session.waitsFor hold
      rw [hwait] at hd
      simpa [submittedBy, repliedBy, hold, hnew] using hd
    · have hcd : ¬ c = d := fun heq => hdc heq.symm
      simpa [submittedBy, repliedBy, hold, hdc, hcd] using hd
  | pushDds | refuseDds | take | exit | execute | finish | drain | mark | join | consoleDown =>
    show List.map _ (List.filter _ (s.submitted ++ [])) =
      List.map _ (List.filter _ (s.replies ++ [])) ++ (s.state.sessions d).waitsFor
    rw [List.append_nil, List.append_nil]
    exact hd

/-! ## The responses -/

structure RespInv (s : Commands) : Prop where
  responses : s.responses.map (fun r => (r.job, r.text)) = owed s.state.jobs s.settled
  /-- behind the exit there are only jobs of sessions -/
  exited : s.state.control = .exited → ∀ j ∈ s.state.queue, (s.state.jobs j).dds = false
  joined : s.state.stop = .joined ∨ s.state.stop = .consoleDown → s.state.control = .exited

theorem owed_append (jobs : JobId → Job) (es fs : List (JobId × Bytes)) :
    owed jobs (es ++ fs) = owed jobs es ++ owed jobs fs := by
  simp [owed]

theorem owed_congr {jobs jobs' : JobId → Job} : ∀ {es : List (JobId × Bytes)},
    (∀ e ∈ es, (jobs' e.1).dds = (jobs e.1).dds ∧ (jobs' e.1).line = (jobs e.1).line) →
      owed jobs' es = owed jobs es
  | [], _ => rfl
  | e :: es, h => by
    obtain ⟨hdds, hline⟩ := h e List.mem_cons_self
    have ih : owed jobs' es = owed jobs es :=
      owed_congr fun f hf => h f (List.mem_cons_of_mem e hf)
    have hone : owed jobs' [e] = owed jobs [e] := by simp [owed, List.filter_cons, hdds, hline]
    rw [← List.singleton_append, owed_append, owed_append, hone, ih]

theorem OrderInv.lt_next (h : OrderInv s) (hinv : Inv s.state) {e : JobId × Bytes}
    (he : e ∈ s.executed) : e.1 < s.state.next := by
  have hmem : e.1 ∈ s.state.pushed.filter fun j => j ∉ s.drained := by
    rw [h.order]
    exact List.mem_append_left _ (List.mem_map_of_mem he)
  exact hinv.ledger.made _ (List.mem_filter.mp hmem).1

theorem Commands.settled_subset (s : Commands) : s.settled ⊆ s.executed := by
  unfold Commands.settled
  split
  · exact List.dropLast_subset _
  · exact List.Subset.refl _

/-- The control thread is through with the job that it marks. -/
def settledBy (s : State) : Action → List (JobId × Bytes)
  | .finish =>
    match s.control with
    | .executed j => [(j, (s.jobs j).resp)]
    | _ => []
  | _ => []

theorem settled_step (h : TextInv s) (hstep : cmdStep s (a, published) = some t) :
    t.settled = s.settled ++ settledBy s.state a := by
  obtain ⟨u, hu, rfl⟩ := Option.map_eq_some_iff.mp hstep
  cases change_of_step hu with
  | take j queue hcontrol hqueue =>
    simp [Commands.settled, hcontrol, executedBy, settledBy]
  | exit hcontrol hqueue => simp [Commands.settled, hcontrol, executedBy, settledBy]
  | execute j resp hcontrol => simp [Commands.settled, hcontrol, executedBy, settledBy]
  | finish j hcontrol =>
    obtain ⟨pre, hpre⟩ := h.hand j hcontrol
    simp [Commands.settled, hcontrol, executedBy, settledBy, hpre]
  | _ => simp [Commands.settled, executedBy, settledBy, State.setSession, State.make, State.push,
      State.setResp, State.markDone]

theorem respondedBy_owed (s : State) (published : Bool) (a : Action) :
    (respondedBy s published a).map (fun r => (r.job, r.text)) = owed s.jobs (settledBy s a) := by
  cases a with
  | finish =>
    cases hcontrol : s.control with
    | executed j =>
      cases hdds : (s.jobs j).dds <;> simp [respondedBy, settledBy, owed, hcontrol, hdds]
    | _ => simp [respondedBy, settledBy, owed, hcontrol]
  | _ => rfl

theorem RespInv.step_responses (h : RespInv s) (horder : OrderInv s) (htext : TextInv s)
    (hinv : Inv s.state) (hstep : cmdStep s (a, published) = some t) :
    t.responses.map (fun r => (r.job, r.text)) = owed t.state.jobs t.settled := by
  have hsettled := settled_step htext hstep
  obtain ⟨u, hu, ht⟩ := Option.map_eq_some_iff.mp hstep
  have hmade : ∀ e ∈ t.settled, e.1 < s.state.next := by
    intro e he
    rcases List.mem_append.mp (hsettled ▸ he) with he | he
    · exact horder.lt_next hinv (s.settled_subset he)
    · cases change_of_step hu with
      | finish j hcontrol =>
        obtain ⟨pre, hpre⟩ := htext.hand j hcontrol
        refine horder.lt_next hinv ?_
        simp only [settledBy, hcontrol] at he
        simp [hpre, List.mem_singleton.mp he]
      | _ => cases he
  have hjobs : owed t.state.jobs t.settled = owed s.state.jobs t.settled := by
    refine owed_congr fun e he => ?_
    rw [← ht]
    exact same_job (change_of_step hu) (hmade e he)
  rw [hjobs, hsettled, owed_append, ← h.responses, ← respondedBy_owed _ published, ← ht,
    List.map_append]

theorem RespInv.step_exited (h : RespInv s) (hinv : Inv s.state)
    (hstep : cmdStep s (a, published) = some t) (he : t.state.control = .exited) :
    ∀ j ∈ t.state.queue, (t.state.jobs j).dds = false := by
  have hold (hc : s.state.control = .exited) {j : JobId} (hj : j ∈ s.state.queue) :
      j < s.state.next ∧ (s.state.jobs j).dds = false := by
    have hflight : j ∈ s.state.inFlight := List.mem_append_left _ hj
    exact ⟨hinv.ledger.made j (hinv.ledger.known j hflight), h.exited hc j hj⟩
  obtain ⟨u, hu, rfl⟩ := Option.map_eq_some_iff.mp hstep
  have hchange := change_of_step hu
  have hsame {j : JobId} (hc : s.state.control = .exited) (hj : j ∈ s.state.queue) :
      (u.jobs j).dds = false := by
    obtain ⟨hlt, hdds⟩ := hold hc hj
    exact (same_job hchange hlt).1.trans hdds
  cases hchange with
  | push c line =>
    intro j hj
    rcases List.mem_append.mp hj with hj | hj
    · exact hsame he hj
    · rw [List.mem_singleton.mp hj]
      simp [State.setSession, State.push, State.make]
  | pushDds line hstop =>
    -- the flag is set before the thread exits
    rw [hinv.exited he] at hstop
    cases hstop
  | exit hcontrol hqueue =>
    intro j hj
    have hj : j ∈ s.state.queue := hj
    rw [hqueue] at hj
    cases hj
  | drain => exact fun j hj => (List.not_mem_nil hj).elim
  | take | execute | finish => cases he
  | _ => exact fun j hj => hsame he hj

theorem RespInv.step_joined (h : RespInv s) (hstep : cmdStep s (a, published) = some t)
    (hstop : t.state.stop = .joined ∨ t.state.stop = .consoleDown) : t.state.control = .exited := by
  obtain ⟨u, hu, rfl⟩ := Option.map_eq_some_iff.mp hstep
  cases change_of_step hu with
  | exit => rfl
  | take j queue hcontrol | execute j resp hcontrol | finish j hcontrol =>
    have hexited : s.state.control = .exited := h.joined hstop
    rw [hcontrol] at hexited
    cases hexited
  | drain => rcases hstop with hstop | hstop <;> cases hstop
  | mark => rcases hstop with hstop | hstop <;> cases hstop
  | join hcontrol => exact hcontrol
  | consoleDown hjoined => exact h.joined (Or.inl hjoined)
  | _ => exact h.joined hstop

theorem RespInv.step (h : RespInv s) (horder : OrderInv s) (htext : TextInv s)
    (hinv : Inv s.state) (hstep : cmdStep s (a, published) = some t) : RespInv t where
  responses := h.step_responses horder htext hinv hstep
  exited := h.step_exited hinv hstep
  joined := h.step_joined hstep

/-! ## The law holds -/

/-- What every step keeps. -/
structure CommandInv (s : Commands) : Prop where
  jobs : Inv s.state
  order : OrderInv s
  texts : TextInv s
  sessions : SessionInv s
  responses : RespInv s

theorem commandInv_init : CommandInv Commands.init where
  jobs := inv_init
  order := ⟨rfl, List.nodup_nil, fun _ hj => (List.not_mem_nil hj).elim, fun _ => rfl⟩
  texts := ⟨fun _ h => (nomatch h), fun j hj => absurd hj (Nat.not_lt_zero j),
    fun _ hr => (List.not_mem_nil hr).elim, fun _ hj => (List.not_mem_nil hj).elim⟩
  sessions := fun _ => rfl
  responses := ⟨rfl, fun h => (nomatch h), by rintro (h | h) <;> cases h⟩

/-- **Step lemma.** -/
theorem CommandInv.step (h : CommandInv s) (hstep : cmdStep s (a, published) = some t) :
    CommandInv t where
  jobs := by
    obtain ⟨u, hu, rfl⟩ := Option.map_eq_some_iff.mp hstep
    exact step_inv h.jobs hu
  order := h.order.step h.jobs hstep
  texts := h.texts.step h.jobs hstep
  sessions := h.sessions.step hstep
  responses := h.responses.step h.order h.texts h.jobs hstep

/-- The first line feed ends the line. -/
theorem ctlResp_inj {line line' out out' : Bytes} (h : 10 ∉ line) (h' : 10 ∉ line')
    (heq : ctlResp line out = ctlResp line' out') : line = line' := by
  have htail : line ++ 10 :: out = line' ++ 10 :: out' := List.append_cancel_left heq
  rcases append_sep_eq_iff.mp htail with ⟨heq, -⟩ | ⟨m, rfl, -⟩ | ⟨m, rfl, -⟩
  · exact heq
  · exact absurd (List.mem_append_right line List.mem_cons_self) h'
  · exact absurd (List.mem_append_right line' List.mem_cons_self) h

/-- A response has the line of its job in front. -/
theorem RespInv.text (h : RespInv s) {r : Response} (hr : r ∈ s.responses) :
    ∃ out, r.text = ctlResp (s.state.jobs r.job).line out := by
  have hmem : (r.job, r.text) ∈ owed s.state.jobs s.settled := by
    rw [← h.responses]
    exact List.mem_map_of_mem hr
  obtain ⟨e, -, he⟩ := List.mem_map.mp hmem
  obtain ⟨hjob, htext⟩ := Prod.mk.inj he
  exact ⟨e.2, by rw [← htext, ← hjob]⟩

/-- Behind the exit each command of DDS was executed or taken. -/
theorem CommandInv.complete (h : CommandInv s) (hexited : s.state.control = .exited) {j : JobId}
    (hj : j ∈ s.state.pushed) (hdds : (s.state.jobs j).dds = true) :
    j ∈ s.drained ∨ ∃ r ∈ s.responses, r.job = j := by
  by_cases hdrained : j ∈ s.drained
  · exact Or.inl hdrained
  have hmem : j ∈ s.state.pushed.filter fun j => j ∉ s.drained :=
    List.mem_filter.mpr ⟨hj, decide_eq_true hdrained⟩
  rw [h.order.order, hexited] at hmem
  rcases List.mem_append.mp hmem with hmem | hmem
  · obtain ⟨e, he, rfl⟩ := List.mem_map.mp hmem
    have hsettled : s.settled = s.executed := by simp [Commands.settled, hexited]
    have howed : (e.1, ctlResp (s.state.jobs e.1).line e.2) ∈ owed s.state.jobs s.settled := by
      rw [hsettled]
      exact List.mem_map.mpr ⟨e, List.mem_filter.mpr ⟨he, hdds⟩, rfl⟩
    rw [← h.responses.responses] at howed
    obtain ⟨r, hr, heq⟩ := List.mem_map.mp howed
    exact Or.inr ⟨r, hr, congrArg Prod.fst heq⟩
  · have hnot := h.responses.exited hexited j hmem
    rw [hdds] at hnot
    cases hnot

theorem CommandInv.law (h : CommandInv s) : CommandLaw s where
  order := h.order.order
  once := h.order.once
  session := h.sessions
  own := fun r hr => (h.texts.own r hr).2
  responses := h.responses.responses
  named := by
    intro r hr r' hr' heq hline hline'
    obtain ⟨out, hout⟩ := h.responses.text hr
    obtain ⟨out', hout'⟩ := h.responses.text hr'
    exact ctlResp_inj hline hline' (by rw [← hout, ← hout', heq])
  complete := fun hstop _ hj hdds => h.complete (h.responses.joined hstop) hj hdds

/--
**Commands.** In every interleaving of sessions, DDS, control thread and shutdown, the commands are
executed in the order of the queue, each once, and each session gets the answers to its own commands
in order; for every command over DDS `PublishCtlResp` is called with its own line in front of its own
output, unless `control_stop` took it.
-/
theorem commandLaw_of_run (as : List (Action × Bool)) :
    AllStates cmdStep CommandLaw Commands.init as := by
  refine (allStates_iff_prefixes as _).mpr ?_
  intro pre _ t ht
  have hreach : Reachable cmdStep Commands.init t := ⟨pre, ht⟩
  have hinv : CommandInv t :=
    hreach.invariant commandInv_init fun _ _ _ hs hstep => hs.step hstep
  exact hinv.law

end Dts.Console
