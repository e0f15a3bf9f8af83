import Dts.Infra.Bytes
import Dts.Infra.Run
import Mathlib.Logic.Function.Basic

/-!
# Console and control

A session thread reads command lines from its connection, pushes each as a job and waits until the
job is done. The control thread takes jobs from the queue, executes them and marks them done.
`Process::Stop` calls `control_stop` and then `console_stop`.

The model is a transition system: an action is one critical section of `g_qMutex` or of a job's
mutex, or one step a thread takes alone. What the peer sends, what `ctl::Execute` answers and
whether `send` succeeds are part of the action.
-/

namespace Dts.Console

open Infra

abbrev JobId := Nat

structure Job where
  line : Bytes
  resp : Bytes
  done : Bool
  dds : Bool

def kMaxLineLen : Nat := 4096

/-- The answer to a line that is too long. -/
def tooLongResp : Bytes := utf8 s!"ERR: line too long (max {kMaxLineLen})"

/-- The answer of `control_stop` to the jobs it takes. -/
def stoppedResp : Bytes := utf8 "control stopped"

/-! ## State -/

/-- Where a session thread is. -/
inductive Session
  /-- not accepted yet -/
  | absent
  /-- at the head of the loop in `SessionLoop` -/
  | looping
  /-- in `ReadLine` -/
  | reading
  /-- `ReadLine` has returned true -/
  | read (line : Bytes) (tooLong : Bool)
  /-- waits on the job's condition variable -/
  | waiting (job : JobId)
  | closed
  deriving DecidableEq

/-- The session's next step is `PushJob`. -/
def Session.pushes : Session → Bool
  | .read _ false => true
  | _ => false

/-- Where the control thread is. -/
inductive Control
  /-- waits on `g_qCv` -/
  | waiting
  /-- in `ctl::Execute` -/
  | executing (job : JobId)
  /-- `Execute` has returned, the job is not marked yet -/
  | executed (job : JobId)
  | exited
  deriving DecidableEq

/-- The job the control thread has taken. -/
def Control.job : Control → Option JobId
  | .executing j | .executed j => some j
  | .waiting | .exited => none

/-- Where `Process::Stop` is. -/
inductive Stop
  | running
  /-- in `control_stop`: the jobs taken from the queue and not marked yet -/
  | marking (pending : List JobId)
  /-- the control thread is joined -/
  | joined
  /-- `console_stop` has set `g_consoleStop` -/
  | consoleDown
  deriving DecidableEq

def Stop.pending : Stop → List JobId
  | .marking js => js
  | _ => []

/-- The state of the module. `jobs` are the jobs made so far, up to `next`. -/
structure State where
  jobs : JobId → Job
  next : JobId
  queue : List JobId
  controlStop : Bool
  consoleStop : Bool
  sessions : Nat → Session
  control : Control
  stop : Stop
  /-- every job that was put into the queue -/
  pushed : List JobId

/-- After `console_start` and `control_start`. -/
def State.init : State where
  jobs := fun _ => ⟨[], [], false, false⟩
  next := 0
  queue := []
  controlStop := false
  consoleStop := false
  sessions := fun _ => .absent
  control := .waiting
  stop := .running
  pushed := []

namespace State

def setSession (s : State) (c : Nat) (session : Session) : State :=
  { s with sessions := Function.update s.sessions c session }

/-- `make_shared<Job>`. -/
def make (s : State) (job : Job) : State :=
  { s with jobs := Function.update s.jobs s.next job, next := s.next + 1 }

/-- A new job at the end of the queue. -/
def push (s : State) (job : Job) : State :=
  { s.make job with queue := s.queue ++ [s.next], pushed := s.pushed ++ [s.next] }

/-- Write the answer of a job. -/
def setResp (s : State) (j : JobId) (resp : Bytes) : State :=
  { s with jobs := Function.update s.jobs j { s.jobs j with resp := resp } }

def markDone (s : State) (j : JobId) : State :=
  { s with jobs := Function.update s.jobs j { s.jobs j with done := true } }

end State

/-! ## Session threads -/

/-- `accept`, as long as the console thread runs. -/
def accept (s : State) (c : Nat) : Option State :=
  if s.sessions c = .absent ∧ s.stop ≠ .consoleDown then some (s.setSession c .looping) else none

/-- The loop condition of `SessionLoop`. -/
def enter (s : State) (c : Nat) : Option State :=
  match s.sessions c with
  | .looping => some (s.setSession c (if s.consoleStop then .closed else .reading))
  | _ => none

/-- `ReadLine` returns: false, or true with the line and the overflow flag. -/
def readLine (s : State) (c : Nat) (result : Option (Bytes × Bool)) : Option State :=
  match s.sessions c, result with
  | .reading, none => some (s.setSession c .closed)
  | .reading, some (line, tooLong) =>
    some (s.setSession c (if line.isEmpty then .closed else .read line tooLong))
  | _, _ => none

/-- Make the job and, unless the line was too long, `PushJob`. -/
def submit (s : State) (c : Nat) : Option State :=
  match s.sessions c with
  | .read _ true =>
    some ((s.make ⟨[], tooLongResp, true, false⟩).setSession c (.waiting s.next))
  | .read line false => some ((s.push ⟨line, [], false, false⟩).setSession c (.waiting s.next))
  | _ => none

/-- The job is done: `send` the answer. -/
def respond (s : State) (c : Nat) (sent : Bool) : Option State :=
  match s.sessions c with
  | .waiting j =>
    if (s.jobs j).done then some (s.setSession c (if sent then .looping else .closed)) else none
  | _ => none

/-! ## DDS control channel -/

/-- `control_submit_dds`: unlike `PushJob`, it looks at the stop flag. -/
def controlSubmitDds (s : State) (line : Bytes) : Int × State :=
  if line.isEmpty then (-1, s)
  else if line.length > kMaxLineLen then (-1, s)
  else if s.controlStop then (-1, s)
  else (0, s.push ⟨line, [], false, true⟩)

/-! ## Control thread -/

/-- The head of `ControlLoop`: exit when stopped and the queue is empty, else take a job. -/
def nextJob (s : State) : Option State :=
  match s.control with
  | .waiting =>
    match s.queue with
    | [] => if s.controlStop then some { s with control := .exited } else none
    | j :: queue => some { s with queue := queue, control := .executing j }
  | _ => none

/-- `ctl::Execute` writes its answer. -/
def execute (s : State) (resp : Bytes) : Option State :=
  match s.control with
  | .executing j => some { s.setResp j resp with control := .executed j }
  | _ => none

/-- `job->done = true`. -/
def finish (s : State) : Option State :=
  match s.control with
  | .executed j => some { s.markDone j with control := .waiting }
  | _ => none

/-! ## `Process::Stop` -/

/-- `control_stop`: set the flag and take over the queue. -/
def stopDrain (s : State) : Option State :=
  match s.stop with
  | .running => some { s with controlStop := true, queue := [], stop := .marking s.queue }
  | _ => none

/-- `control_stop`: answer the next of the jobs taken over. -/
def stopMark (s : State) : Option State :=
  match s.stop with
  | .marking (j :: js) =>
    some { (s.setResp j stoppedResp).markDone j with stop := .marking js }
  | _ => none

/-- `control_stop`: `DestroyThread` joins the control thread. -/
def stopJoin (s : State) : Option State :=
  match s.stop with
  | .marking [] => if s.control = .exited then some { s with stop := .joined } else none
  | _ => none

/-- `console_stop`: set the flag; the console thread and the sessions are ended after it. -/
def consoleStop (s : State) : Option State :=
  match s.stop with
  | .joined => some { s with consoleStop := true, stop := .consoleDown }
  | _ => none

/-! ## Runs -/

inductive Action
  | accept (c : Nat)
  | enter (c : Nat)
  | readLine (c : Nat) (result : Option (Bytes × Bool))
  | submit (c : Nat)
  | respond (c : Nat) (sent : Bool)
  | submitDds (line : Bytes)
  | nextJob
  | execute (resp : Bytes)
  | finish
  | stopDrain
  | stopMark
  | stopJoin
  | consoleStop

/-- One step of any thread. -/
def step (s : State) : Action → Option State
  | .accept c => accept s c
  | .enter c => enter s c
  | .readLine c result => readLine s c result
  | .submit c => submit s c
  | .respond c sent => respond s c sent
  | .submitDds line => some (controlSubmitDds s line).2
  | .nextJob => nextJob s
  | .execute resp => execute s resp
  | .finish => finish s
  | .stopDrain => stopDrain s
  | .stopMark => stopMark s
  | .stopJoin => stopJoin s
  | .consoleStop => consoleStop s

/-! ## What a step does -/

/-- The enabled steps, by what they change. -/
inductive Effect (s : State) : Action → State → Prop
  | accept (c : Nat) (session : Session) (hidle : ∀ j, session ≠ .waiting j) :
      Effect s (.accept c) (s.setSession c session)
  | enter (c : Nat) (session : Session) (hidle : ∀ j, session ≠ .waiting j) :
      Effect s (.enter c) (s.setSession c session)
  | readLine (c : Nat) (result : Option (Bytes × Bool)) (session : Session)
      (hidle : ∀ j, session ≠ .waiting j) : Effect s (.readLine c result) (s.setSession c session)
  | respond (c : Nat) (sent : Bool) (session : Session) (hidle : ∀ j, session ≠ .waiting j) :
      Effect s (.respond c sent) (s.setSession c session)
  /-- a session waits for a job that is done already -/
  | overlong (c : Nat) (job : Job) (hread : (s.sessions c).pushes = false)
      (hdone : job.done = true) :
      Effect s (.submit c) ((s.make job).setSession c (.waiting s.next))
  /-- a session pushes a job and waits for it -/
  | push (c : Nat) (job : Job) (hread : (s.sessions c).pushes = true)
      (hdone : job.done = false) :
      Effect s (.submit c) ((s.push job).setSession c (.waiting s.next))
  | pushDds (line : Bytes) (job : Job) (hdone : job.done = false) (hstop : s.controlStop = false) :
      Effect s (.submitDds line) (s.push job)
  | refuseDds (line : Bytes) : Effect s (.submitDds line) s
  | take (j : JobId) (queue : List JobId) (hcontrol : s.control = .waiting)
      (hqueue : s.queue = j :: queue) :
      Effect s .nextJob { s with queue := queue, control := .executing j }
  | exit (hcontrol : s.control = .waiting) (hqueue : s.queue = []) (hstop : s.controlStop = true) :
      Effect s .nextJob { s with control := .exited }
  | execute (j : JobId) (resp : Bytes) (hcontrol : s.control = .executing j) :
      Effect s (.execute resp) { s.setResp j resp with control := .executed j }
  | finish (j : JobId) (hcontrol : s.control = .executed j) :
      Effect s .finish { s.markDone j with control := .waiting }
  | drain (hstop : s.stop = .running) :
      Effect s .stopDrain { s with controlStop := true, queue := [], stop := .marking s.queue }
  | mark (j : JobId) (js : List JobId) (resp : Bytes) (hstop : s.stop = .marking (j :: js)) :
      Effect s .stopMark { (s.setResp j resp).markDone j with stop := .marking js }
  | join (hstop : s.stop = .marking []) (hcontrol : s.control = .exited) :
      Effect s .stopJoin { s with stop := .joined }
  | consoleDown (hstop : s.stop = .joined) :
      Effect s .consoleStop { s with consoleStop := true, stop := .consoleDown }

/-- **Inversion.** A step has one of these effects. -/
theorem effect_of_step {s t : State} {a : Action} (hstep : step s a = some t) : Effect s a t := by
  cases a with
  | accept c =>
    simp only [step, accept] at hstep
    split at hstep <;> cases hstep
    exact .accept c .looping (by simp)
  | enter c =>
    simp only [step, enter] at hstep
    split at hstep <;> cases hstep
    exact .enter c _ (by intro j; split <;> simp)
  | readLine c result =>
    simp only [step, readLine] at hstep
    split at hstep <;> cases hstep
    · exact .readLine c _ .closed (by simp)
    · exact .readLine c _ _ (by intro j; split <;> simp)
  | submit c =>
    simp only [step, submit] at hstep
    split at hstep <;> cases hstep
    · rename_i hread
      exact .overlong c _ (by rw [hread]; rfl) rfl
    · rename_i hread
      exact .push c _ (by rw [hread]; rfl) rfl
  | respond c sent =>
    simp only [step, respond] at hstep
    split at hstep
    · split at hstep <;> cases hstep
      exact .respond c sent _ (by intro j; split <;> simp)
    · cases hstep
  | submitDds line =>
    cases hstep
    unfold controlSubmitDds
    split
    · exact .refuseDds line
    · split
      · exact .refuseDds line
      · split
        · exact .refuseDds line
        · rename_i hstop
          exact .pushDds line _ rfl (by simpa using hstop)
  | nextJob =>
    simp only [step, nextJob] at hstep
    split at hstep
    · rename_i hcontrol
      split at hstep
      · rename_i hqueue
        split at hstep <;> cases hstep
        rename_i hstop
        exact .exit hcontrol hqueue hstop
      · rename_i j queue hqueue
        cases hstep
        exact .take j queue hcontrol hqueue
    · cases hstep
  | execute resp =>
    simp only [step, execute] at hstep
    split at hstep <;> cases hstep
    exact .execute _ resp ‹_›
  | finish =>
    simp only [step, finish] at hstep
    split at hstep <;> cases hstep
    exact .finish _ ‹_›
  | stopDrain =>
    simp only [step, stopDrain] at hstep
    split at hstep <;> cases hstep
    exact .drain ‹_›
  | stopMark =>
    simp only [step, stopMark] at hstep
    split at hstep <;> cases hstep
    exact .mark _ _ _ ‹_›
  | stopJoin =>
    simp only [step, stopJoin] at hstep
    split at hstep
    · split at hstep <;> cases hstep
      exact .join ‹_› ‹_›
    · cases hstep
  | consoleStop =>
    simp only [step, consoleStop] at hstep
    split at hstep <;> cases hstep
    exact .consoleDown ‹_›

end Dts.Console
