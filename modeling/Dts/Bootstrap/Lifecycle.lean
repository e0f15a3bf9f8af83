import Dts.Bootstrap.Routes
import Dts.Infra.Teardown

/-!
# The end of the process

`Process::Stop` joins the control thread and the workers, takes the pointer of `DtsMw()` away, and
destroys the communicator with its transport, then the subscriptions; the log comes last. Meanwhile
the threads that are not joined yet handle messages and publish, and the receive threads of the
transport call the listeners.

The destructor of the transport deletes the participant and then frees the listeners. It does not look
at the answer of `delete_participant`, which refuses a participant that still has endpoints.

* `DeleteJoins` — what the library promises of `delete_participant`
* `lifecycleLaw_iff` — under it, nobody uses what is freed, and the process comes to its end, exactly
  when a participant that is up is not refused
-/

namespace Dts.Bootstrap

open Infra

/-! ## The system -/

/-- What the threads use and the end of the process frees. -/
inductive Resource where
  /-- what `DtsMw()` returns is not `nullptr` -/
  | mwPointer
  /-- `m_state` of the transport -/
  | listeners
  | comm
  | subs
  | logPool
  deriving DecidableEq

/-- Where a worker or the control thread is. -/
inductive UserPc where
  | idle
  /-- in a handler or in a command -/
  | handling
  /-- `DtsMw()` was not `nullptr` -/
  | checked
  | ended
  deriving DecidableEq

/-- Where a receive thread is: in `on_data_available`, or in the callback of a subscription. -/
inductive CallbackPc where
  | entered
  | routed
  deriving DecidableEq

/-- The statements of `Stop` and behind it. -/
inductive Stmt where
  /-- `g_controlStop`, or `RequestStop` of a worker -/
  | setStop (i : Inst)
  | destroyThread (i : Inst)
  /-- `DtsMwSet(nullptr)` -/
  | mwSet
  /-- `comm.reset()`: the three parts of the two destructors -/
  | deleteParticipant
  | deleteState
  | deleteImpl
  | clearSubs
  | shutdownLog
  deriving DecidableEq

/-- `control_stop`, `StopWorker` three times, and the rest of `Stop` and `Run`. -/
def stopProgram : List Stmt :=
  [.setStop .control, .destroyThread .control, .setStop .task, .destroyThread .task, .setStop .data,
    .destroyThread .data, .setStop .log, .destroyThread .log, .mwSet, .deleteParticipant,
    .deleteState, .deleteImpl, .clearSubs, .shutdownLog]

/-- `fault` says that something freed was used. -/
structure LifeState where
  rest : List Stmt
  alive : Resource → Bool
  stopFlag : Inst → Bool
  users : Inst → UserPc
  receiving : Bool
  callbacks : List CallbackPc
  fault : Bool

/-- In front of `Stop`: the threads that were created, and whether the transport is up. -/
def LifeState.init (created : Inst → Bool) (up : Bool) : LifeState where
  rest := stopProgram
  alive := fun _ => true
  stopFlag := fun _ => false
  users := fun i => if created i then .idle else .ended
  receiving := up
  callbacks := []
  fault := false

def LifeState.touch (s : LifeState) (r : Resource) : LifeState :=
  { s with fault := s.fault || !s.alive r }

def LifeState.free (s : LifeState) (r : Resource) : LifeState :=
  { s with alive := Function.update s.alive r false }

def LifeState.goTo (s : LifeState) (i : Inst) (pc : UserPc) : LifeState :=
  { s with users := Function.update s.users i pc }

def LifeState.setCallbacks (s : LifeState) (callbacks : List CallbackPc) : LifeState :=
  { s with callbacks := callbacks }

/-- The next statement; `joined` says whether `delete_participant` waits for the receive threads. -/
def mainStep (joined : Bool) (s : LifeState) : Option LifeState :=
  match s.rest with
  | [] => none
  | stmt :: rest =>
    let t := { s with rest := rest }
    match stmt with
    | .setStop i => some { t with stopFlag := Function.update s.stopFlag i true }
    | .destroyThread i => if s.users i = .ended then some t else none
    | .mwSet => some (t.free .mwPointer)
    | .deleteParticipant =>
      -- its answer is not looked at
      if joined then
        if s.callbacks = [] then some { t with receiving := false } else none
      else some t
    | .deleteState => some (t.free .listeners)
    | .deleteImpl => some (t.free .comm)
    | .clearSubs => some (t.free .subs)
    | .shutdownLog => some (t.free .logPool)

inductive LifeAct where
  | main
  /-- a worker takes a message, the control thread a job -/
  | take (i : Inst)
  | log (i : Inst)
  /-- `DtsMw() != nullptr` -/
  | check (i : Inst)
  /-- `DtsMw()->publish_…` -/
  | publish (i : Inst)
  | finish (i : Inst)
  | exit (i : Inst)
  /-- the transport calls a listener -/
  | enter
  /-- `m_fn(m_ctx, …)` -/
  | route (k : ℕ)
  | warn (k : ℕ)
  /-- back in the loop of `on_data_available` -/
  | next (k : ℕ)
  | leave (k : ℕ)

def lifeStep (joined : Bool) (s : LifeState) : LifeAct → Option LifeState
  | .main => mainStep joined s
  | .take i =>
    if s.users i = .idle then
      let t := s.goTo i .handling
      -- the message of a worker borrows the session instance of its subscription
      if i = .control then some t else some (t.touch .subs)
    else none
  | .log i => if s.users i = .handling then some (s.touch .logPool) else none
  | .check i =>
    if s.users i = .handling then
      if s.alive .mwPointer then some (s.goTo i .checked) else some s
    else none
  | .publish i =>
    if s.users i = .checked then some (((s.goTo i .handling).touch .mwPointer).touch .comm)
    else none
  | .finish i => if s.users i = .handling then some (s.goTo i .idle) else none
  | .exit i => if s.users i = .idle ∧ s.stopFlag i then some (s.goTo i .ended) else none
  | .enter =>
    if s.receiving then
      some ((s.setCallbacks (s.callbacks ++ [.entered])).touch .listeners)
    else none
  | .route k =>
    if s.callbacks[k]? = some .entered then
      some (((s.setCallbacks (s.callbacks.set k .routed)).touch .listeners).touch .subs)
    else none
  | .warn k => if s.callbacks[k]? = some .routed then some (s.touch .logPool) else none
  | .next k =>
    if s.callbacks[k]? = some .routed then
      some ((s.setCallbacks (s.callbacks.set k .entered)).touch .listeners)
    else none
  | .leave k =>
    if s.callbacks[k]? = some .entered then some (s.setCallbacks (s.callbacks.eraseIdx k)) else none

/-- **The law.** -/
structure LifecycleLaw (joined : Bool) (s : LifeState) : Prop where
  /-- nothing that is freed was used -/
  safe : s.fault = false
  /-- the main thread can come to its end -/
  ends : ∃ as t, exec (lifeStep joined) s as = some t ∧ t.rest = []

/--
What the library promises of `delete_participant`: the receive threads have ended when it answers that
the participant is deleted, and a participant that it refuses keeps them.
-/
def DeleteJoins (deleted joined : Bool) : Prop := joined = true ↔ deleted = true

/-! ## As joins and frees -/

/-- Which thread uses what; `none` is the receive threads. -/
def lifeUses : Option Inst → Resource → Bool
  | none, .listeners | none, .subs | none, .logPool => true
  | none, _ => false
  | some _, .listeners => false
  | some .control, .subs => false
  | some _, _ => true

def Stmt.ops (joined : Bool) : Stmt → List (TeardownOp (Option Inst) Resource)
  | .setStop _ => []
  | .destroyThread i => [.join (some i)]
  | .mwSet => [.free .mwPointer]
  | .deleteParticipant => if joined then [.join none] else []
  | .deleteState => [.free .listeners]
  | .deleteImpl => [.free .comm]
  | .clearSubs => [.free .subs]
  | .shutdownLog => [.free .logPool]

/-- The threads that run in front of `Stop`. -/
def lifeThreads (created : Inst → Bool) (up : Bool) : Option Inst → Bool
  | none => up
  | some i => created i

/-- The state `a` of the teardown stands for `s`. -/
structure Follows (joined : Bool) (s : LifeState) (a : Teardown (Option Inst) Resource) : Prop where
  rest : a.rest = s.rest.flatMap (Stmt.ops joined)
  alive : a.alive = s.alive
  fault : a.fault = s.fault
  users : ∀ i, s.users i ≠ .ended → a.running (some i) = true
  receive : s.receiving = true ∨ s.callbacks ≠ [] → a.running none = true

variable {joined : Bool} {s t : LifeState} {a : Teardown (Option Inst) Resource}

namespace Follows

/-- Threads move without ending others or coming back. -/
theorem move (h : Follows joined s a) (hrest : t.rest = s.rest) (halive : t.alive = s.alive)
    (hfault : t.fault = s.fault) (husers : ∀ i, t.users i ≠ .ended → s.users i ≠ .ended)
    (hreceive : t.receiving = true ∨ t.callbacks ≠ [] → s.receiving = true ∨ s.callbacks ≠ []) :
    Follows joined t a where
  rest := by rw [hrest, h.rest]
  alive := by rw [halive, h.alive]
  fault := by rw [hfault, h.fault]
  users := fun i hi => h.users i (husers i hi)
  receive := fun ht => h.receive (hreceive ht)

theorem goTo (h : Follows joined s a) {i : Inst} (pc : UserPc) (hi : s.users i ≠ .ended) :
    Follows joined (s.goTo i pc) a := by
  refine h.move rfl rfl rfl ?_ id
  intro j hj
  by_cases hji : j = i
  · rw [hji]
    exact hi
  · change Function.update s.users i pc j ≠ .ended at hj
    rwa [Function.update_of_ne hji] at hj

/-- A thread uses what is its to use. -/
theorem touch (h : Follows joined s a) {x : Option Inst} {r : Resource}
    (hrun : a.running x = true) (huse : lifeUses x r = true) :
    ∃ b, teardownStep lifeUses a (.use x r) = some b ∧ Follows joined (s.touch r) b ∧
      b.running = a.running := by
  refine ⟨{ a with fault := a.fault || !a.alive r }, ?_, ⟨h.rest, h.alive, ?_, h.users, h.receive⟩, rfl⟩
  · show (if a.running x && lifeUses x r then _ else none) = _
    rw [hrun, huse]
    rfl
  · show (a.fault || !a.alive r) = (s.fault || !s.alive r)
    rw [h.fault, h.alive]

end Follows

/-- A step is matched by a run of the teardown. -/
def Matched (joined : Bool) (a : Teardown (Option Inst) Resource) (t : LifeState) : Prop :=
  ∃ bs b, exec (teardownStep lifeUses) a bs = some b ∧ Follows joined t b

theorem Follows.matched (h : Follows joined s a) : Matched joined a s := ⟨[], a, rfl, h⟩

theorem Follows.matched_touch (h : Follows joined s a) {x : Option Inst} {r : Resource}
    (hrun : a.running x = true) (huse : lifeUses x r = true) :
    Matched joined a (s.touch r) := by
  obtain ⟨b, hb, hfollows, -⟩ := h.touch hrun huse
  exact ⟨[.use x r], b, by rw [exec_cons, hb]; rfl, hfollows⟩

theorem Follows.matched_touch_touch (h : Follows joined s a) {x : Option Inst} {r₁ r₂ : Resource}
    (hrun : a.running x = true) (huse₁ : lifeUses x r₁ = true) (huse₂ : lifeUses x r₂ = true) :
    Matched joined a ((s.touch r₁).touch r₂) := by
  obtain ⟨b, hb, hfollows, hsame⟩ := h.touch hrun huse₁
  obtain ⟨c, hc, hfollows', -⟩ := hfollows.touch (by rw [hsame]; exact hrun) huse₂
  refine ⟨[.use x r₁, .use x r₂], c, ?_, hfollows'⟩
  rw [exec_cons, hb]
  show exec (teardownStep lifeUses) b [.use x r₂] = some c
  rw [exec_cons, hc]
  rfl

/-- A statement that frees a resource. -/
theorem Follows.matched_free (h : Follows joined s a) {stmt : Stmt} {rest : List Stmt}
    {r : Resource} (hrest : s.rest = stmt :: rest) (hops : stmt.ops joined = [.free r]) :
    Matched joined a ({ s with rest := rest }.free r) := by
  have hhead := h.rest
  rw [hrest, List.flatMap_cons, hops, List.singleton_append] at hhead
  refine ⟨[.main], { a with
    rest := rest.flatMap (Stmt.ops joined), alive := Function.update a.alive r false }, ?_,
    rfl, ?_, h.fault, h.users, h.receive⟩
  · rw [exec_cons]
    simp only [teardownStep, hhead, Option.bind_some, exec_nil]
  · show Function.update a.alive r false = Function.update s.alive r false
    rw [h.alive]

/-- A statement that joins a thread which has ended. -/
theorem Follows.matched_join (h : Follows joined s a) {stmt : Stmt} {rest : List Stmt}
    {x : Option Inst} (hrest : s.rest = stmt :: rest) (hops : stmt.ops joined = [.join x])
    (ht : t.rest = rest) (halive : t.alive = s.alive) (hfault : t.fault = s.fault)
    (husers : ∀ i, t.users i ≠ .ended → s.users i ≠ .ended ∧ x ≠ some i)
    (hreceive : t.receiving = true ∨ t.callbacks ≠ [] →
      (s.receiving = true ∨ s.callbacks ≠ []) ∧ x ≠ none) :
    Matched joined a t := by
  have hhead := h.rest
  rw [hrest, List.flatMap_cons, hops, List.singleton_append] at hhead
  refine ⟨[.exit x, .main], { a with
    rest := rest.flatMap (Stmt.ops joined), running := Function.update a.running x false }, ?_,
    by rw [ht], by rw [halive, ← h.alive], by rw [hfault, ← h.fault], ?_, ?_⟩
  · rw [exec_cons]
    show exec (teardownStep lifeUses)
      { a with running := Function.update a.running x false } [.main] = _
    rw [exec_cons]
    simp only [teardownStep, hhead, Function.update_self, Bool.false_eq_true, if_false,
      Option.bind_some, exec_nil]
  · intro i hi
    obtain ⟨hs, hne⟩ := husers i hi
    show Function.update a.running x false (some i) = true
    rw [Function.update_of_ne (Ne.symm hne)]
    exact h.users i hs
  · intro hr
    obtain ⟨hs, hne⟩ := hreceive hr
    show Function.update a.running x false none = true
    rw [Function.update_of_ne (Ne.symm hne)]
    exact h.receive hs

theorem matched_main (h : Follows joined s a) (hstep : mainStep joined s = some t) :
    Matched joined a t := by
  unfold mainStep at hstep
  split at hstep
  · cases hstep
  · rename_i stmt rest hrest
    cases stmt with
    | setStop i =>
      cases hstep
      refine ⟨[], a, rfl, ?_, h.alive, h.fault, h.users, h.receive⟩
      rw [h.rest, hrest]
      rfl
    | destroyThread i =>
      simp only at hstep
      split at hstep
      · rename_i hended
        cases hstep
        refine h.matched_join hrest rfl rfl rfl rfl (fun j hj => ⟨hj, ?_⟩) fun hr => ⟨hr, by simp⟩
        rintro ⟨rfl⟩
        exact hj hended
      · cases hstep
    | mwSet =>
      cases hstep
      exact h.matched_free hrest rfl
    | deleteParticipant =>
      cases joined with
      | true =>
        simp only [if_true] at hstep
        split at hstep
        · rename_i hnone
          cases hstep
          refine h.matched_join hrest rfl rfl rfl rfl (fun j hj => ⟨hj, by simp⟩) ?_
          rintro (hr | hr)
          · cases hr
          · exact absurd hnone hr
        · cases hstep
      | false =>
        cases hstep
        refine ⟨[], a, rfl, ?_, h.alive, h.fault, h.users, h.receive⟩
        rw [h.rest, hrest]
        rfl
    | deleteState | deleteImpl | clearSubs | shutdownLog =>
      cases hstep
      exact h.matched_free hrest rfl

/-- Where a callback is, there is a receive thread. -/
theorem Follows.running_none (h : Follows joined s a) {k : ℕ} {pc : CallbackPc}
    (hk : s.callbacks[k]? = some pc) : a.running none = true := by
  refine h.receive (Or.inr ?_)
  intro hnil
  rw [hnil] at hk
  cases hk

theorem Follows.setCallbacks (h : Follows joined s a) (callbacks : List CallbackPc)
    (hrun : s.receiving = true ∨ s.callbacks ≠ []) :
    Follows joined (s.setCallbacks callbacks) a :=
  h.move rfl rfl rfl (fun _ hi => hi) fun _ => hrun

/-- **Simulation.** -/
theorem matched_step {act : LifeAct} (h : Follows joined s a)
    (hstep : lifeStep joined s act = some t) : Matched joined a t := by
  have hne : ∀ {i : Inst} {pc : UserPc}, s.users i = pc → pc ≠ .ended → s.users i ≠ .ended := by
    intro i pc hi hpc
    rwa [hi]
  cases act with
  | main => exact matched_main h hstep
  | take i =>
    simp only [lifeStep] at hstep
    split at hstep
    · rename_i hi
      have hi := hne hi (by decide)
      split at hstep
      · cases hstep
        exact (h.goTo _ hi).matched
      · rename_i hworker
        cases hstep
        refine (h.goTo _ hi).matched_touch (h.users i hi) ?_
        cases i with
        | control => exact absurd rfl hworker
        | _ => rfl
    · cases hstep
  | log i =>
    simp only [lifeStep] at hstep
    split at hstep
    · rename_i hi
      cases hstep
      exact h.matched_touch (h.users i (hne hi (by decide))) (by cases i <;> rfl)
    · cases hstep
  | check i =>
    simp only [lifeStep] at hstep
    split at hstep
    · rename_i hi
      split at hstep
      · cases hstep
        exact (h.goTo _ (hne hi (by decide))).matched
      · cases hstep
        exact h.matched
    · cases hstep
  | publish i =>
    simp only [lifeStep] at hstep
    split at hstep
    · rename_i hi
      have hi := hne hi (by decide)
      cases hstep
      exact (h.goTo _ hi).matched_touch_touch (h.users i hi) (by cases i <;> rfl)
        (by cases i <;> rfl)
    · cases hstep
  | finish i =>
    simp only [lifeStep] at hstep
    split at hstep
    · rename_i hi
      cases hstep
      exact (h.goTo _ (hne hi (by decide))).matched
    · cases hstep
  | exit i =>
    simp only [lifeStep] at hstep
    split at hstep
    · rename_i hi
      cases hstep
      exact (h.goTo _ (hne hi.1 (by decide))).matched
    · cases hstep
  | enter =>
    simp only [lifeStep] at hstep
    split at hstep
    · rename_i hr
      cases hstep
      exact (h.setCallbacks _ (Or.inl hr)).matched_touch (h.receive (Or.inl hr)) rfl
    · cases hstep
  | route k =>
    simp only [lifeStep] at hstep
    split at hstep
    · rename_i hk
      have hrun : s.callbacks ≠ [] := fun hnil => by simp [hnil] at hk
      cases hstep
      exact (h.setCallbacks _ (Or.inr hrun)).matched_touch_touch (h.running_none hk) rfl rfl
    · cases hstep
  | warn k =>
    simp only [lifeStep] at hstep
    split at hstep
    · rename_i hk
      cases hstep
      exact h.matched_touch (h.running_none hk) rfl
    · cases hstep
  | next k =>
    simp only [lifeStep] at hstep
    split at hstep
    · rename_i hk
      have hrun : s.callbacks ≠ [] := fun hnil => by simp [hnil] at hk
      cases hstep
      exact (h.setCallbacks _ (Or.inr hrun)).matched_touch (h.running_none hk) rfl
    · cases hstep
  | leave k =>
    simp only [lifeStep] at hstep
    split at hstep
    · rename_i hk
      have hrun : s.callbacks ≠ [] := fun hnil => by simp [hnil] at hk
      cases hstep
      exact (h.setCallbacks _ (Or.inr hrun)).matched
    · cases hstep

/-- In front of `Stop` the threads are those that were created. -/
theorem follows_init (created : Inst → Bool) (up : Bool) :
    Follows joined (LifeState.init created up)
      (Teardown.init (lifeThreads created up) (stopProgram.flatMap (Stmt.ops joined))) where
  rest := rfl
  alive := rfl
  fault := rfl
  users := by
    intro i hi
    change (if created i then UserPc.idle else .ended) ≠ .ended at hi
    by_contra hnot
    exact hi (if_neg hnot)
  receive := by
    rintro (hup | hnil)
    · exact hup
    · exact absurd rfl hnil

/-- All threads, or all but the receive threads. -/
def lifeThreadList (up : Bool) : List (Option Inst) :=
  (if up then [none] else []) ++ [some .task, some .data, some .log, some .control]

theorem guarded_all (up : Bool) : Guarded lifeUses (lifeThreads (fun _ => true) up)
      (stopProgram.flatMap (Stmt.ops joined)) ↔ (up = true → joined = true) := by
  have hall : ∀ t, lifeThreads (fun _ => true) up t = true ↔ t ∈ lifeThreadList up := by
    intro t
    cases up <;> rcases t with _ | (_ | _ | _ | _) <;> decide
  rw [guarded_iff hall]
  cases up <;> cases joined <;> decide

/-- `Stop` frees everything behind the joins of its users, unless receive threads stay behind. -/
theorem guarded_stopProgram (created : Inst → Bool) (up : Bool) :
    Guarded lifeUses (lifeThreads created up) (stopProgram.flatMap (Stmt.ops joined)) ↔
      (up = true → joined = true) := by
  constructor
  · intro h hup
    subst hup
    have hreceive : Guarded lifeUses (lifeThreads (fun _ => false) true)
        (stopProgram.flatMap (Stmt.ops joined)) := h.mono fun t ht => by
      cases t with
      | none => rfl
      | some i => cases ht
    have hall : ∀ t, lifeThreads (fun _ => false) true t = true ↔ t ∈ [none] := by
      intro t
      rcases t with _ | (_ | _ | _ | _) <;> decide
    rw [guarded_iff hall] at hreceive
    cases joined with
    | true => rfl
    | false => exact absurd hreceive (by decide)
  · intro h
    refine ((guarded_all up).mpr h).mono fun t ht => ?_
    cases t with
    | none => exact ht
    | some i => rfl

/-- **Safety.** -/
theorem faultless_of_run {created : Inst → Bool} {up : Bool} (h : up = true → joined = true)
    {run : List LifeAct} (hrun : exec (lifeStep joined) (LifeState.init created up) run = some s) :
    s.fault = false := by
  obtain ⟨bs, b, hb, hfollows⟩ := exec_refinement (Follows joined)
    (fun _ _ _ _ hR hstep => matched_step hR hstep) (follows_init created up) hrun
  rw [← hfollows.fault]
  exact faultless_iff.mpr ((guarded_stopProgram created up).mpr h) bs b hb

/-! ## The end -/

/-- What the statements that are done have left behind. -/
structure EndInv (s : LifeState) : Prop where
  suffix : s.rest <:+ stopProgram
  told : ∀ i, .setStop i ∉ s.rest → s.stopFlag i = true
  freed : .deleteState ∉ s.rest → s.alive .listeners = false

theorem endInv_init (created : Inst → Bool) (up : Bool) : EndInv (LifeState.init created up) where
  suffix := List.suffix_refl _
  told := by
    intro i hi
    exact absurd (show .setStop i ∈ stopProgram by cases i <;> decide) hi
  freed := fun h => absurd (show .deleteState ∈ stopProgram by decide) h

/-- Only the main thread changes what `EndInv` is about. -/
theorem quiet_step {act : LifeAct} (hact : act ≠ .main) (hstep : lifeStep joined s act = some t) :
    t.rest = s.rest ∧ t.stopFlag = s.stopFlag ∧ t.alive = s.alive ∧ t.receiving = s.receiving := by
  cases act with
  | main => exact absurd rfl hact
  | take i | check i =>
    simp only [lifeStep] at hstep
    split at hstep
    · split at hstep <;> cases hstep <;> exact ⟨rfl, rfl, rfl, rfl⟩
    · cases hstep
  | _ =>
    simp only [lifeStep] at hstep
    split at hstep
    · cases hstep
      exact ⟨rfl, rfl, rfl, rfl⟩
    · cases hstep

theorem endInv_main (h : EndInv s) (hstep : mainStep joined s = some t) : EndInv t := by
  unfold mainStep at hstep
  split at hstep
  · cases hstep
  · rename_i stmt rest hrest
    have hsuffix : rest <:+ stopProgram :=
      (List.suffix_cons stmt rest).trans (hrest ▸ h.suffix)
    have htold : ∀ i, stmt ≠ .setStop i → .setStop i ∉ rest → s.stopFlag i = true := by
      intro i hne hi
      refine h.told i ?_
      rw [hrest, List.mem_cons]
      rintro (heq | hi')
      · exact hne heq.symm
      · exact hi hi'
    have hfreed : stmt ≠ .deleteState → .deleteState ∉ rest → s.alive .listeners = false := by
      intro hne hi
      refine h.freed ?_
      rw [hrest, List.mem_cons]
      rintro (heq | hi')
      · exact hne heq.symm
      · exact hi hi'
    cases stmt with
    | setStop i =>
      cases hstep
      refine ⟨hsuffix, fun j hj => ?_, hfreed (by simp)⟩
      show Function.update s.stopFlag i true j = true
      by_cases hji : j = i
      · rw [hji, Function.update_self]
      · rw [Function.update_of_ne hji]
        exact htold j (fun heq => hji (Stmt.setStop.inj heq).symm) hj
    | destroyThread i =>
      simp only at hstep
      split at hstep
      · cases hstep
        exact ⟨hsuffix, fun j => htold j (by simp), hfreed (by simp)⟩
      · cases hstep
    | deleteParticipant =>
      simp only at hstep
      split at hstep
      · split at hstep
        · cases hstep
          exact ⟨hsuffix, fun j => htold j (by simp), hfreed (by simp)⟩
        · cases hstep
      · cases hstep
        exact ⟨hsuffix, fun j => htold j (by simp), hfreed (by simp)⟩
    | deleteState =>
      cases hstep
      exact ⟨hsuffix, fun j => htold j (by simp), fun _ => rfl⟩
    | mwSet | deleteImpl | clearSubs | shutdownLog =>
      cases hstep
      exact ⟨hsuffix, fun j => htold j (by simp), hfreed (by simp)⟩

theorem endInv_step {act : LifeAct} (h : EndInv s) (hstep : lifeStep joined s act = some t) :
    EndInv t := by
  by_cases hact : act = .main
  · subst hact
    exact endInv_main h hstep
  · obtain ⟨hrest, hflag, halive, -⟩ := quiet_step hact hstep
    exact ⟨hrest ▸ h.suffix, by rw [hrest, hflag]; exact h.told, by rw [hrest, halive]; exact h.freed⟩

/-- `s` goes on to a state with `P` by steps of the other threads. -/
def Yields (joined : Bool) (s : LifeState) (P : LifeState → Prop) : Prop :=
  ∃ as t, exec (lifeStep joined) s as = some t ∧ t.rest = s.rest ∧ t.receiving = s.receiving ∧
    EndInv t ∧ P t

theorem Yields.refl {P : LifeState → Prop} (h : EndInv s) (hP : P s) : Yields joined s P :=
  ⟨[], s, rfl, rfl, rfl, h, hP⟩

theorem Yields.step {P : LifeState → Prop} {act : LifeAct} (hact : act ≠ .main)
    (hstep : lifeStep joined s act = some t) (h : Yields joined t P) : Yields joined s P := by
  obtain ⟨as, u, hexec, hrest, hreceiving, hinv, hP⟩ := h
  obtain ⟨hrest', -, -, hreceiving'⟩ := quiet_step hact hstep
  refine ⟨act :: as, u, ?_, hrest.trans hrest', hreceiving.trans hreceiving', hinv, hP⟩
  rw [exec_cons, hstep]
  exact hexec

/-- A thread that is told to end does. -/
theorem exists_mainEnded (h : EndInv s) {i : Inst} (hflag : s.stopFlag i = true) :
    Yields joined s fun t => t.users i = .ended := by
  have hidle : ∀ {s : LifeState}, EndInv s → s.stopFlag i = true → s.users i = .idle →
      Yields joined s fun t => t.users i = .ended := by
    intro s h hflag hi
    have hstep : lifeStep joined s (.exit i) = some (s.goTo i .ended) := if_pos ⟨hi, hflag⟩
    exact .step (by simp) hstep (.refl (endInv_step h hstep) (Function.update_self ..))
  have hhandling : ∀ {s : LifeState}, EndInv s → s.stopFlag i = true → s.users i = .handling →
      Yields joined s fun t => t.users i = .ended := by
    intro s h hflag hi
    have hstep : lifeStep joined s (.finish i) = some (s.goTo i .idle) := if_pos hi
    exact .step (by simp) hstep (hidle (endInv_step h hstep) hflag (Function.update_self ..))
  cases hi : s.users i with
  | idle => exact hidle h hflag hi
  | handling => exact hhandling h hflag hi
  | checked =>
    have hstep : lifeStep joined s (.publish i) =
        some (((s.goTo i .handling).touch .mwPointer).touch .comm) := if_pos hi
    exact .step (by simp) hstep (hhandling (endInv_step h hstep) hflag (Function.update_self ..))
  | ended => exact .refl h hi

/-- The receive threads come back from the listeners. -/
theorem exists_noCallbacks (h : EndInv s) : Yields joined s fun t => t.callbacks = [] := by
  generalize hcs : s.callbacks = cs
  induction cs generalizing s with
  | nil => exact .refl h hcs
  | cons pc cs ih =>
    have hentered : ∀ {s : LifeState}, EndInv s → s.callbacks = .entered :: cs →
        Yields joined s fun t => t.callbacks = [] := by
      intro s h hcs
      have hstep : lifeStep joined s (.leave 0) = some (s.setCallbacks (s.callbacks.eraseIdx 0)) :=
        if_pos (by rw [hcs]; rfl)
      refine .step (by simp) hstep (ih (endInv_step h hstep) ?_)
      show s.callbacks.eraseIdx 0 = cs
      rw [hcs]
      rfl
    cases pc with
    | entered => exact hentered h hcs
    | routed =>
      have hstep : lifeStep joined s (.next 0) =
          some ((s.setCallbacks (s.callbacks.set 0 .entered)).touch .listeners) :=
        if_pos (by rw [hcs]; rfl)
      refine .step (by simp) hstep (hentered (endInv_step h hstep) ?_)
      show s.callbacks.set 0 .entered = _
      rw [hcs]
      rfl

/-- Behind the statement that tells it, a thread has been told. -/
theorem told_of_head (h : EndInv s) {i : Inst} {rest : List Stmt}
    (hrest : s.rest = .destroyThread i :: rest) : s.stopFlag i = true := by
  have hsuffixes : ∀ r ∈ stopProgram.tails, r.head? = some (.destroyThread i) →
      .setStop i ∉ r := by
    cases i <;> decide
  refine h.told i (hsuffixes s.rest (List.mem_tails _ _ |>.mpr h.suffix) ?_)
  rw [hrest]
  rfl

/-- The main thread goes on where the others let it. -/
theorem Yields.main {P : LifeState → Prop} {stmt : Stmt} {rest : List Stmt}
    (h : Yields joined s P) (hrest : s.rest = stmt :: rest)
    (hmain : ∀ u, u.rest = stmt :: rest → P u → ∃ t, mainStep joined u = some t ∧ t.rest = rest ∧
      (joined = false → t.receiving = u.receiving)) :
    ∃ as t, exec (lifeStep joined) s as = some t ∧ t.rest = rest ∧ EndInv t ∧
      (joined = false → t.receiving = s.receiving) := by
  obtain ⟨as, u, hexec, hsame, hreceiving, hinv, hP⟩ := h
  obtain ⟨t, ht, htrest, htreceiving⟩ := hmain u (hsame.trans hrest) hP
  refine ⟨as ++ [.main], t, ?_, htrest, endInv_main hinv ht,
    fun hd => (htreceiving hd).trans hreceiving⟩
  rw [exec_append, hexec, Option.bind_some, exec_cons]
  show (mainStep joined u).bind _ = some t
  rw [ht]
  rfl

/-- The next statement gets done. -/
theorem exists_statement (h : EndInv s) {stmt : Stmt} {rest : List Stmt}
    (hrest : s.rest = stmt :: rest) :
    ∃ as t, exec (lifeStep joined) s as = some t ∧ t.rest = rest ∧ EndInv t ∧
      (joined = false → t.receiving = s.receiving) := by
  cases stmt with
  | destroyThread i =>
    refine (exists_mainEnded h (told_of_head h hrest)).main hrest fun u hu hended => ?_
    refine ⟨{ u with rest := rest }, ?_, rfl, fun _ => rfl⟩
    unfold mainStep
    rw [hu]
    exact if_pos hended
  | deleteParticipant =>
    refine (exists_noCallbacks h).main hrest fun u hu hnone => ?_
    cases joined with
    | true =>
      refine ⟨{ u with rest := rest, receiving := false }, ?_, rfl, fun hd => by cases hd⟩
      unfold mainStep
      rw [hu]
      exact if_pos hnone
    | false =>
      refine ⟨{ u with rest := rest }, ?_, rfl, fun _ => rfl⟩
      unfold mainStep
      rw [hu]
      rfl
  | _ =>
    refine (Yields.refl (P := fun _ => True) h trivial).main hrest fun u hu _ => ?_
    unfold mainStep
    rw [hu]
    exact ⟨_, rfl, rfl, fun _ => rfl⟩

variable (joined) in
/-- And so do the next ones. -/
theorem exists_statements (pre : List Stmt) {post : List Stmt} (h : EndInv s)
    (hrest : s.rest = pre ++ post) :
    ∃ as t, exec (lifeStep joined) s as = some t ∧ t.rest = post ∧ EndInv t ∧
      (joined = false → t.receiving = s.receiving) := by
  induction pre generalizing s with
  | nil => exact ⟨[], s, rfl, hrest, h, fun _ => rfl⟩
  | cons stmt pre ih =>
    obtain ⟨as, t, hexec, ht, hinv, hreceiving⟩ := exists_statement h hrest
    obtain ⟨bs, u, hexec', hu, hinv', hreceiving'⟩ := ih hinv ht
    refine ⟨as ++ bs, u, ?_, hu, hinv', fun hd => (hreceiving' hd).trans (hreceiving hd)⟩
    rw [exec_append, hexec]
    exact hexec'

/--
**The end of the process.** Whichever threads were created, in every interleaving nobody uses what
`Stop` has freed, and the main thread can come to its end, exactly when `delete_participant` does not
refuse the participant of a transport that is up.
-/
theorem lifecycleLaw_iff (deleted joined : Bool) (hdelete : DeleteJoins deleted joined)
    (created : Inst → Bool) (up : Bool) :
    (∀ run s, exec (lifeStep joined) (LifeState.init created up) run = some s →
      LifecycleLaw joined s) ↔ (up = true → deleted = true) := by
  constructor
  · intro h hup
    by_contra hrefused
    have hjoined : joined = false := eq_false_of_ne_true fun hj => hrefused (hdelete.mp hj)
    obtain ⟨as, t, hexec, hrest, hinv, hreceiving⟩ := exists_statements joined
      (stopProgram.take 11) (endInv_init created up) (List.take_append_drop 11 stopProgram).symm
    have hfreed : t.alive .listeners = false := hinv.freed (by rw [hrest]; decide)
    have henter : lifeStep joined t .enter =
        some ((t.setCallbacks (t.callbacks ++ [.entered])).touch .listeners) :=
      if_pos ((hreceiving hjoined).trans hup)
    have hrun : exec (lifeStep joined) (LifeState.init created up) (as ++ [.enter]) =
        some ((t.setCallbacks (t.callbacks ++ [.entered])).touch .listeners) := by
      rw [exec_append, hexec, Option.bind_some, exec_cons, henter]
      rfl
    have hsafe := (h _ _ hrun).safe
    change (t.fault || !t.alive .listeners) = false at hsafe
    rw [hfreed, Bool.not_false, Bool.or_true] at hsafe
    cases hsafe
  · intro h run s hrun
    have hinv : EndInv s :=
      Reachable.invariant ⟨run, hrun⟩ (endInv_init created up) fun _ _ _ => endInv_step
    obtain ⟨as, t, hexec, hrest, -⟩ := exists_statements joined s.rest hinv
      (List.append_nil _).symm
    exact ⟨faultless_of_run (fun hup => hdelete.mpr (h hup)) hrun, as, t, hexec, hrest⟩

/-- All four threads and a transport: a participant that is refused makes the difference. -/
theorem lifecycleLaw_fourThreads :
    (∀ run s, exec (lifeStep true) (LifeState.init (fun _ => true) true) run = some s →
      LifecycleLaw true s) ∧
    ¬ ∀ run s, exec (lifeStep false) (LifeState.init (fun _ => true) true) run = some s →
      LifecycleLaw false s :=
  ⟨(lifecycleLaw_iff true true Iff.rfl (fun _ => true) true).mpr fun _ => rfl,
    fun h => Bool.false_ne_true
      ((lifecycleLaw_iff false false Iff.rfl (fun _ => true) true).mp h rfl)⟩

end Dts.Bootstrap
