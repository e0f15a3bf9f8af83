import Mathlib.Data.Nat.Notation
import Mathlib.Logic.Function.Basic
import Dts.Infra.Monitor
import Dts.Infra.Run

/-!
# The stop signal of the process

`Run` waits on a `StopSignal`, and the handler of SIGINT and SIGTERM requests the stop on whatever
thread the signal is delivered to. `Request` takes a mutex, so the handler waits for it there: a
thread that is interrupted while it has the mutex waits for itself. The library may hold a lock of its
own inside `notify_all`, with the same effect. While a handler runs its own signal is masked, the
other one is not.

* `stopSignalLaw_iff` — nobody waits for good exactly when no signal comes to the thread that has the
  mutex, or the lock inside `notify_all`
-/

namespace Dts.Bootstrap

open Infra

/-! ## The threads -/

inductive Signal where
  | int
  | term
  deriving DecidableEq

/-- Inside `Request`: before the lock, with the lock, behind the store, behind the unlock, and inside
`notify_all` with the lock of the library. -/
inductive RequestPc where
  | lock
  | store
  | unlock
  | notifyAll
  | broadcast
  deriving DecidableEq

/-- A call of `Request`, by a handler or by the program of the thread. -/
structure Frame where
  handler : Option Signal
  pc : RequestPc
  deriving DecidableEq

/-- The mutex is held by the frame. -/
def Frame.holds (f : Frame) : Bool := f.pc = .store ∨ f.pc = .unlock

/--
Thread 0 is the main thread, inside `Wait` or not. The frames of a thread are what runs on top of its
program, the innermost one first. `cv` is who has the lock of the library.
-/
structure StopState where
  mon : Monitor ℕ
  cv : Option ℕ
  stopped : Bool
  frames : ℕ → List Frame
  returned : Bool

def StopState.init : StopState where
  mon := Monitor.init
  cv := none
  stopped := false
  frames := fun _ => []
  returned := false

/-- The next step of `Wait`. -/
def waitRun (s : StopState) : Option StopState :=
  match s.mon.waiter with
  | .out => if !s.returned && s.mon.owner.isNone then some { s with mon := s.mon.acquire } else none
  | .holding =>
    if s.stopped then some { s with mon := s.mon.leave, returned := true }
    else some { s with mon := s.mon.decide }
  | .decided => some { s with mon := s.mon.sleep }
  | .asleep => none
  | .awake => if s.mon.owner.isNone then some { s with mon := s.mon.acquire } else none

/-- The next step of the frame `f` on top of the stack of thread `i`. The library takes its lock in
`notify_all`, or sees that it need not. -/
def requestRun (i : ℕ) (f : Frame) (rest : List Frame) (cvLock : Bool) (s : StopState) :
    Option StopState :=
  match f.pc with
  | .lock =>
    if s.mon.owner.isNone then
      some { s with
        mon := s.mon.lock i
        frames := Function.update s.frames i ({ f with pc := .store } :: rest) }
    else none
  | .store =>
    some { s with
      stopped := true
      frames := Function.update s.frames i ({ f with pc := .unlock } :: rest) }
  | .unlock =>
    some { s with
      mon := s.mon.unlock
      frames := Function.update s.frames i ({ f with pc := .notifyAll } :: rest) }
  | .notifyAll =>
    if cvLock then
      if s.cv.isNone then
        some { s with
          cv := some i
          frames := Function.update s.frames i ({ f with pc := .broadcast } :: rest) }
      else none
    else some { s with mon := s.mon.wake, frames := Function.update s.frames i rest }
  | .broadcast =>
    some { s with mon := s.mon.wake, cv := none, frames := Function.update s.frames i rest }

/-- A signal is delivered to thread `i`, its program calls `Stop`, the thread goes on, or the sleep
of the main thread ends for no reason. -/
inductive StopAct where
  | deliver (i : ℕ) (sig : Signal)
  | call (i : ℕ)
  | run (i : ℕ) (cvLock : Bool)
  | wake

def stopStep (s : StopState) : StopAct → Option StopState
  | .deliver i sig =>
    if (s.frames i).all fun f => f.handler ≠ some sig then
      some { s with frames := Function.update s.frames i (⟨some sig, .lock⟩ :: s.frames i) }
    else none
  | .call i =>
    if i ≠ 0 ∧ s.frames i = [] then
      some { s with frames := Function.update s.frames i [⟨none, .lock⟩] }
    else none
  | .run i cvLock =>
    match s.frames i with
    | f :: rest => requestRun i f rest cvLock s
    | [] => if i = 0 then waitRun s else none
  | .wake => some { s with mon := s.mon.wake }

/-! ## The law -/

/-- The thread has the mutex, in one of its frames or in `Wait`. -/
def Holds (s : StopState) (i : ℕ) : Prop :=
  s.mon.owner = some (.other i) ∨ (i = 0 ∧ s.mon.owner = some .waiter)

/-- Behind the store of the stop, and before the end of the call. -/
def Frame.notifies (f : Frame) : Prop := f.pc = .unlock ∨ f.pc = .notifyAll ∨ f.pc = .broadcast

/-- A request that will still notify. -/
def Owed (frames : ℕ → List Frame) : Prop := ∃ i, ∃ f ∈ frames i, f.notifies

/-- The threads go on by themselves from `s` to `t`, also if `notify_all` always takes its lock. -/
def Continues (s t : StopState) : Prop :=
  ∃ is : List ℕ, exec stopStep s (is.map fun i => .run i true) = some t

/-- **The law.** -/
structure StopSignalLaw (s : StopState) : Prop where
  /-- `Wait` returns behind a request only -/
  requested : s.returned = true → s.stopped = true
  /-- a main thread that sleeps through a request will be notified -/
  heard : s.stopped = true → s.mon.waiter = .asleep → Owed s.frames
  /-- every call of `Request` can end, the handler's too -/
  ends : ∀ i, ∃ t, Continues s t ∧ t.frames i = []
  /-- and behind a request `Wait` can return -/
  stops : s.stopped = true → ∃ t, Continues s t ∧ t.returned = true

/-- No signal is delivered to the thread that has the mutex, or the lock inside `notify_all`. -/
def DeliveredOutside (s : StopState) : StopAct → Prop
  | .deliver i _ => ¬ Holds s i ∧ s.cv ≠ some i
  | _ => True

/-! ## What a step does -/

inductive Effect (s : StopState) : StopAct → StopState → Prop
  | deliver (i : ℕ) (sig : Signal) :
    Effect s (.deliver i sig)
      { s with frames := Function.update s.frames i (⟨some sig, .lock⟩ :: s.frames i) }
  | call (i : ℕ) (hne : i ≠ 0) (hidle : s.frames i = []) :
    Effect s (.call i) { s with frames := Function.update s.frames i [⟨none, .lock⟩] }
  | lock {i : ℕ} {cvLock : Bool} {f : Frame} {rest : List Frame}
    (hframes : s.frames i = f :: rest) (hpc : f.pc = .lock) (hfree : s.mon.owner = none) :
    Effect s (.run i cvLock) { s with
      mon := s.mon.lock i
      frames := Function.update s.frames i ({ f with pc := .store } :: rest) }
  | store {i : ℕ} {cvLock : Bool} {f : Frame} {rest : List Frame}
    (hframes : s.frames i = f :: rest) (hpc : f.pc = .store) :
    Effect s (.run i cvLock) { s with
      stopped := true
      frames := Function.update s.frames i ({ f with pc := .unlock } :: rest) }
  | unlock {i : ℕ} {cvLock : Bool} {f : Frame} {rest : List Frame}
    (hframes : s.frames i = f :: rest) (hpc : f.pc = .unlock) :
    Effect s (.run i cvLock) { s with
      mon := s.mon.unlock
      frames := Function.update s.frames i ({ f with pc := .notifyAll } :: rest) }
  | notify {i : ℕ} {f : Frame} {rest : List Frame} (hframes : s.frames i = f :: rest)
    (hpc : f.pc = .notifyAll) (hfree : s.cv = none) :
    Effect s (.run i true) { s with
      cv := some i
      frames := Function.update s.frames i ({ f with pc := .broadcast } :: rest) }
  | skip {i : ℕ} {f : Frame} {rest : List Frame} (hframes : s.frames i = f :: rest)
    (hpc : f.pc = .notifyAll) :
    Effect s (.run i false)
      { s with mon := s.mon.wake, frames := Function.update s.frames i rest }
  | broadcast {i : ℕ} {cvLock : Bool} {f : Frame} {rest : List Frame}
    (hframes : s.frames i = f :: rest) (hpc : f.pc = .broadcast) :
    Effect s (.run i cvLock)
      { s with mon := s.mon.wake, cv := none, frames := Function.update s.frames i rest }
  | enter {cvLock : Bool} (hmain : s.frames 0 = []) (hout : s.mon.waiter = .out)
    (hret : s.returned = false) (hfree : s.mon.owner = none) :
    Effect s (.run 0 cvLock) { s with mon := s.mon.acquire }
  | leave {cvLock : Bool} (hmain : s.frames 0 = []) (hw : s.mon.waiter = .holding)
    (hstop : s.stopped = true) :
    Effect s (.run 0 cvLock) { s with mon := s.mon.leave, returned := true }
  | decide {cvLock : Bool} (hmain : s.frames 0 = []) (hw : s.mon.waiter = .holding)
    (hstop : s.stopped = false) :
    Effect s (.run 0 cvLock) { s with mon := s.mon.decide }
  | sleep {cvLock : Bool} (hmain : s.frames 0 = []) (hw : s.mon.waiter = .decided) :
    Effect s (.run 0 cvLock) { s with mon := s.mon.sleep }
  | relock {cvLock : Bool} (hmain : s.frames 0 = []) (hw : s.mon.waiter = .awake)
    (hfree : s.mon.owner = none) :
    Effect s (.run 0 cvLock) { s with mon := s.mon.acquire }
  | wake : Effect s .wake { s with mon := s.mon.wake }

theorem requestEffect {s t : StopState} {i : ℕ} {cvLock : Bool} {f : Frame} {rest : List Frame}
    (hframes : s.frames i = f :: rest) (h : requestRun i f rest cvLock s = some t) :
    Effect s (.run i cvLock) t := by
  unfold requestRun at h
  split at h
  case h_1 hpc =>
    split at h
    · rename_i hfree
      cases h
      exact .lock hframes hpc (Option.isNone_iff_eq_none.mp hfree)
    · cases h
  case h_2 hpc =>
    cases h
    exact .store hframes hpc
  case h_3 hpc =>
    cases h
    exact .unlock hframes hpc
  case h_4 hpc =>
    cases cvLock with
    | false =>
      cases h
      exact .skip hframes hpc
    | true =>
      rw [if_pos rfl] at h
      split at h
      · rename_i hfree
        cases h
        exact .notify hframes hpc (Option.isNone_iff_eq_none.mp hfree)
      · cases h
  case h_5 hpc =>
    cases h
    exact .broadcast hframes hpc

theorem waitEffect {s t : StopState} {cvLock : Bool} (hmain : s.frames 0 = [])
    (h : waitRun s = some t) : Effect s (.run 0 cvLock) t := by
  unfold waitRun at h
  split at h
  case h_1 hw =>
    split at h
    · rename_i hfree
      rw [Bool.and_eq_true, Bool.not_eq_true'] at hfree
      cases h
      exact .enter hmain hw hfree.1 (Option.isNone_iff_eq_none.mp hfree.2)
    · cases h
  case h_2 hw =>
    split at h
    · rename_i hstop
      cases h
      exact .leave hmain hw hstop
    · rename_i hstop
      cases h
      exact .decide hmain hw (Bool.eq_false_iff.mpr hstop)
  case h_3 hw =>
    cases h
    exact .sleep hmain hw
  case h_4 => cases h
  case h_5 hw =>
    split at h
    · rename_i hfree
      cases h
      exact .relock hmain hw (Option.isNone_iff_eq_none.mp hfree)
    · cases h

theorem effect_of_step {s t : StopState} {a : StopAct} (h : stopStep s a = some t) :
    Effect s a t := by
  cases a with
  | deliver i sig =>
    simp only [stopStep] at h
    split at h
    · cases h
      exact .deliver i sig
    · cases h
  | call i =>
    simp only [stopStep] at h
    split at h
    · rename_i hi
      cases h
      exact .call i hi.1 hi.2
    · cases h
  | run i cvLock =>
    simp only [stopStep] at h
    split at h
    case h_1 f rest hframes => exact requestEffect hframes h
    case h_2 hframes =>
      split at h
      · rename_i hi
        subst hi
        exact waitEffect hframes h
      · cases h
  | wake =>
    cases h
    exact .wake

/-! ## The invariant -/

structure StopInv (s : StopState) : Prop where
  mon : s.mon.Sound (s.stopped = true) (Owed s.frames)
  owner : ∀ i, s.mon.owner = some (.other i) ↔ ∃ f ∈ s.frames i, f.holds = true
  cv : ∀ i, s.cv = some i ↔ ∃ f ∈ s.frames i, f.pc = .broadcast
  /-- one call has the lock of the library -/
  single : ∀ i, (s.frames i).Pairwise fun f g => g.pc = .broadcast → f.pc ≠ .broadcast
  /-- what runs on top of a frame with the mutex waits for it -/
  below : ∀ i, (s.frames i).Pairwise fun f g => g.holds = true → f.pc = .lock
  /-- and what runs on top of a `Wait` with the mutex -/
  waiter : s.mon.HasMutex → ∀ f ∈ s.frames 0, f.pc = .lock
  returned : s.returned = true → s.stopped = true ∧ s.mon.waiter = .out

theorem stopInv_init : StopInv StopState.init where
  mon := Monitor.sound_init
  owner := by
    intro i
    constructor
    · intro h
      cases h
    · rintro ⟨f, hf, -⟩
      cases hf
  cv := by
    intro i
    constructor
    · intro h
      cases h
    · rintro ⟨f, hf, -⟩
      cases hf
  single := fun _ => List.Pairwise.nil
  below := fun _ => List.Pairwise.nil
  waiter := by
    intro _ f hf
    cases hf
  returned := by
    intro h
    cases h

theorem Frame.holds_iff {f : Frame} : f.holds = true ↔ f.pc = .store ∨ f.pc = .unlock :=
  decide_eq_true_iff

/-- What holds of the stacks when that of thread `i` is `stack`. -/
theorem forall_update {P : ℕ → List Frame → Prop} {frames : ℕ → List Frame} {i : ℕ}
    {stack : List Frame} (hself : P i stack) (hne : ∀ j, j ≠ i → P j (frames j)) (j : ℕ) :
    P j (Function.update frames i stack j) := by
  by_cases hj : j = i
  · rw [hj, Function.update_self]
    exact hself
  · rw [Function.update_of_ne hj]
    exact hne j hj

/-- A debt of another frame stays. -/
theorem Owed.update {frames : ℕ → List Frame} {i : ℕ} {stack : List Frame} (h : Owed frames)
    (hstack : ∀ f ∈ frames i, f.notifies → ∃ g ∈ stack, g.notifies) :
    Owed (Function.update frames i stack) := by
  obtain ⟨j, f, hf, hpc⟩ := h
  by_cases hj : j = i
  · subst hj
    obtain ⟨g, hg, hgpc⟩ := hstack f hf hpc
    exact ⟨j, g, by rwa [Function.update_self], hgpc⟩
  · exact ⟨j, f, by rwa [Function.update_of_ne hj], hpc⟩

theorem StopInv.not_holds_of_free {s : StopState} (h : StopInv s) (hfree : s.mon.owner = none)
    (i : ℕ) {f : Frame} (hf : f ∈ s.frames i) : ¬f.holds = true := by
  intro hholds
  have howner := (h.owner i).mpr ⟨f, hf, hholds⟩
  rw [hfree] at howner
  cases howner

/-- Below a frame that is past the lock nobody has the mutex. -/
theorem StopInv.not_holds_rest {s : StopState} (h : StopInv s) {i : ℕ} {f : Frame}
    {rest : List Frame} (hframes : s.frames i = f :: rest) (hpc : f.pc ≠ .lock) {g : Frame}
    (hg : g ∈ rest) : ¬g.holds = true := by
  intro hholds
  have hbelow := h.below i
  rw [hframes, List.pairwise_cons] at hbelow
  exact hpc (hbelow.1 g hg hholds)

theorem StopInv.owner_of_top {s : StopState} (h : StopInv s) {i : ℕ} {f : Frame}
    {rest : List Frame} (hframes : s.frames i = f :: rest) (hholds : f.holds = true) :
    s.mon.owner = some (.other i) :=
  (h.owner i).mpr ⟨f, hframes ▸ List.mem_cons_self, hholds⟩

/-- Who has the lock of the library is not changed by other frames. -/
theorem StopInv.cv_update {s : StopState} (h : StopInv s) {i : ℕ} {stack : List Frame}
    (hstack : (∃ f ∈ stack, f.pc = .broadcast) ↔ ∃ f ∈ s.frames i, f.pc = .broadcast) (j : ℕ) :
    s.cv = some j ↔ ∃ f ∈ Function.update s.frames i stack j, f.pc = .broadcast :=
  forall_update (P := fun j stack => s.cv = some j ↔ ∃ f ∈ stack, f.pc = .broadcast)
    ((h.cv i).trans hstack.symm) (fun j _ => h.cv j) j

/-- The frame on top of a stack goes on, and is the only one there that can have the mutex. -/
theorem StopInv.setTop {s : StopState} (h : StopInv s) {i : ℕ} {g : Frame} {rest : List Frame}
    {mon : Monitor ℕ} {cv : Option ℕ} {stopped : Bool} (hrest : ∀ g ∈ rest, ¬g.holds = true)
    (hself : mon.owner = some (.other i) ↔ g.holds = true)
    (hother : ∀ j, j ≠ i → (mon.owner = some (.other j) ↔ s.mon.owner = some (.other j)))
    (hmon : mon.Sound (stopped = true) (Owed (Function.update s.frames i (g :: rest))))
    (hcv : ∀ j, cv = some j ↔ ∃ f ∈ Function.update s.frames i (g :: rest) j, f.pc = .broadcast)
    (hsingle : (g :: rest).Pairwise fun f g => g.pc = .broadcast → f.pc ≠ .broadcast)
    (hwaiter : mon.HasMutex → s.mon.HasMutex ∧ i ≠ 0)
    (hreturned : s.returned = true → stopped = true ∧ mon.waiter = .out) :
    StopInv { s with
      mon := mon
      cv := cv
      stopped := stopped
      frames := Function.update s.frames i (g :: rest) } where
  mon := hmon
  owner := by
    refine forall_update (P := fun j stack =>
      mon.owner = some (.other j) ↔ ∃ f ∈ stack, f.holds = true) ?_ ?_
    · rw [hself]
      constructor
      · exact fun hg => ⟨g, List.mem_cons_self, hg⟩
      · rintro ⟨f', hf', hholds⟩
        rcases List.mem_cons.mp hf' with rfl | hmem
        · exact hholds
        · exact absurd hholds (hrest f' hmem)
    · intro j hj
      rw [hother j hj]
      exact h.owner j
  cv := hcv
  single := forall_update (P := fun _ stack =>
    stack.Pairwise fun f g => g.pc = .broadcast → f.pc ≠ .broadcast) hsingle fun j _ => h.single j
  below := by
    refine forall_update (P := fun _ stack =>
      stack.Pairwise fun f g => g.holds = true → f.pc = .lock) ?_ ?_
    · refine List.pairwise_cons.mpr ⟨fun g' hg' hholds => absurd hholds (hrest g' hg'), ?_⟩
      exact List.pairwise_of_forall_mem_list fun _ _ g' hg' hholds => absurd hholds (hrest g' hg')
    · exact fun j _ => h.below j
  waiter := by
    intro hw
    obtain ⟨hmutex, hi⟩ := hwaiter hw
    show ∀ f ∈ Function.update s.frames i (g :: rest) 0, f.pc = .lock
    rw [Function.update_of_ne hi.symm]
    exact h.waiter hmutex
  returned := hreturned

/-- The same, in front of `notify_all`: the lock of the library stays where it is. -/
theorem StopInv.setPc {s : StopState} (h : StopInv s) {i : ℕ} {f g : Frame} {rest : List Frame}
    {mon : Monitor ℕ} {stopped : Bool} (hframes : s.frames i = f :: rest)
    (hf : f.pc ≠ .broadcast) (hg : g.pc ≠ .broadcast) (hrest : ∀ g ∈ rest, ¬g.holds = true)
    (hself : mon.owner = some (.other i) ↔ g.holds = true)
    (hother : ∀ j, j ≠ i → (mon.owner = some (.other j) ↔ s.mon.owner = some (.other j)))
    (hmon : mon.Sound (stopped = true) (Owed (Function.update s.frames i (g :: rest))))
    (hwaiter : ¬mon.HasMutex)
    (hreturned : s.returned = true → stopped = true ∧ mon.waiter = .out) :
    StopInv { s with
      mon := mon
      stopped := stopped
      frames := Function.update s.frames i (g :: rest) } := by
  have hsingle := h.single i
  rw [hframes, List.pairwise_cons] at hsingle
  refine h.setTop hrest hself hother hmon (h.cv_update ?_)
    (List.pairwise_cons.mpr ⟨fun _ _ _ => hg, hsingle.2⟩) (fun hw => absurd hw hwaiter) hreturned
  rw [hframes]
  constructor
  · rintro ⟨g', hg', hpc⟩
    rcases List.mem_cons.mp hg' with rfl | hmem
    · exact absurd hpc hg
    · exact ⟨g', List.mem_cons_of_mem f hmem, hpc⟩
  · rintro ⟨g', hg', hpc⟩
    rcases List.mem_cons.mp hg' with rfl | hmem
    · exact absurd hpc hf
    · exact ⟨g', List.mem_cons_of_mem g hmem, hpc⟩

theorem StopInv.lock {s : StopState} (h : StopInv s) {i : ℕ} {f : Frame} {rest : List Frame}
    (hframes : s.frames i = f :: rest) (hpc : f.pc = .lock) (hfree : s.mon.owner = none) :
    StopInv { s with
      mon := s.mon.lock i
      frames := Function.update s.frames i ({ f with pc := .store } :: rest) } := by
  have hmutex : ¬s.mon.HasMutex := by
    intro hw
    have howner := h.mon.owned.mpr hw
    rw [hfree] at howner
    cases howner
  refine h.setPc hframes (hpc.trans_ne (by simp)) (by simp) ?_
    (iff_of_true rfl rfl) ?_ ?_ hmutex h.returned
  · exact fun g hg => h.not_holds_of_free hfree i (hframes ▸ List.mem_cons_of_mem f hg)
  · intro j hj
    rw [hfree]
    refine iff_of_false ?_ ?_
    · intro howner
      cases howner
      exact hj rfl
    · intro howner
      cases howner
  · refine (h.mon.lock hfree i).weaken id fun howed => howed.update ?_
    intro g hg hgpc
    rw [hframes] at hg
    rcases List.mem_cons.mp hg with rfl | hmem
    · rw [Frame.notifies, hpc] at hgpc
      rcases hgpc with hgpc | hgpc | hgpc <;> cases hgpc
    · exact ⟨g, List.mem_cons_of_mem _ hmem, hgpc⟩

theorem StopInv.store {s : StopState} (h : StopInv s) {i : ℕ} {f : Frame} {rest : List Frame}
    (hframes : s.frames i = f :: rest) (hpc : f.pc = .store) :
    StopInv { s with
      stopped := true
      frames := Function.update s.frames i ({ f with pc := .unlock } :: rest) } := by
  have howner := h.owner_of_top hframes (Frame.holds_iff.mpr (.inl hpc))
  refine h.setPc hframes (hpc.trans_ne (by simp)) (by simp) ?_
    (iff_of_true howner rfl) (fun j _ => Iff.rfl) ?_ (h.mon.not_hasMutex howner) ?_
  · exact fun g hg => h.not_holds_rest hframes (hpc.trans_ne (by simp)) hg
  · refine h.mon.change_locked howner ⟨i, { f with pc := .unlock }, ?_, .inl rfl⟩
    rw [Function.update_self]
    exact List.mem_cons_self
  · exact fun hret => ⟨rfl, (h.returned hret).2⟩

theorem StopInv.unlock {s : StopState} (h : StopInv s) {i : ℕ} {f : Frame} {rest : List Frame}
    (hframes : s.frames i = f :: rest) (hpc : f.pc = .unlock) :
    StopInv { s with
      mon := s.mon.unlock
      frames := Function.update s.frames i ({ f with pc := .notifyAll } :: rest) } := by
  have howner := h.owner_of_top hframes (Frame.holds_iff.mpr (.inr hpc))
  refine h.setPc hframes (hpc.trans_ne (by simp)) (by simp) ?_
    (iff_of_false (fun h => by cases h) (fun h => by cases h)) ?_ ?_
    (h.mon.not_hasMutex howner) h.returned
  · exact fun g hg => h.not_holds_rest hframes (hpc.trans_ne (by simp)) hg
  · intro j hj
    rw [howner]
    refine iff_of_false (fun h => by cases h) ?_
    intro hj'
    cases hj'
    exact hj rfl
  · refine (h.mon.unlock howner).weaken id fun howed => howed.update ?_
    intro g hg hgpc
    rw [hframes] at hg
    rcases List.mem_cons.mp hg with rfl | hmem
    · exact ⟨_, List.mem_cons_self, .inr (.inl rfl)⟩
    · exact ⟨g, List.mem_cons_of_mem _ hmem, hgpc⟩

/-- `notify_all` takes the lock of the library. -/
theorem StopInv.notify {s : StopState} (h : StopInv s) {i : ℕ} {f : Frame} {rest : List Frame}
    (hframes : s.frames i = f :: rest) (hpc : f.pc = .notifyAll) (hfree : s.cv = none) :
    StopInv { s with
      cv := some i
      frames := Function.update s.frames i ({ f with pc := .broadcast } :: rest) } := by
  have hlock : f.pc ≠ .lock := hpc.trans_ne (by simp)
  have hnone : ∀ j, ∀ g ∈ s.frames j, g.pc ≠ .broadcast := by
    intro j g hg hgpc
    have hcv := (h.cv j).mpr ⟨g, hg, hgpc⟩
    rw [hfree] at hcv
    cases hcv
  have hrest : ∀ g ∈ rest, g.pc ≠ .broadcast := fun g hg =>
    hnone i g (hframes ▸ List.mem_cons_of_mem f hg)
  have hsingle := h.single i
  rw [hframes, List.pairwise_cons] at hsingle
  refine h.setTop (fun g hg => h.not_holds_rest hframes hlock hg) ?_ (fun j _ => Iff.rfl) ?_ ?_
    (List.pairwise_cons.mpr ⟨fun g hg hgpc => absurd hgpc (hrest g hg), hsingle.2⟩) ?_ h.returned
  · rw [h.owner i, hframes]
    refine iff_of_false ?_ (fun hholds => by cases hholds)
    rintro ⟨g, hg, hholds⟩
    rcases List.mem_cons.mp hg with rfl | hmem
    · rw [Frame.holds_iff, hpc] at hholds
      rcases hholds with hholds | hholds <;> cases hholds
    · exact h.not_holds_rest hframes hlock hmem hholds
  · refine h.mon.weaken id fun howed => howed.update ?_
    intro g hg hgpc
    rw [hframes] at hg
    rcases List.mem_cons.mp hg with rfl | hmem
    · exact ⟨_, List.mem_cons_self, .inr (.inr rfl)⟩
    · exact ⟨g, List.mem_cons_of_mem _ hmem, hgpc⟩
  · refine forall_update (P := fun j stack => some i = some j ↔ ∃ f ∈ stack, f.pc = .broadcast)
      (iff_of_true rfl ⟨_, List.mem_cons_self, rfl⟩) ?_
    intro j hj
    refine iff_of_false ?_ fun ⟨g, hg, hgpc⟩ => hnone j g hg hgpc
    intro heq
    exact hj (Option.some.inj heq).symm
  · intro hw
    refine ⟨hw, ?_⟩
    rintro rfl
    exact hlock (h.waiter hw f (hframes ▸ List.mem_cons_self))

/-- `notify_all` ends, and the call with it. -/
theorem StopInv.pop {s : StopState} (h : StopInv s) {i : ℕ} {f : Frame} {rest : List Frame}
    {cv : Option ℕ} (hframes : s.frames i = f :: rest) (hpc : f.pc = .notifyAll ∨ f.pc = .broadcast)
    (hcv : ∀ j, cv = some j ↔ ∃ f ∈ Function.update s.frames i rest j, f.pc = .broadcast) :
    StopInv { s with mon := s.mon.wake, cv := cv, frames := Function.update s.frames i rest } where
  mon := h.mon.wake
  owner := by
    refine forall_update (P := fun j stack =>
      s.mon.wake.owner = some (.other j) ↔ ∃ f ∈ stack, f.holds = true) ?_ fun j _ => h.owner j
    rw [Monitor.owner_wake, h.owner i, hframes]
    constructor
    · rintro ⟨g, hg, hholds⟩
      rcases List.mem_cons.mp hg with rfl | hmem
      · rw [Frame.holds_iff] at hholds
        rcases hpc with hpc | hpc <;> rw [hpc] at hholds <;>
          rcases hholds with hholds | hholds <;> cases hholds
      · exact ⟨g, hmem, hholds⟩
    · exact fun ⟨g, hg, hholds⟩ => ⟨g, List.mem_cons_of_mem f hg, hholds⟩
  cv := hcv
  single := by
    refine forall_update (P := fun _ stack =>
      stack.Pairwise fun f g => g.pc = .broadcast → f.pc ≠ .broadcast) ?_ fun j _ => h.single j
    have hsingle := h.single i
    rw [hframes] at hsingle
    exact hsingle.of_cons
  below := by
    refine forall_update (P := fun _ stack =>
      stack.Pairwise fun f g => g.holds = true → f.pc = .lock) ?_ fun j _ => h.below j
    have hbelow := h.below i
    rw [hframes] at hbelow
    exact hbelow.of_cons
  waiter := by
    intro hw
    have hwake : s.mon.wake.Sound (s.stopped = true) (Owed s.frames) := h.mon.wake
    have hmutex : s.mon.HasMutex := h.mon.owned.mp (hwake.owned.mpr hw)
    refine forall_update (P := fun j stack => j = 0 → ∀ f ∈ stack, f.pc = .lock) ?_ ?_ 0 rfl
    · rintro rfl g hg
      exact h.waiter hmutex g (hframes ▸ List.mem_cons_of_mem f hg)
    · rintro j - rfl
      exact h.waiter hmutex
  returned := fun hret => ⟨(h.returned hret).1, Monitor.waiter_wake_eq_out (h.returned hret).2⟩

theorem StopInv.skip {s : StopState} (h : StopInv s) {i : ℕ} {f : Frame} {rest : List Frame}
    (hframes : s.frames i = f :: rest) (hpc : f.pc = .notifyAll) :
    StopInv { s with mon := s.mon.wake, frames := Function.update s.frames i rest } := by
  refine h.pop hframes (.inl hpc) (h.cv_update ?_)
  rw [hframes]
  constructor
  · exact fun ⟨g, hg, hgpc⟩ => ⟨g, List.mem_cons_of_mem f hg, hgpc⟩
  · rintro ⟨g, hg, hgpc⟩
    rcases List.mem_cons.mp hg with rfl | hmem
    · rw [hpc] at hgpc
      cases hgpc
    · exact ⟨g, hmem, hgpc⟩

theorem StopInv.broadcast {s : StopState} (h : StopInv s) {i : ℕ} {f : Frame} {rest : List Frame}
    (hframes : s.frames i = f :: rest) (hpc : f.pc = .broadcast) :
    StopInv { s with mon := s.mon.wake, cv := none, frames := Function.update s.frames i rest } := by
  have hsingle := h.single i
  rw [hframes, List.pairwise_cons] at hsingle
  refine h.pop hframes (.inr hpc) ?_
  refine forall_update (P := fun j stack => none = some j ↔ ∃ f ∈ stack, f.pc = .broadcast) ?_ ?_
  · exact iff_of_false (fun hne => by cases hne) fun ⟨g, hg, hgpc⟩ => hsingle.1 g hg hgpc hpc
  · intro j hj
    refine iff_of_false (fun hne => by cases hne) fun hbroadcast => hj ?_
    have hi : s.cv = some i := (h.cv i).mpr ⟨f, hframes ▸ List.mem_cons_self, hpc⟩
    rw [(h.cv j).mpr hbroadcast] at hi
    exact Option.some.inj hi

/-- A new frame begins in front of the lock. -/
theorem StopInv.push {s : StopState} (h : StopInv s) (i : ℕ) (handler : Option Signal) :
    StopInv { s with
      frames := Function.update s.frames i (⟨handler, .lock⟩ :: s.frames i) } where
  mon := h.mon.weaken id fun howed => howed.update fun f hf hpc =>
    ⟨f, List.mem_cons_of_mem _ hf, hpc⟩
  owner := by
    refine forall_update (P := fun j stack =>
      s.mon.owner = some (.other j) ↔ ∃ f ∈ stack, f.holds = true) ?_ fun j _ => h.owner j
    rw [h.owner i]
    constructor
    · exact fun ⟨f, hf, hholds⟩ => ⟨f, List.mem_cons_of_mem _ hf, hholds⟩
    · rintro ⟨f, hf, hholds⟩
      rcases List.mem_cons.mp hf with rfl | hmem
      · cases hholds
      · exact ⟨f, hmem, hholds⟩
  cv := by
    refine h.cv_update ⟨?_, fun ⟨f, hf, hpc⟩ => ⟨f, List.mem_cons_of_mem _ hf, hpc⟩⟩
    rintro ⟨f, hf, hpc⟩
    rcases List.mem_cons.mp hf with rfl | hmem
    · cases hpc
    · exact ⟨f, hmem, hpc⟩
  single := forall_update (P := fun _ stack =>
    stack.Pairwise fun f g => g.pc = .broadcast → f.pc ≠ .broadcast)
    (List.pairwise_cons.mpr ⟨fun _ _ _ hne => (by cases hne), h.single i⟩) fun j _ => h.single j
  below := by
    refine forall_update (P := fun _ stack =>
      stack.Pairwise fun f g => g.holds = true → f.pc = .lock) ?_ fun j _ => h.below j
    exact List.pairwise_cons.mpr ⟨fun _ _ _ => rfl, h.below i⟩
  waiter := by
    intro hw
    refine forall_update (P := fun j stack => j = 0 → ∀ f ∈ stack, f.pc = .lock) ?_ ?_ 0 rfl
    · rintro rfl f hf
      rcases List.mem_cons.mp hf with rfl | hmem
      · rfl
      · exact h.waiter hw f hmem
    · rintro j - rfl
      exact h.waiter hw
  returned := h.returned

/-- The main thread moves in `Wait`, with nothing on top of it. -/
theorem StopInv.setMon {s : StopState} (h : StopInv s) {mon : Monitor ℕ} {returned : Bool}
    (hmain : s.frames 0 = []) (hmon : mon.Sound (s.stopped = true) (Owed s.frames))
    (howner : ∀ i, s.mon.owner ≠ some (.other i)) (howner' : ∀ i, mon.owner ≠ some (.other i))
    (hreturned : returned = true → s.stopped = true ∧ mon.waiter = .out) :
    StopInv { s with mon := mon, returned := returned } where
  mon := hmon
  owner := fun i => iff_of_false (howner' i) fun hholds => howner i ((h.owner i).mpr hholds)
  cv := h.cv
  single := h.single
  below := h.below
  waiter := by
    intro _ f hf
    replace hf : f ∈ s.frames 0 := hf
    rw [hmain] at hf
    cases hf
  returned := hreturned

/-- **Step lemma.** -/
theorem stopStep_inv {s t : StopState} {a : StopAct} (h : StopInv s) (hs : stopStep s a = some t) :
    StopInv t := by
  have hwaiter : s.mon.HasMutex → ∀ i, s.mon.owner ≠ some (.other i) := by
    intro hw i howner
    rw [h.mon.owned.mpr hw] at howner
    cases howner
  have hfree : s.mon.owner = none → ∀ i, s.mon.owner ≠ some (.other i) := by
    intro hfree i howner
    rw [hfree] at howner
    cases howner
  cases effect_of_step hs with
  | deliver i sig => exact h.push i (some sig)
  | call i _ hidle =>
    have hpush := h.push i none
    rw [hidle] at hpush
    exact hpush
  | lock hframes hpc hfree => exact h.lock hframes hpc hfree
  | store hframes hpc => exact h.store hframes hpc
  | unlock hframes hpc => exact h.unlock hframes hpc
  | notify hframes hpc hcv => exact h.notify hframes hpc hcv
  | skip hframes hpc => exact h.skip hframes hpc
  | broadcast hframes hpc => exact h.broadcast hframes hpc
  | enter hmain _ hret howner =>
    refine h.setMon hmain (Monitor.sound_acquire _) (hfree howner) (fun i h => by cases h) ?_
    intro hret'
    rw [hret] at hret'
    cases hret'
  | leave hmain hw hstop =>
    exact h.setMon hmain (Monitor.sound_leave _) (hwaiter (.inl hw)) (fun i h => by cases h)
      fun _ => ⟨hstop, rfl⟩
  | decide hmain hw hstop =>
    refine h.setMon hmain (h.mon.decide hw ?_) (hwaiter (.inl hw)) (hwaiter (.inl hw)) ?_
    · rw [hstop]
      exact Bool.false_ne_true
    · intro hret
      rw [(h.returned hret).2] at hw
      cases hw
  | sleep hmain hw =>
    refine h.setMon hmain (h.mon.sleep hw) (hwaiter (.inr hw)) (fun i h => by cases h) ?_
    intro hret
    rw [(h.returned hret).2] at hw
    cases hw
  | relock hmain hw howner =>
    refine h.setMon hmain (Monitor.sound_acquire _) (hfree howner) (fun i h => by cases h) ?_
    intro hret
    rw [(h.returned hret).2] at hw
    cases hw
  | wake =>
    have hwake : s.mon.wake.Sound (s.stopped = true) (Owed s.frames) := h.mon.wake
    exact {
      mon := hwake
      owner := h.owner
      cv := h.cv
      single := h.single
      below := h.below
      waiter := fun hw => h.waiter (h.mon.owned.mp (hwake.owned.mpr hw))
      returned := fun hret => ⟨(h.returned hret).1, Monitor.waiter_wake_eq_out (h.returned hret).2⟩ }

/-! ## A thread that waits for itself -/

/-- The thread waits for the mutex that it has itself. -/
def Wedged (s : StopState) (i : ℕ) : Prop :=
  (∃ f rest, s.frames i = f :: rest ∧ f.pc = .lock) ∧ Holds s i

theorem Holds.owner_ne_none {s : StopState} {i : ℕ} (h : Holds s i) : s.mon.owner ≠ none := by
  intro hfree
  rcases h with howner | ⟨-, howner⟩ <;> rw [hfree] at howner <;> cases howner

theorem Holds.eq {s : StopState} {i j : ℕ} (h : Holds s i) (hj : s.mon.owner = some (.other j)) :
    i = j := by
  rcases h with howner | ⟨-, howner⟩ <;> rw [hj] at howner <;> cases howner
  rfl

/-- **For good**: no step of any thread, and no signal, lets it go on. -/
theorem wedged_step {s t : StopState} {a : StopAct} {i : ℕ} (h : StopInv s) (hw : Wedged s i)
    (hs : stopStep s a = some t) : Wedged t i := by
  obtain ⟨⟨f, rest, hframes, hpc⟩, hholds⟩ := hw
  have hother : ∀ {j : ℕ} {stack : List Frame}, i ≠ j →
      ∃ f rest, Function.update s.frames j stack i = f :: rest ∧ f.pc = .lock := by
    intro j stack hj
    exact ⟨f, rest, by rw [Function.update_of_ne hj, hframes], hpc⟩
  have htop : ∀ {j : ℕ} {g : Frame} {more : List Frame}, s.frames j = g :: more → g.pc ≠ .lock →
      i ≠ j := by
    rintro j g more hj hne rfl
    rw [hframes] at hj
    cases hj
    exact hne hpc
  have hidle : s.mon.HasMutex → s.frames 0 = [] → False := by
    intro hmutex hmain
    rcases hholds with howner | ⟨rfl, -⟩
    · rw [h.mon.owned.mpr hmutex] at howner
      cases howner
    · rw [hmain] at hframes
      cases hframes
  cases effect_of_step hs with
  | deliver j sig =>
    by_cases hj : i = j
    · subst hj
      exact ⟨⟨⟨some sig, .lock⟩, _, Function.update_self _ _ _, rfl⟩, hholds⟩
    · exact ⟨hother hj, hholds⟩
  | call j _ hidle =>
    refine ⟨hother ?_, hholds⟩
    rintro rfl
    rw [hframes] at hidle
    cases hidle
  | lock _ _ hfree => exact absurd hfree hholds.owner_ne_none
  | store hj hpc' =>
    have howner := h.owner_of_top hj (Frame.holds_iff.mpr (.inl hpc'))
    exact absurd (hholds.eq howner) (htop hj (by rw [hpc']; intro hne; cases hne))
  | unlock hj hpc' =>
    have howner := h.owner_of_top hj (Frame.holds_iff.mpr (.inr hpc'))
    exact absurd (hholds.eq howner) (htop hj (by rw [hpc']; intro hne; cases hne))
  | notify hj hpc' _ => exact ⟨hother (htop hj (by rw [hpc']; intro hne; cases hne)), hholds⟩
  | skip hj hpc' => exact ⟨hother (htop hj (by rw [hpc']; intro hne; cases hne)), hholds⟩
  | broadcast hj hpc' => exact ⟨hother (htop hj (by rw [hpc']; intro hne; cases hne)), hholds⟩
  | enter _ _ _ hfree => exact absurd hfree hholds.owner_ne_none
  | relock _ _ hfree => exact absurd hfree hholds.owner_ne_none
  | leave hmain hw _ => exact (hidle (.inl hw) hmain).elim
  | decide hmain hw _ => exact (hidle (.inl hw) hmain).elim
  | sleep hmain hw => exact (hidle (.inr hw) hmain).elim
  | wake => exact ⟨⟨f, rest, hframes, hpc⟩, hholds⟩

/-- No thread waits for itself, and nothing runs on top of a call with the lock of the library. -/
structure Good (s : StopState) : Prop where
  inv : StopInv s
  apart : ∀ i, ¬Wedged s i
  top : ∀ i, ∀ g ∈ (s.frames i).tail, g.pc ≠ .broadcast

theorem good_init : Good StopState.init where
  inv := stopInv_init
  apart := by
    rintro i ⟨⟨f, rest, hframes, -⟩, -⟩
    cases hframes
  top := by
    intro i g hg
    cases hg

theorem apart_of_owner {s : StopState} (h : s.mon.owner = none) (i : ℕ) : ¬Wedged s i :=
  fun hw => hw.2.owner_ne_none h

/-- With the mutex in `Wait` and nothing on top of it, no thread waits for itself. -/
theorem apart_of_waiter {s : StopState} (h : s.mon.owner = some .waiter) (hmain : s.frames 0 = [])
    (i : ℕ) : ¬Wedged s i := by
  rintro ⟨⟨f, rest, hframes, -⟩, howner | ⟨rfl, -⟩⟩
  · rw [h] at howner
    cases howner
  · rw [hmain] at hframes
    cases hframes

/-- With the mutex in the frame on top of its thread, no thread waits for itself. -/
theorem apart_of_top {s : StopState} {j : ℕ} {f : Frame} {rest : List Frame}
    (howner : s.mon.owner = some (.other j)) (hframes : s.frames j = f :: rest)
    (hpc : f.pc ≠ .lock) (i : ℕ) : ¬Wedged s i := by
  rintro ⟨⟨g, more, hi, hlock⟩, hholds⟩
  rw [hholds.eq howner, hframes] at hi
  cases hi
  exact hpc hlock

/-- A call that ends leaves nobody waiting for itself. -/
theorem Good.apart_pop {s : StopState} (h : Good s) {j : ℕ} {f : Frame} {rest : List Frame}
    (hframes : s.frames j = f :: rest) (hpc : f.pc = .notifyAll ∨ f.pc = .broadcast)
    {cv : Option ℕ} (i : ℕ) :
    ¬Wedged { s with mon := s.mon.wake, cv := cv, frames := Function.update s.frames j rest } i := by
  have hlock : f.pc ≠ .lock := by
    rcases hpc with hpc | hpc <;> rw [hpc] <;> intro hne <;> cases hne
  have hfree : ¬f.holds = true := by
    rw [Frame.holds_iff]
    rcases hpc with hpc | hpc <;> rw [hpc] <;> rintro (hne | hne) <;> cases hne
  rintro ⟨⟨g, more, hg, hgpc⟩, hholds⟩
  by_cases hj : i = j
  · subst hj
    rcases hholds with howner | ⟨rfl, howner⟩
    · obtain ⟨g, hg, hgholds⟩ := (h.inv.owner i).mp howner
      rw [hframes] at hg
      rcases List.mem_cons.mp hg with rfl | hmem
      · exact hfree hgholds
      · exact h.inv.not_holds_rest hframes hlock hmem hgholds
    · exact hlock (h.inv.waiter (h.inv.mon.owned.mp howner) f (hframes ▸ List.mem_cons_self))
  · replace hg : Function.update s.frames j rest i = g :: more := hg
    rw [Function.update_of_ne hj] at hg
    exact h.apart i ⟨⟨g, more, hg, hgpc⟩, hholds⟩

/-- **Step lemma**, for a signal that does not hit the thread with the mutex: nobody waits for it. -/
theorem apart_step {s t : StopState} {a : StopAct} (h : Good s) (hs : stopStep s a = some t)
    (hd : DeliveredOutside s a) : ∀ i, ¬Wedged t i := by
  have hsame : ∀ {i j : ℕ} {stack : List Frame}, i ≠ j →
      (∃ f rest, Function.update s.frames j stack i = f :: rest ∧ f.pc = .lock) →
      ∃ f rest, s.frames i = f :: rest ∧ f.pc = .lock := by
    rintro i j stack hj ⟨f, rest, hframes, hpc⟩
    rw [Function.update_of_ne hj] at hframes
    exact ⟨f, rest, hframes, hpc⟩
  cases effect_of_step hs with
  | deliver j sig =>
    rintro i ⟨htop, hholds⟩
    by_cases hj : i = j
    · exact hd.1 (hj ▸ hholds)
    · exact h.apart i ⟨hsame hj htop, hholds⟩
  | call j hne hidle =>
    rintro i ⟨htop, hholds⟩
    by_cases hj : i = j
    · subst hj
      rcases hholds with howner | ⟨rfl, -⟩
      · obtain ⟨f, hf, -⟩ := (h.inv.owner i).mp howner
        rw [hidle] at hf
        cases hf
      · exact hne rfl
    · exact h.apart i ⟨hsame hj htop, hholds⟩
  | @lock j _ f rest hframes hpc hfree =>
    exact apart_of_top rfl (Function.update_self j _ _) fun hne => by cases hne
  | @store j _ f rest hframes hpc =>
    have howner := h.inv.owner_of_top hframes (Frame.holds_iff.mpr (.inl hpc))
    exact apart_of_top howner (Function.update_self j _ _) fun hne => by cases hne
  | unlock hframes hpc => exact apart_of_owner rfl
  | @notify j f rest hframes hpc _ =>
    rintro i ⟨htop, hholds⟩
    by_cases hj : i = j
    · obtain ⟨g, more, hg, hgpc⟩ := htop
      replace hg : Function.update s.frames j ({ f with pc := .broadcast } :: rest) i
        = g :: more := hg
      rw [hj, Function.update_self] at hg
      cases hg
      cases hgpc
    · exact h.apart i ⟨hsame hj htop, hholds⟩
  | skip hframes hpc => exact h.apart_pop hframes (.inl hpc)
  | broadcast hframes hpc => exact h.apart_pop hframes (.inr hpc)
  | enter hmain _ _ _ | relock hmain _ _ =>
    exact apart_of_waiter rfl hmain
  | leave _ _ _ => exact apart_of_owner rfl
  | decide hmain hw _ => exact apart_of_waiter (h.inv.mon.owned.mpr (.inl hw)) hmain
  | sleep _ _ => exact apart_of_owner rfl
  | wake => exact h.apart

/-- **Step lemma**, for a signal that does not hit the thread with the lock of the library. -/
theorem top_step {s t : StopState} {a : StopAct} (h : Good s) (hs : stopStep s a = some t)
    (hd : DeliveredOutside s a) (i : ℕ) : ∀ g ∈ (t.frames i).tail, g.pc ≠ .broadcast := by
  have hupdate : ∀ {j : ℕ} {stack : List Frame}, (∀ g ∈ stack.tail, g.pc ≠ .broadcast) →
      ∀ g ∈ (Function.update s.frames j stack i).tail, g.pc ≠ .broadcast := fun hstack =>
    forall_update (P := fun _ stack => ∀ g ∈ stack.tail, g.pc ≠ .broadcast) hstack
      (fun j _ => h.top j) i
  have hrest : ∀ {j : ℕ} {f : Frame} {rest : List Frame}, s.frames j = f :: rest →
      ∀ g ∈ rest, g.pc ≠ .broadcast := by
    intro j f rest hframes
    have htop := h.top j
    rw [hframes] at htop
    exact htop
  cases effect_of_step hs with
  | deliver j sig =>
    exact hupdate fun g hg hpc => hd.2 ((h.inv.cv j).mpr ⟨g, hg, hpc⟩)
  | call => exact hupdate fun g hg => by cases hg
  | lock hframes | store hframes | unlock hframes | notify hframes => exact hupdate (hrest hframes)
  | skip hframes | broadcast hframes =>
    exact hupdate fun g hg => hrest hframes g (List.mem_of_mem_tail hg)
  | enter | relock | leave | decide | sleep | wake => exact h.top i

theorem good_step {s t : StopState} {a : StopAct} (h : Good s) (hs : stopStep s a = some t)
    (hd : DeliveredOutside s a) : Good t :=
  ⟨stopStep_inv h.inv hs, apart_step h hs hd, top_step h hs hd⟩

/-! ## What the threads can do by themselves -/

theorem Continues.refl (s : StopState) : Continues s s := ⟨[], rfl⟩

theorem Continues.trans {s t u : StopState} (hst : Continues s t) (htu : Continues t u) :
    Continues s u := by
  obtain ⟨is, his⟩ := hst
  obtain ⟨js, hjs⟩ := htu
  refine ⟨is ++ js, ?_⟩
  rw [List.map_append, exec_append, his]
  exact hjs

theorem Continues.head {s t u : StopState} {i : ℕ} (hs : stopStep s (.run i true) = some t)
    (h : Continues t u) : Continues s u := by
  refine Continues.trans ⟨[i], ?_⟩ h
  rw [List.map_singleton, exec_cons, hs]
  rfl

/-- What every step of a thread keeps. -/
theorem Continues.induct {P : StopState → Prop}
    (hstep : ∀ s t i, P s → stopStep s (.run i true) = some t → P t) {s t : StopState}
    (h : Continues s t) (hs : P s) : P t := by
  obtain ⟨is, his⟩ := h
  induction is generalizing s with
  | nil =>
    cases his
    exact hs
  | cons i is ih =>
    rw [List.map_cons, exec_cons, Option.bind_eq_some_iff] at his
    obtain ⟨u, hu, hrest⟩ := his
    exact ih (hstep s u i hs hu) hrest

theorem Good.continues {s t : StopState} (h : Good s) (hc : Continues s t) : Good t :=
  hc.induct (fun _ _ _ hg hs => good_step hg hs trivial) h

theorem stopped_continues {s t : StopState} (hc : Continues s t) (hs : s.stopped = true) :
    t.stopped = true := by
  refine hc.induct (P := fun s => s.stopped = true) ?_ hs
  intro s t i hs hstep
  cases effect_of_step hstep with
  | store => rfl
  | lock | unlock | notify | broadcast | enter | leave | decide | sleep | relock => exact hs

/-- A thread that runs its own program goes on with it. -/
theorem idle_continues {s t : StopState} (hc : Continues s t) {j : ℕ} (hj : s.frames j = []) :
    t.frames j = [] := by
  refine hc.induct (P := fun s => s.frames j = []) ?_ hj
  intro s t i hj hstep
  have hne : ∀ {f : Frame} {rest stack : List Frame}, s.frames i = f :: rest →
      Function.update s.frames i stack j = [] := by
    intro f rest stack hframes
    rw [Function.update_of_ne, hj]
    rintro rfl
    rw [hj] at hframes
    cases hframes
  cases effect_of_step hstep with
  | lock hframes | store hframes | unlock hframes | notify hframes | broadcast hframes =>
    exact hne hframes
  | enter | leave | decide | sleep | relock => exact hj

/-- Behind a request the main thread does not go to sleep. -/
theorem awake_continues {s t : StopState} (h : Good s) (hstop : s.stopped = true)
    (hc : Continues s t) (hw : s.mon.waiter ≠ .asleep) : t.mon.waiter ≠ .asleep := by
  refine (hc.induct (P := fun s => Good s ∧ s.stopped = true ∧ s.mon.waiter ≠ .asleep) ?_
    ⟨h, hstop, hw⟩).2.2
  rintro s t i ⟨hg, hstop, hw⟩ hstep
  refine ⟨good_step hg hstep trivial, stopped_continues ⟨[i], by simp [exec_cons, hstep]⟩ hstop, ?_⟩
  cases effect_of_step hstep with
  | lock | store | unlock | notify => exact hw
  | broadcast => exact Monitor.waiter_wake_ne s.mon
  | sleep _ hdecided => exact absurd hstop (hg.inv.mon.decided hdecided)
  | enter | leave | decide | relock =>
    intro hne
    cases hne

theorem step_main {s : StopState} (hmain : s.frames 0 = []) :
    stopStep s (.run 0 true) = waitRun s := by
  rw [stopStep, hmain]
  rfl

theorem step_top {s : StopState} {i : ℕ} {f : Frame} {rest : List Frame}
    (hframes : s.frames i = f :: rest) : stopStep s (.run i true) = requestRun i f rest true s := by
  rw [stopStep, hframes]

/-- In `Wait` the main thread gives the mutex up, to sleep or to return. -/
theorem exists_free_main {s : StopState} (hmain : s.frames 0 = []) (hw : s.mon.HasMutex) :
    ∃ t, Continues s t ∧ t.mon.owner = none ∧ t.frames = s.frames := by
  have hdecided : ∀ u : StopState, u.frames 0 = [] → u.mon.waiter = .decided →
      ∃ t, Continues u t ∧ t.mon.owner = none ∧ t.frames = u.frames := by
    intro u hu hw
    refine ⟨{ u with mon := u.mon.sleep }, .head ((step_main hu).trans ?_) (.refl _), rfl, rfl⟩
    rw [waitRun, hw]
  rcases hw with hw | hw
  · by_cases hstop : s.stopped = true
    · refine ⟨{ s with mon := s.mon.leave, returned := true },
        .head ((step_main hmain).trans ?_) (.refl _), rfl, rfl⟩
      rw [waitRun, hw]
      exact if_pos hstop
    · obtain ⟨t, ht, hfree, hframes⟩ := hdecided { s with mon := s.mon.decide } hmain rfl
      refine ⟨t, .head ((step_main hmain).trans ?_) ht, hfree, hframes⟩
      rw [waitRun, hw]
      exact if_neg hstop
  · exact hdecided s hmain hw

/-- The frame on top of a thread gives the mutex up. -/
theorem exists_free_top {s : StopState} {j : ℕ} {f : Frame} {rest : List Frame}
    (hframes : s.frames j = f :: rest) (hholds : f.holds = true) :
    ∃ t stack, Continues s t ∧ t.mon.owner = none ∧ t.frames = Function.update s.frames j stack := by
  have hunlock : ∀ (u : StopState) (g : Frame), u.frames j = g :: rest → g.pc = .unlock →
      ∃ t stack, Continues u t ∧ t.mon.owner = none ∧
        t.frames = Function.update u.frames j stack := by
    intro u g hu hpc
    refine ⟨{ u with
        mon := u.mon.unlock
        frames := Function.update u.frames j ({ g with pc := .notifyAll } :: rest) },
      { g with pc := .notifyAll } :: rest, .head ((step_top hu).trans ?_) (.refl _), rfl, rfl⟩
    rw [requestRun, hpc]
  rcases Frame.holds_iff.mp hholds with hpc | hpc
  · obtain ⟨t, stack, ht, hfree, heq⟩ := hunlock
      { s with
        stopped := true
        frames := Function.update s.frames j ({ f with pc := .unlock } :: rest) }
      { f with pc := .unlock } (Function.update_self _ _ _) rfl
    refine ⟨t, stack, .head ((step_top hframes).trans ?_) ht, hfree, ?_⟩
    · rw [requestRun, hpc]
    · rw [heq, Function.update_idem]
  · exact hunlock s f hframes hpc

/-- The holder of the mutex gives it up; a stack whose top waits for it stays as it is. -/
theorem exists_free {s : StopState} (h : Good s) : ∃ t, Continues s t ∧ t.mon.owner = none ∧
    ∀ i f rest, s.frames i = f :: rest → f.pc = .lock → t.frames i = f :: rest := by
  cases howner : s.mon.owner with
  | none => exact ⟨s, .refl s, howner, fun _ _ _ hframes _ => hframes⟩
  | some o =>
    cases o with
    | waiter =>
      have hw := h.inv.mon.owned.mp howner
      have hmain : s.frames 0 = [] := by
        cases hmain : s.frames 0 with
        | nil => rfl
        | cons f rest =>
          have hlock := h.inv.waiter hw f (hmain ▸ List.mem_cons_self)
          exact absurd ⟨⟨f, rest, hmain, hlock⟩, .inr ⟨rfl, howner⟩⟩ (h.apart 0)
      obtain ⟨t, ht, hfree, hframes⟩ := exists_free_main hmain hw
      exact ⟨t, ht, hfree, fun i _ _ hi _ => by rw [hframes, hi]⟩
    | other j =>
      obtain ⟨g, hg, hholds⟩ := (h.inv.owner j).mp howner
      obtain ⟨f, rest, hj⟩ := List.exists_cons_of_ne_nil (List.ne_nil_of_mem hg)
      have htop : f.holds = true := by
        rw [hj] at hg
        rcases List.mem_cons.mp hg with rfl | hmem
        · exact hholds
        · have hbelow := h.inv.below j
          rw [hj, List.pairwise_cons] at hbelow
          exact absurd ⟨⟨f, rest, hj, hbelow.1 g hmem hholds⟩, .inl howner⟩ (h.apart j)
      obtain ⟨t, stack, ht, hfree, hframes⟩ := exists_free_top hj htop
      refine ⟨t, ht, hfree, ?_⟩
      intro i f' rest' hi hlock
      rw [hframes, Function.update_of_ne, hi]
      rintro rfl
      rw [hj] at hi
      cases hi
      rw [Frame.holds_iff, hlock] at htop
      rcases htop with htop | htop <;> cases htop

/-- The call with the lock of the library ends; the others stay as they are. -/
theorem exists_free_cv {s : StopState} (h : Good s) {i : ℕ} {f : Frame} {rest : List Frame}
    (hframes : s.frames i = f :: rest) (hpc : f.pc ≠ .broadcast) :
    ∃ t, Continues s t ∧ t.cv = none ∧ t.frames i = f :: rest := by
  cases hcv : s.cv with
  | none => exact ⟨s, .refl s, hcv, hframes⟩
  | some j =>
    obtain ⟨g, hg, hgpc⟩ := (h.inv.cv j).mp hcv
    obtain ⟨top, more, hj⟩ := List.exists_cons_of_ne_nil (List.ne_nil_of_mem hg)
    have htop : top.pc = .broadcast := by
      rw [hj] at hg
      rcases List.mem_cons.mp hg with rfl | hmem
      · exact hgpc
      · exact absurd hgpc (h.top j g (by rw [hj]; exact hmem))
    have hne : i ≠ j := by
      rintro rfl
      rw [hframes] at hj
      cases hj
      exact hpc htop
    refine ⟨{ s with mon := s.mon.wake, cv := none, frames := Function.update s.frames j more },
      .head ((step_top hj).trans ?_) (.refl _), rfl, ?_⟩
    · rw [requestRun, htop]
    · exact (Function.update_of_ne hne _ _).trans hframes

theorem exists_ended_broadcast {s : StopState} {i : ℕ} {f : Frame} {rest : List Frame}
    (hframes : s.frames i = f :: rest) (hpc : f.pc = .broadcast) :
    ∃ t, Continues s t ∧ t.frames i = rest ∧ t.mon.waiter ≠ .asleep := by
  refine ⟨{ s with mon := s.mon.wake, cv := none, frames := Function.update s.frames i rest },
    .head ((step_top hframes).trans ?_) (.refl _), Function.update_self _ _ _,
    Monitor.waiter_wake_ne s.mon⟩
  rw [requestRun, hpc]

theorem exists_ended_notify {s : StopState} (h : Good s) {i : ℕ} {f : Frame} {rest : List Frame}
    (hframes : s.frames i = f :: rest) (hpc : f.pc = .notifyAll) :
    ∃ t, Continues s t ∧ t.frames i = rest ∧ t.mon.waiter ≠ .asleep := by
  obtain ⟨u, hu, hfree, hu'⟩ := exists_free_cv h hframes (hpc.trans_ne (by simp))
  obtain ⟨t, ht, hend⟩ := exists_ended_broadcast (s := { u with
      cv := some i
      frames := Function.update u.frames i ({ f with pc := .broadcast } :: rest) })
    (Function.update_self _ _ _) rfl
  refine ⟨t, hu.trans (.head ((step_top hu').trans ?_) ht), hend⟩
  simp only [requestRun, hpc, if_true, hfree, Option.isNone_none]

theorem exists_ended_unlock {s : StopState} (h : Good s) {i : ℕ} {f : Frame} {rest : List Frame}
    (hframes : s.frames i = f :: rest) (hpc : f.pc = .unlock) :
    ∃ t, Continues s t ∧ t.frames i = rest ∧ t.mon.waiter ≠ .asleep := by
  have hs : stopStep s (.run i true) = some { s with
      mon := s.mon.unlock
      frames := Function.update s.frames i ({ f with pc := .notifyAll } :: rest) } := by
    rw [step_top hframes, requestRun, hpc]
  obtain ⟨t, ht, hend⟩ := exists_ended_notify (good_step h hs trivial)
    (Function.update_self _ _ _) rfl
  exact ⟨t, .head hs ht, hend⟩

theorem exists_ended_store {s : StopState} (h : Good s) {i : ℕ} {f : Frame} {rest : List Frame}
    (hframes : s.frames i = f :: rest) (hpc : f.pc = .store) :
    ∃ t, Continues s t ∧ t.frames i = rest ∧ t.mon.waiter ≠ .asleep := by
  have hs : stopStep s (.run i true) = some { s with
      stopped := true
      frames := Function.update s.frames i ({ f with pc := .unlock } :: rest) } := by
    rw [step_top hframes, requestRun, hpc]
  obtain ⟨t, ht, hend⟩ := exists_ended_unlock (good_step h hs trivial)
    (Function.update_self _ _ _) rfl
  exact ⟨t, .head hs ht, hend⟩

theorem exists_ended_lock {s : StopState} (h : Good s) {i : ℕ} {f : Frame} {rest : List Frame}
    (hframes : s.frames i = f :: rest) (hpc : f.pc = .lock) :
    ∃ t, Continues s t ∧ t.frames i = rest ∧ t.mon.waiter ≠ .asleep := by
  obtain ⟨u, hu, hfree, hsame⟩ := exists_free h
  have hu' := hsame i f rest hframes hpc
  have hs : stopStep u (.run i true) = some { u with
      mon := u.mon.lock i
      frames := Function.update u.frames i ({ f with pc := .store } :: rest) } := by
    rw [step_top hu', requestRun, hpc]
    exact if_pos (by rw [hfree]; rfl)
  obtain ⟨t, ht, hend⟩ := exists_ended_store (good_step (h.continues hu) hs trivial)
    (Function.update_self _ _ _) rfl
  exact ⟨t, hu.trans (.head hs ht), hend⟩

/-- **The call on top of a thread ends**, and has woken the main thread then. -/
theorem exists_ended {s : StopState} (h : Good s) {i : ℕ} {f : Frame} {rest : List Frame}
    (hframes : s.frames i = f :: rest) :
    ∃ t, Continues s t ∧ t.frames i = rest ∧ t.mon.waiter ≠ .asleep := by
  cases hpc : f.pc with
  | lock => exact exists_ended_lock h hframes hpc
  | store => exact exists_ended_store h hframes hpc
  | unlock => exact exists_ended_unlock h hframes hpc
  | notifyAll => exact exists_ended_notify h hframes hpc
  | broadcast => exact exists_ended_broadcast hframes hpc

/-- And so do all calls of a thread. -/
theorem exists_idle {i : ℕ} : ∀ {stack : List Frame} {s : StopState}, Good s →
    s.frames i = stack → ∃ t, Continues s t ∧ t.frames i = []
  | [], s, _, hstack => ⟨s, .refl s, hstack⟩
  | f :: rest, s, h, hstack => by
    obtain ⟨u, hu, hrest, -⟩ := exists_ended h hstack
    obtain ⟨t, ht, hidle⟩ := exists_idle (h.continues hu) hrest
    exact ⟨t, hu.trans ht, hidle⟩

/-- A main thread that is awake behind a request returns from `Wait`. -/
theorem exists_returned {s : StopState} (h : Good s) (hstop : s.stopped = true)
    (hmain : s.frames 0 = []) (hw : s.mon.waiter ≠ .asleep) :
    ∃ t, Continues s t ∧ t.returned = true := by
  obtain ⟨u, hu, hfree, -⟩ := exists_free h
  have hstop' := stopped_continues hu hstop
  have hmain' := idle_continues hu hmain
  have hw' := awake_continues h hstop hu hw
  have hmutex : ¬u.mon.HasMutex := by
    intro hmutex
    have howner := (h.continues hu).inv.mon.owned.mpr hmutex
    rw [hfree] at howner
    cases howner
  have hleave : ∃ t, Continues { u with mon := u.mon.acquire } t ∧ t.returned = true := by
    refine ⟨{ u with mon := u.mon.acquire.leave, returned := true },
      .head ((step_main (s := { u with mon := u.mon.acquire }) hmain').trans ?_) (.refl _), rfl⟩
    exact if_pos hstop'
  obtain ⟨t, ht, hend⟩ := hleave
  have howner : u.mon.owner.isNone = true := by rw [hfree]; rfl
  cases hret : u.returned with
  | true => exact ⟨u, hu, hret⟩
  | false =>
    cases hwaiter : u.mon.waiter with
    | out =>
      refine ⟨t, hu.trans (.head ((step_main hmain').trans ?_) ht), hend⟩
      rw [waitRun, hwaiter, hret]
      exact if_pos howner
    | awake =>
      refine ⟨t, hu.trans (.head ((step_main hmain').trans ?_) ht), hend⟩
      rw [waitRun, hwaiter]
      exact if_pos howner
    | asleep => exact absurd hwaiter hw'
    | holding => exact absurd (.inl hwaiter) hmutex
    | decided => exact absurd (.inr hwaiter) hmutex

theorem Good.law {s : StopState} (h : Good s) : StopSignalLaw s where
  requested := fun hret => (h.inv.returned hret).1
  heard := fun hstop hw => h.inv.mon.awake hw hstop
  ends := fun i => exists_idle h rfl
  stops := by
    intro hstop
    obtain ⟨u, hu, hmain⟩ := exists_idle (i := 0) h rfl
    have hg := h.continues hu
    have hstop' := stopped_continues hu hstop
    by_cases hw : u.mon.waiter = .asleep
    · -- the frame that owes the notification ends
      obtain ⟨j, f, hf, -⟩ := hg.inv.mon.awake hw hstop'
      obtain ⟨g, rest, hj⟩ := List.exists_cons_of_ne_nil (List.ne_nil_of_mem hf)
      obtain ⟨v, hv, -, hawake⟩ := exists_ended hg hj
      obtain ⟨t, ht, hend⟩ := exists_returned (hg.continues hv) (stopped_continues hv hstop')
        (idle_continues hv hmain) hawake
      exact ⟨t, hu.trans (hv.trans ht), hend⟩
    · obtain ⟨t, ht, hend⟩ := exists_returned hg hstop' hmain hw
      exact ⟨t, hu.trans ht, hend⟩

/-- The calls of a thread that waits for itself never end. -/
theorem frames_of_wedged {s t : StopState} {i : ℕ} (h : StopInv s) (hw : Wedged s i)
    (hc : Continues s t) : t.frames i ≠ [] := by
  have hend := hc.induct (P := fun s => StopInv s ∧ Wedged s i)
    (fun _ _ _ hs hstep => ⟨stopStep_inv hs.1 hstep, wedged_step hs.1 hs.2 hstep⟩) ⟨h, hw⟩
  obtain ⟨f, rest, hframes, -⟩ := hend.2.1
  rw [hframes]
  exact List.cons_ne_nil f rest

/-- A call with the lock of the library is interrupted. -/
def Interrupted (s : StopState) (i : ℕ) : Prop :=
  ∃ f rest, s.frames i = f :: rest ∧ f.pc ≠ .broadcast ∧ ∃ g ∈ rest, g.pc = .broadcast

/-- What interrupts it waits for its lock at last. -/
theorem interrupted_step {s t : StopState} {i j : ℕ} (h : StopInv s) (hi : Interrupted s i)
    (hs : stopStep s (.run j true) = some t) : Interrupted t i := by
  obtain ⟨f, rest, hframes, hpc, g, hg, hgpc⟩ := hi
  have hcv : s.cv = some i := (h.cv i).mpr ⟨g, hframes ▸ List.mem_cons_of_mem f hg, hgpc⟩
  have hupdate : ∀ {top f' : Frame} {more : List Frame}, s.frames j = f' :: more →
      top.pc ≠ .broadcast → ∃ f rest, Function.update s.frames j (top :: more) i = f :: rest ∧
        f.pc ≠ .broadcast ∧ ∃ g ∈ rest, g.pc = .broadcast := by
    intro top f' more hj htop
    by_cases hij : i = j
    · subst hij
      rw [hframes] at hj
      cases hj
      exact ⟨top, rest, Function.update_self _ _ _, htop, g, hg, hgpc⟩
    · exact ⟨f, rest, by rw [Function.update_of_ne hij, hframes], hpc, g, hg, hgpc⟩
  cases effect_of_step hs with
  | lock hj | store hj | unlock hj => exact hupdate hj fun hne => by cases hne
  | notify _ _ hfree =>
    rw [hcv] at hfree
    cases hfree
  | @broadcast _ _ f' more hj hpc' =>
    -- the call with the lock is not on top of its thread
    have hij : i ≠ j := by
      rintro rfl
      rw [hframes] at hj
      cases hj
      exact hpc hpc'
    have hcvj := (h.cv j).mpr ⟨f', hj ▸ List.mem_cons_self, hpc'⟩
    rw [hcv] at hcvj
    exact absurd (Option.some.inj hcvj) hij
  | enter | leave | decide | sleep | relock => exact ⟨f, rest, hframes, hpc, g, hg, hgpc⟩

theorem frames_of_interrupted {s t : StopState} {i : ℕ} (h : StopInv s) (hi : Interrupted s i)
    (hc : Continues s t) : t.frames i ≠ [] := by
  have hend := hc.induct (P := fun s => StopInv s ∧ Interrupted s i)
    (fun _ _ _ hs hstep => ⟨stopStep_inv hs.1 hstep, interrupted_step hs.1 hs.2 hstep⟩) ⟨h, hi⟩
  obtain ⟨f, rest, hframes, -⟩ := hend.2
  rw [hframes]
  exact List.cons_ne_nil f rest

/-- A signal for the thread that has the mutex or the lock of the library breaks the law. -/
theorem deliveredOutside_of_law {s t : StopState} {a : StopAct} (h : Good s)
    (hs : stopStep s a = some t) (hlaw : StopSignalLaw t) : DeliveredOutside s a := by
  cases a with
  | deliver i sig =>
    obtain ⟨u, hu, hidle⟩ := hlaw.ends i
    have hinv := stopStep_inv h.inv hs
    cases effect_of_step hs with
    | deliver =>
      refine ⟨fun hholds => frames_of_wedged hinv ⟨?_, hholds⟩ hu hidle,
        fun hcv => frames_of_interrupted hinv ?_ hu hidle⟩
      · exact ⟨⟨some sig, .lock⟩, s.frames i, Function.update_self _ _ _, rfl⟩
      · exact ⟨⟨some sig, .lock⟩, s.frames i, Function.update_self _ _ _, (fun hne => by cases hne),
          (h.inv.cv i).mp hcv⟩
  | call | run | wake => trivial

/--
**The stop signal.** A run keeps the law exactly when no signal is delivered to the thread that has
the mutex at that time, in `Wait` or in `Request`, or to the one that has the lock of the library in
`notify_all`.
-/
theorem stopSignalLaw_iff (acts : List StopAct) :
    AllStates stopStep StopSignalLaw StopState.init acts ↔
      AllSteps stopStep DeliveredOutside StopState.init acts :=
  allStates_iff_allSteps Good (fun _ h => h.law) (fun _ _ _ h hs hd => good_step h hs hd)
    (fun _ _ _ h hs hlaw => deliveredOutside_of_law h hs hlaw) acts _ good_init

/-- The second signal of a thread comes while the first one has the mutex. -/
example : ¬AllSteps stopStep DeliveredOutside StopState.init
    [.deliver 3 .int, .run 3 false, .deliver 3 .term] := by
  intro h
  exact (((h _ rfl).2 _ rfl).2 _ rfl).1.1 (.inl rfl)

end Dts.Bootstrap
