import Dts.Infra.Run
import Mathlib.Data.List.Nodup

/-!
# Timer wheel

`timer.cpp`. `Add`, `Cancel` and the first part of `Tick` run under the mutex. `Tick` copies the
callbacks that are due and calls them after the mutex is released, so between two callbacks of one
`Tick` the wheel may be changed by anything: by the callbacks themselves, by other threads, by
another `Tick`.

The model is a transition system over the wheel and the calls of `Tick` under way. What a callback
does is left open: its calls of `Add`, `Cancel` and `Tick` are steps of their own.
-/

namespace Dts.Timer

open Infra

/-! ## The wheel -/

/-- The handle is an `int`. -/
def intMax : Int := 2147483647

/-- A registered task. `φ` are the callbacks. -/
structure Task (φ : Type*) where
  handle : Int
  period : UInt32
  next : UInt32
  fn : φ
  active : Bool

/-- The tasks in the order of their registration. -/
structure TimerWheel (φ : Type*) where
  tasks : List (Task φ) := []
  nextHandle : Int := 1

/-- A callback to be called. The vector `fire` has only `fn`; the handle is kept for the history. -/
structure Fire (φ : Type*) where
  handle : Int
  fn : φ

variable {φ : Type*}

namespace TimerWheel

/--
The handle, or -1 for a period of 0 or an empty callback. `m_nextHandle++` has no value at the
largest `int`.
-/
def add (w : TimerWheel φ) (periodTicks : UInt32) (fn : Option φ) (nowTick : UInt32) :
    Option (Int × TimerWheel φ) :=
  match fn with
  | none => some (-1, w)
  | some fn =>
    if periodTicks = 0 then some (-1, w)
    else if w.nextHandle = intMax then none
    else
      let t : Task φ := ⟨w.nextHandle, periodTicks, nowTick + periodTicks, fn, true⟩
      some (w.nextHandle, { tasks := w.tasks ++ [t], nextHandle := w.nextHandle + 1 })

def cancel (w : TimerWheel φ) (handle : Int) : TimerWheel φ :=
  { w with tasks := w.tasks.map fun t => if t.handle = handle then { t with active := false } else t }

/-- The task is called at this tick. -/
def due (nowTick : UInt32) (t : Task φ) : Bool := t.active && !decide (nowTick < t.next)

/-- The part of `Tick` under the mutex: the callbacks to call, and the wheel. -/
def tick (w : TimerWheel φ) (nowTick : UInt32) : List (Fire φ) × TimerWheel φ :=
  let fire := (w.tasks.filter (due nowTick)).map fun t => ⟨t.handle, t.fn⟩
  let tasks := w.tasks.map fun t =>
    if due nowTick t then { t with next := nowTick + t.period } else t
  (fire, { w with tasks := tasks.filter fun t => t.active })

end TimerWheel

/-! ## Runs -/

/--
A call of `Tick`: the callbacks that it has still to call, and the history of its beginning, the
registered tasks with their deadlines.
-/
structure TickCall (φ : Type*) where
  nowTick : UInt32
  fire : List (Fire φ)
  registered : List (Int × Nat)

/-- The tasks that a call of `Tick` has still to call. -/
def TickCall.waits (c : TickCall φ) : List Int := c.fire.map Fire.handle

/-- What the callers of the wheel see. -/
inductive Event
  | registered (handle : Int)
  | cancelled (handle : Int)
  /-- the callback is called, by the call of `Tick` with this number -/
  | invoked (call : Nat) (handle : Int) (nowTick : UInt32)
  deriving DecidableEq

/--
The wheel and the calls of `Tick`. The last two fields are the history: the tick at which the callback
of each task was last called, or else the task registered, and what has happened so far.
-/
structure State (φ : Type*) where
  wheel : TimerWheel φ := {}
  calls : List (TickCall φ) := []
  since : Int → UInt32 := fun _ => 0
  events : List Event := []

/-- The calls of the wheel, and of the callbacks that `Tick` has copied. -/
inductive Act (φ : Type*)
  | add (periodTicks : UInt32) (fn : Option φ) (nowTick : UInt32)
  | cancel (handle : Int)
  | tick (nowTick : UInt32)
  /-- the next callback of a call of `Tick` -/
  | invoke (call : Nat)

/-- The tick of the last call of the task, or of its registration, plus its period. -/
def deadline (s : State φ) (t : Task φ) : Nat := (s.since t.handle).toNat + t.period.toNat

/-- The tasks registered and not cancelled, with their deadlines. -/
def registered (s : State φ) : List (Int × Nat) :=
  (s.wheel.tasks.filter Task.active).map fun t => (t.handle, deadline s t)

/-- `Add` hands out a handle, or refuses. -/
def add (s : State φ) (periodTicks : UInt32) (fn : Option φ) (nowTick : UInt32) :
    Option (State φ) :=
  (s.wheel.add periodTicks fn nowTick).map fun (handle, wheel) =>
    if handle = -1 then { s with wheel := wheel }
    else
      { s with
        wheel := wheel
        since := fun h => if h = handle then nowTick else s.since h
        events := s.events ++ [.registered handle] }

def cancel (s : State φ) (handle : Int) : State φ :=
  { s with wheel := s.wheel.cancel handle, events := s.events ++ [.cancelled handle] }

def tick (s : State φ) (nowTick : UInt32) : State φ :=
  let (fire, wheel) := s.wheel.tick nowTick
  { s with wheel := wheel, calls := s.calls ++ [⟨nowTick, fire, registered s⟩] }

/-- An exception of the callback is swallowed. -/
def invoke (s : State φ) (call : Nat) : Option (State φ) :=
  match s.calls[call]? with
  | some ⟨nowTick, f :: fire, registered⟩ =>
    some { s with
      calls := s.calls.set call ⟨nowTick, fire, registered⟩
      since := fun h => if h = f.handle then nowTick else s.since h
      events := s.events ++ [.invoked call f.handle nowTick] }
  | _ => none

/-- `Add` and `Cancel` may come between any two callbacks. -/
def step (s : State φ) : Act φ → Option (State φ)
  | .add periodTicks fn nowTick => add s periodTicks fn nowTick
  | .cancel handle => some (cancel s handle)
  | .tick nowTick => some (tick s nowTick)
  | .invoke call => invoke s call

/-! ## What a step does -/

/-- **Inversion.** The effects of a step. -/
inductive Effect (s : State φ) : Act φ → State φ → Prop
  | refuse (periodTicks : UInt32) (fn : Option φ) (nowTick : UInt32) :
      Effect s (.add periodTicks fn nowTick) s
  | register (period : UInt32) (fn : φ) (nowTick : UInt32) :
      Effect s (.add period (some fn) nowTick)
        { s with
          wheel := {
            tasks := s.wheel.tasks
              ++ [⟨s.wheel.nextHandle, period, nowTick + period, fn, true⟩]
            nextHandle := s.wheel.nextHandle + 1 }
          since := fun h => if h = s.wheel.nextHandle then nowTick else s.since h
          events := s.events ++ [.registered s.wheel.nextHandle] }
  | cancel (handle : Int) : Effect s (.cancel handle) (cancel s handle)
  | tick (nowTick : UInt32) : Effect s (.tick nowTick) (tick s nowTick)
  | invoke (call : Nat) (nowTick : UInt32) (f : Fire φ) (fire : List (Fire φ))
      (registered : List (Int × Nat))
      (hcall : s.calls[call]? = some ⟨nowTick, f :: fire, registered⟩) :
      Effect s (.invoke call)
        { s with
          calls := s.calls.set call ⟨nowTick, fire, registered⟩
          since := fun h => if h = f.handle then nowTick else s.since h
          events := s.events ++ [.invoked call f.handle nowTick] }

/-- Handles are positive, so none is the -1 of a refusal. -/
theorem effect_of_step {s t : State φ} {a : Act φ} (hpos : 0 < s.wheel.nextHandle)
    (hstep : step s a = some t) : Effect s a t := by
  cases a with
  | add periodTicks fn nowTick =>
    simp only [step, add, TimerWheel.add] at hstep
    split at hstep
    · cases hstep
      exact .refuse periodTicks none nowTick
    · split at hstep
      · cases hstep
        exact .refuse periodTicks _ nowTick
      · split at hstep
        · cases hstep
        · have hne : s.wheel.nextHandle ≠ -1 := by omega
          rw [Option.map_some, if_neg hne] at hstep
          cases hstep
          exact .register periodTicks _ nowTick
  | cancel handle =>
    cases hstep
    exact .cancel handle
  | tick nowTick =>
    cases hstep
    exact .tick nowTick
  | invoke call =>
    simp only [step, invoke] at hstep
    split at hstep
    · rename_i nowTick f fire registered hcall
      cases hstep
      exact .invoke call nowTick f fire registered hcall
    · cases hstep

/-! ## The tasks after a tick -/

theorem mem_fire {w : TimerWheel φ} {nowTick : UInt32} {f : Fire φ} :
    f ∈ (w.tick nowTick).1 ↔
      ∃ t ∈ w.tasks, TimerWheel.due nowTick t = true ∧ f = ⟨t.handle, t.fn⟩ := by
  simp only [TimerWheel.tick, List.mem_map, List.mem_filter]
  constructor
  · rintro ⟨t, ⟨ht, hdue⟩, rfl⟩
    exact ⟨t, ht, hdue, rfl⟩
  · rintro ⟨t, ht, hdue, rfl⟩
    exact ⟨t, ⟨ht, hdue⟩, rfl⟩

/-- The tasks that are left are active, and those that were due have a new deadline. -/
theorem mem_tasks_tick {w : TimerWheel φ} {nowTick : UInt32} {t' : Task φ} :
    t' ∈ (w.tick nowTick).2.tasks ↔ ∃ t ∈ w.tasks, t.active = true ∧
      t' = if TimerWheel.due nowTick t then { t with next := nowTick + t.period } else t := by
  simp only [TimerWheel.tick, List.mem_filter, List.mem_map]
  constructor
  · rintro ⟨⟨t, ht, rfl⟩, hactive⟩
    refine ⟨t, ht, ?_, rfl⟩
    revert hactive
    split <;> exact id
  · rintro ⟨t, ht, hactive, rfl⟩
    refine ⟨⟨t, ht, rfl⟩, ?_⟩
    split <;> exact hactive

theorem handles_tick_sublist (w : TimerWheel φ) (nowTick : UInt32) :
    ((w.tick nowTick).2.tasks.map Task.handle).Sublist (w.tasks.map Task.handle) := by
  have hsame : (w.tasks.map fun t =>
      if TimerWheel.due nowTick t then { t with next := nowTick + t.period } else t).map Task.handle
        = w.tasks.map Task.handle := by
    rw [List.map_map]
    refine List.map_congr_left ?_
    intro t _
    simp only [Function.comp_apply]
    split <;> rfl
  rw [← hsame]
  exact List.filter_sublist.map Task.handle

theorem mem_tasks_cancel {w : TimerWheel φ} {handle : Int} {t' : Task φ} :
    t' ∈ (w.cancel handle).tasks ↔ ∃ t ∈ w.tasks,
      t' = if t.handle = handle then { t with active := false } else t := by
  simp only [TimerWheel.cancel, List.mem_map, eq_comm]

theorem handles_cancel (w : TimerWheel φ) (handle : Int) :
    (w.cancel handle).tasks.map Task.handle = w.tasks.map Task.handle := by
  simp only [TimerWheel.cancel, List.map_map]
  refine List.map_congr_left ?_
  intro t _
  simp only [Function.comp_apply]
  split <;> rfl

/-! ## Handles -/

/-- Every task has a handle of its own, below the next one. -/
structure HandlesInv (w : TimerWheel φ) : Prop where
  pos : 0 < w.nextHandle
  nodup : (w.tasks.map Task.handle).Nodup
  fresh : ∀ t ∈ w.tasks, t.handle < w.nextHandle

theorem handlesInv_init : HandlesInv ({} : TimerWheel φ) :=
  ⟨Int.one_pos, List.nodup_nil, by simp⟩

theorem HandlesInv.of_sublist {w w' : TimerWheel φ} (h : HandlesInv w)
    (hnext : w'.nextHandle = w.nextHandle)
    (hsub : (w'.tasks.map Task.handle).Sublist (w.tasks.map Task.handle)) : HandlesInv w' := by
  refine ⟨by rw [hnext]; exact h.pos, h.nodup.sublist hsub, ?_⟩
  intro t' ht'
  obtain ⟨t, ht, heq⟩ := List.mem_map.mp (hsub.subset (List.mem_map_of_mem ht'))
  rw [hnext, ← heq]
  exact h.fresh t ht

theorem handlesInv_step {s t : State φ} {a : Act φ} (h : HandlesInv s.wheel)
    (hstep : step s a = some t) : HandlesInv t.wheel := by
  cases effect_of_step h.pos hstep with
  | refuse => exact h
  | register period fn nowTick =>
    refine ⟨by have := h.pos; show 0 < s.wheel.nextHandle + 1; omega, ?_, ?_⟩
    · rw [List.map_append, List.nodup_append]
      refine ⟨h.nodup, List.nodup_singleton _, ?_⟩
      intro x hx y hy
      obtain ⟨t, ht, rfl⟩ := List.mem_map.mp hx
      rw [List.map_singleton, List.mem_singleton] at hy
      have := h.fresh t ht
      exact fun heq => by simp only [hy] at heq; omega
    · intro t ht
      show t.handle < s.wheel.nextHandle + 1
      rcases List.mem_append.mp ht with ht | ht
      · have := h.fresh t ht
        omega
      · rw [List.mem_singleton.mp ht]
        exact Int.lt_succ _
  | cancel handle => exact h.of_sublist rfl (by rw [cancel, handles_cancel])
  | tick nowTick => exact h.of_sublist rfl (handles_tick_sublist s.wheel nowTick)
  | invoke => exact h

end Dts.Timer
