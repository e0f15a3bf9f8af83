import Mathlib.Logic.Basic

/-!
# Waiting on a condition variable

One thread waits for a condition under a mutex, others make it true and notify. The waiter checks
the condition with the mutex held, and when it is false gives the mutex up and sleeps in one step.
A sleep can end at any time: by a notification, by a deadline, or for no reason.

* `Monitor.Sound cond pending` — the invariant: who has decided to sleep, and still has the mutex,
  has seen `cond` false; who sleeps with `cond` true has a notification to come
* `Sound.change_locked` — under the mutex the condition can change at will, when a notification
  follows
* `Sound.change` — without the mutex, only outside the time between the check and the sleep
-/

namespace Infra

/-- Where the waiter is. -/
inductive CvWaiter where
  | out
  /-- with the mutex -/
  | holding
  /-- with the mutex, and the condition was false -/
  | decided
  | asleep
  /-- the sleep is over, and the mutex not taken again -/
  | awake
  deriving DecidableEq

/-- Who has the mutex. -/
inductive Owner (ι : Type*) where
  | waiter
  | other (i : ι)
  deriving DecidableEq

/-- A mutex and its condition variable, with one waiter and the threads `ι` that notify. -/
structure Monitor (ι : Type*) where
  owner : Option (Owner ι)
  waiter : CvWaiter

namespace Monitor

variable {ι : Type*}

def init : Monitor ι := ⟨none, .out⟩

/-! ## The waiter -/

/-- The waiter takes the mutex, to begin or after a sleep. -/
def acquire (_ : Monitor ι) : Monitor ι := ⟨some .waiter, .holding⟩

/-- The check has found the condition false. -/
def decide (m : Monitor ι) : Monitor ι := { m with waiter := .decided }

/-- The mutex is given up and the sleep begins, in one step. -/
def sleep (_ : Monitor ι) : Monitor ι := ⟨none, .asleep⟩

/-- The end of a sleep. -/
def wake (m : Monitor ι) : Monitor ι where
  owner := m.owner
  waiter := match m.waiter with
    | .asleep => .awake
    | w => w

/-- The waiter gives the mutex up. -/
def leave (_ : Monitor ι) : Monitor ι := ⟨none, .out⟩

/-! ## The others -/

def lock (m : Monitor ι) (i : ι) : Monitor ι := { m with owner := some (.other i) }

def unlock (m : Monitor ι) : Monitor ι := { m with owner := none }

@[simp] theorem waiter_lock (m : Monitor ι) (i : ι) : (m.lock i).waiter = m.waiter := rfl

@[simp] theorem waiter_unlock (m : Monitor ι) : m.unlock.waiter = m.waiter := rfl

@[simp] theorem owner_wake (m : Monitor ι) : m.wake.owner = m.owner := rfl

/-- After a notification nobody sleeps. -/
theorem waiter_wake_ne (m : Monitor ι) : m.wake.waiter ≠ .asleep := by
  intro h
  unfold wake at h
  split at h
  · cases h
  · rename_i hne
    exact hne h

/-- A waiter that does not sleep stays where it is. -/
theorem wake_eq {m : Monitor ι} (h : m.waiter ≠ .asleep) : m.wake = m := by
  obtain ⟨owner, waiter⟩ := m
  cases waiter with
  | asleep => exact absurd rfl h
  | out => rfl
  | holding => rfl
  | decided => rfl
  | awake => rfl

theorem waiter_wake_eq_out {m : Monitor ι} (h : m.waiter = .out) : m.wake.waiter = .out := by
  rw [wake_eq (by rw [h]; intro h; cases h)]
  exact h

/-! ## The invariant -/

/-- The waiter has the mutex. -/
def HasMutex (m : Monitor ι) : Prop := m.waiter = .holding ∨ m.waiter = .decided

structure Sound (cond pending : Prop) (m : Monitor ι) : Prop where
  owned : m.owner = some .waiter ↔ m.HasMutex
  /-- what the check has found is still so -/
  decided : m.waiter = .decided → ¬ cond
  /-- **no lost wake-up** -/
  awake : m.waiter = .asleep → cond → pending

variable {cond cond' pending pending' : Prop} {m : Monitor ι}

theorem sound_init : Sound cond pending (init : Monitor ι) where
  owned := ⟨fun h => (by cases h), fun h => h.elim (fun h => by cases h) fun h => by cases h⟩
  decided := by
    intro h
    cases h
  awake := by
    intro h
    cases h

theorem sound_acquire (m : Monitor ι) : Sound cond pending m.acquire where
  owned := ⟨fun _ => Or.inl rfl, fun _ => rfl⟩
  decided := by
    intro h
    cases h
  awake := by
    intro h
    cases h

theorem sound_leave (m : Monitor ι) : Sound cond pending m.leave where
  owned := ⟨fun h => (by cases h), fun h => h.elim (fun h => by cases h) fun h => by cases h⟩
  decided := by
    intro h
    cases h
  awake := by
    intro h
    cases h

/-- With the mutex, a false condition is a reason to sleep. -/
theorem Sound.decide (hs : Sound cond pending m) (hw : m.waiter = .holding) (hcond : ¬ cond) :
    Sound cond pending m.decide where
  owned := ⟨fun _ => Or.inr rfl, fun _ => hs.owned.mpr (Or.inl hw)⟩
  decided := fun _ => hcond
  awake := by
    intro h
    cases h

/-- And it is still false when the sleep begins. -/
theorem Sound.sleep (hs : Sound cond pending m) (hw : m.waiter = .decided) :
    Sound cond pending m.sleep where
  owned := ⟨fun h => (by cases h), fun h => h.elim (fun h => by cases h) fun h => by cases h⟩
  decided := by
    intro h
    cases h
  awake := fun _ hcond => absurd hcond (hs.decided hw)

/-- A notification, or another end of the sleep. After it nothing has to be pending. -/
theorem Sound.wake (hs : Sound cond pending m) : Sound cond pending' m.wake := by
  by_cases hw : m.waiter = .asleep
  · have hawake : m.wake.waiter = .awake := by
      unfold Monitor.wake
      rw [hw]
    constructor
    · rw [owner_wake, hs.owned, HasMutex, HasMutex, hw, hawake]
      simp
    · intro h
      rw [hawake] at h
      cases h
    · exact fun h => absurd h (waiter_wake_ne m)
  · rw [wake_eq hw]
    exact ⟨hs.owned, hs.decided, fun h => absurd h hw⟩

theorem Sound.lock (hs : Sound cond pending m) (hfree : m.owner = none) (i : ι) :
    Sound cond pending (m.lock i) where
  owned := by
    constructor
    · intro h
      cases h
    · intro h
      have howner := hs.owned.mpr h
      rw [hfree] at howner
      cases howner
  decided := hs.decided
  awake := hs.awake

/-- While another thread has the mutex, the waiter has not. -/
theorem Sound.not_hasMutex (hs : Sound cond pending m) {i : ι}
    (howner : m.owner = some (.other i)) : ¬ m.HasMutex := by
  intro h
  have hown := hs.owned.mpr h
  rw [howner] at hown
  cases hown

theorem Sound.unlock (hs : Sound cond pending m) {i : ι} (howner : m.owner = some (.other i)) :
    Sound cond pending m.unlock where
  owned := ⟨fun h => (by cases h), fun h => absurd h (hs.not_hasMutex howner)⟩
  decided := hs.decided
  awake := hs.awake

/-! ## Changes of the condition -/

/-- A change at a time when the waiter has not decided to sleep, with its notification to come. -/
theorem Sound.change (hs : Sound cond pending m) (hw : m.waiter ≠ .decided) (hnote : pending') :
    Sound cond' pending' m where
  owned := hs.owned
  decided := fun h => absurd h hw
  awake := fun _ _ => hnote

/-- The same under the mutex, where the waiter cannot have decided. -/
theorem Sound.change_locked (hs : Sound cond pending m) {i : ι}
    (howner : m.owner = some (.other i)) (hnote : pending') : Sound cond' pending' m :=
  hs.change (fun h => hs.not_hasMutex howner (Or.inr h)) hnote

/-- A condition that only becomes false needs no notification. -/
theorem Sound.weaken (hs : Sound cond pending m) (hcond : cond' → cond)
    (hnote : pending → pending') : Sound cond' pending' m where
  owned := hs.owned
  decided := fun h hc => hs.decided h (hcond hc)
  awake := fun h hc => hnote (hs.awake h (hcond hc))

end Monitor

end Infra
