import Mathlib.Algebra.Ring.Nat

/-!
# Waiting on a futex word

One thread waits for a condition, another makes it true and notifies. The waiter checks the
condition, samples the word, and sleeps when the word still has the sampled value; then it checks
again. The notifier changes the condition, increments the word, and wakes the sleeper. `FUTEX_WAIT`
compares 32 bits, so the word counts modulo `2 ^ 32`.

* `Futex.Awake cond` — the waiter does not sleep while `cond` holds and no wake is still to come
* `Futex.Sound cond` — the invariant: a sampled value also tells that the increment is still to come
* `Sound.sample`, `Sound.wait` — the two steps that need a condition; all others keep `Sound`
-/

namespace Infra

/-- Where the waiter is. The count is that of the increments at the sample. -/
inductive Waiter where
  | out
  | checking
  /-- the condition was false -/
  | checked
  | sampled (count : Nat)
  | asleep
  deriving DecidableEq

/-- What the notifier has still to do. -/
inductive Note where
  | quiet
  /-- the condition is changed, and the word not incremented yet -/
  | increment
  /-- the word is incremented, and the sleeper not woken yet -/
  | wake
  deriving DecidableEq

/-- A futex word by the count of its increments, the waiter, and the notifier. -/
structure Futex where
  count : Nat
  waiter : Waiter
  note : Note

namespace Futex

def init : Futex := ⟨0, .out, .quiet⟩

/-! ## The waiter -/

/-- Start to wait, at the check of the condition. -/
def enter (f : Futex) : Futex := { f with waiter := .checking }

/-- Stop to wait. -/
def leave (f : Futex) : Futex := { f with waiter := .out }

/-- The check has found the condition false. -/
def goOn (f : Futex) : Futex := { f with waiter := .checked }

/-- Load the word. -/
def sample (f : Futex) : Futex := { f with waiter := .sampled f.count }

/-- `FUTEX_WAIT`: sleep when the word has the expected value, else check again. -/
def wait (f : Futex) (expected : Nat) : Futex :=
  if f.count % 2 ^ 32 = expected % 2 ^ 32 then { f with waiter := .asleep } else f.enter

/-! ## The notifier -/

/-- The condition is changed. -/
def raise (f : Futex) : Futex := { f with note := .increment }

def increment (f : Futex) : Futex := { f with count := f.count + 1, note := .wake }

/-- `FUTEX_WAKE`. -/
def wakeAll (f : Futex) : Futex where
  count := f.count
  waiter := match f.waiter with
    | .asleep => .checking
    | w => w
  note := .quiet

/-! ## The invariant -/

/-- **No lost wake-up**: the waiter sleeps with `cond` true only while a wake is to come. -/
def Awake (cond : Prop) (f : Futex) : Prop := f.waiter = .asleep → cond → f.note ≠ .quiet

structure Sound (cond : Prop) (f : Futex) : Prop where
  awake : f.Awake cond
  /-- with the condition true, the increment comes, or has come since the sample -/
  fresh : ∀ count, f.waiter = .sampled count →
    count ≤ f.count ∧ (cond → f.note = .increment ∨ count < f.count)

variable {cond cond' : Prop} {f : Futex}

/-- Awake and without a sample, nothing is promised. -/
theorem Sound.of_awake (h : f.waiter ≠ .asleep) (h' : ∀ count, f.waiter ≠ .sampled count) :
    Sound cond f where
  awake := by
    intro hw
    exact absurd hw h
  fresh := by
    intro count hw
    exact absurd hw (h' count)

theorem Sound.of_out (h : f.waiter = .out) : Sound cond f := by
  refine Sound.of_awake ?_ ?_
  · rw [h]
    intro hw
    cases hw
  · intro count hw
    rw [h] at hw
    cases hw

theorem sound_init : Sound cond init := Sound.of_out rfl

theorem sound_enter : Sound cond f.enter :=
  Sound.of_awake (fun h => by cases h) (fun _ h => by cases h)

theorem sound_leave : Sound cond f.leave := Sound.of_out rfl

theorem sound_goOn : Sound cond f.goOn :=
  Sound.of_awake (fun h => by cases h) (fun _ h => by cases h)

/-- A sample is good when the condition is false, or true with the increment still to come. -/
theorem sound_sample (h : cond → f.note = .increment) : Sound cond f.sample where
  awake := by
    intro hw
    cases hw
  fresh := by
    intro count hw
    cases hw
    exact ⟨Nat.le_refl _, fun hcond => Or.inl (h hcond)⟩

/-- A wait is good when the count has not gone round since the sample. -/
theorem Sound.wait (hs : Sound cond f) {expected : Nat} (hw : f.waiter = .sampled expected)
    (hround : f.count < expected + 2 ^ 32) : Sound cond (f.wait expected) := by
  obtain ⟨hle, hcond⟩ := hs.fresh expected hw
  unfold Futex.wait
  split
  · rename_i heq
    have hsame : f.count = expected := by omega
    constructor
    · intro hw hc
      rcases hcond hc with hnote | hlt
      · show f.note ≠ .quiet
        rw [hnote]
        intro h
        cases h
      · omega
    · intro count hw
      cases hw
  · exact sound_enter

/-- A new condition, with its notification to come. -/
theorem Sound.raise (hs : Sound cond f) : Sound cond' f.raise where
  awake := by
    intro hw hc h
    cases h
  fresh := by
    intro count hw
    exact ⟨(hs.fresh count hw).1, fun _ => Or.inl rfl⟩

theorem Sound.increment (hs : Sound cond f) : Sound cond f.increment where
  awake := by
    intro hw hc h
    cases h
  fresh := by
    intro count hw
    have hle := (hs.fresh count hw).1
    have hlt : count < f.count + 1 := by omega
    exact ⟨Nat.le_of_lt hlt, fun _ => Or.inr hlt⟩

theorem Sound.wakeAll (hs : Sound cond f) (hnote : f.note = .wake) : Sound cond f.wakeAll := by
  obtain ⟨count, waiter, note⟩ := f
  cases hnote
  cases waiter with
  | out => exact Sound.of_out rfl
  | asleep => exact Sound.of_awake (fun h => by cases h) (fun _ h => by cases h)
  | checking => exact Sound.of_awake (fun h => by cases h) (fun _ h => by cases h)
  | checked => exact Sound.of_awake (fun h => by cases h) (fun _ h => by cases h)
  | sampled expected =>
    constructor
    · intro hw
      cases hw
    · intro count hw
      obtain ⟨hle, hcond⟩ := hs.fresh count hw
      refine ⟨hle, ?_⟩
      intro hc
      rcases hcond hc with h | h
      · cases h
      · exact Or.inr h

theorem inCall_of_eq {w : Waiter} (h : f.waiter = w) (hw : w ≠ .out) : f.waiter ≠ .out := by
  rw [h]
  exact hw

/-- A wake does not end the call. -/
theorem waiter_wakeAll (h : f.wakeAll.waiter ≠ .out) : f.waiter ≠ .out := by
  intro hout
  refine h ?_
  show (match f.waiter with | .asleep => Waiter.checking | w => w) = .out
  rw [hout]

end Futex

end Infra
