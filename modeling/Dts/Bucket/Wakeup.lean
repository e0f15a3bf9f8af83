import Dts.Bucket.Segment
import Dts.Infra.Futex

/-!
# Waking the reader and the writer

The segment with its two futex words. The reader sleeps on `wake_word` in `wait_wake`, and a writer
increments and wakes it behind its publication. The writer that holds the lock sleeps on
`drain_word` in `wait_drain`, and the reader increments and wakes that behind its consumption. Both
wait in the same way: check the positions, look at the deadline, load the word, `FUTEX_WAIT`, and
check again.

The word is loaded behind the check, so a notification that comes between the two is in the expected
value already. `wakeup_law` says that nobody sleeps too long when that does not happen.
-/

namespace Dts.Bucket

open Infra

/-! ## The system with its words -/

/-- `wake`: the reader waits and the writers notify. `drain`: the other way round. -/
structure WakeSystem where
  base : System
  wake : Futex
  drain : Futex

def WakeSystem.init : WakeSystem := ⟨System.init, Futex.init, Futex.init⟩

/-- The condition of `wait_wake`. -/
def System.hasData (s : System) : Prop := s.seg.writePos > s.seg.cursor

instance (s : System) : Decidable s.hasData := inferInstanceAs (Decidable (_ > _))

/-- The reader is inside `wait_wake`. -/
def Reader.isWaiting : Reader → Bool
  | .waiting _ => true
  | _ => false

/-- The steps of the segment, and those of the two waits over their words. -/
inductive WakeAct where
  /-- a step outside the two waits -/
  | base (a : Action)
  | readerCheck
  | readerExpired
  | readerSample
  | readerWait
  /-- `FUTEX_WAIT` returns by its timeout or a signal -/
  | readerReturn
  | writerCheck
  | writerExpired
  | writerSample
  | writerWait
  | writerReturn
  | incrementWake
  | futexWake
  | incrementDrain
  | futexDrain

/-- A step of the segment, with what it means for the words. -/
def baseStep (C : Capacity) (s : WakeSystem) : Action → Option WakeSystem
  -- these are the ends of the two waits
  | .drain | .drainTimeout | .wake | .readTimeout => none
  | .lock w => (lock s.base w).map fun b => { s with base := b, drain := s.drain.enter }
  | .poll => (poll C s.base).map fun b =>
      { s with base := b, wake := if b.reader.isWaiting then s.wake.enter else s.wake }
  | .publish => (publish s.base).map fun b => { s with base := b, wake := s.wake.raise }
  | .consume => (consume s.base).map fun b => { s with base := b, drain := s.drain.raise }
  -- the notifications come before the unlock and before `Read` returns
  | .unlock => if s.wake.note = .quiet then (unlock s.base).map fun b => { s with base := b } else none
  | .read max => if s.drain.note = .quiet then (read s.base max).map fun b => { s with base := b }
      else none
  | .write w m => (write C s.base w m).map fun b => { s with base := b }
  | .lockFail w => (lockFail s.base w).map fun b => { s with base := b }
  | .copy n => (copy s.base n).map fun b => { s with base := b }
  | .load n => (load s.base n).map fun b => { s with base := b }
  | .decode => (decode C s.base).map fun b => { s with base := b }

/-- Every load, increment and futex call is a step. -/
def wakeStep (C : Capacity) (s : WakeSystem) : WakeAct → Option WakeSystem
  | .base a => baseStep C s a
  | .readerCheck =>
    match s.wake.waiter with
    | .checking =>
      match wake s.base with
      | some b => some { s with base := b, wake := s.wake.leave }
      | none => some { s with wake := s.wake.goOn }
    | _ => none
  | .readerExpired =>
    match s.wake.waiter with
    | .checked => (readTimeout s.base).map fun b => { s with base := b, wake := s.wake.leave }
    | _ => none
  | .readerSample =>
    match s.wake.waiter with
    | .checked => some { s with wake := s.wake.sample }
    | _ => none
  | .readerWait =>
    match s.wake.waiter with
    | .sampled expected => some { s with wake := s.wake.wait expected }
    | _ => none
  | .readerReturn =>
    match s.wake.waiter with
    | .asleep => some { s with wake := s.wake.enter }
    | _ => none
  | .writerCheck =>
    match s.drain.waiter with
    | .checking =>
      match drain C s.base with
      | some b => some { s with base := b, drain := s.drain.leave }
      | none => some { s with drain := s.drain.goOn }
    | _ => none
  | .writerExpired =>
    match s.drain.waiter with
    | .checked => (drainTimeout s.base).map fun b => { s with base := b, drain := s.drain.leave }
    | _ => none
  | .writerSample =>
    match s.drain.waiter with
    | .checked => some { s with drain := s.drain.sample }
    | _ => none
  | .writerWait =>
    match s.drain.waiter with
    | .sampled expected => some { s with drain := s.drain.wait expected }
    | _ => none
  | .writerReturn =>
    match s.drain.waiter with
    | .asleep => some { s with drain := s.drain.enter }
    | _ => none
  | .incrementWake =>
    if s.wake.note = .increment then some { s with wake := s.wake.increment } else none
  | .futexWake => if s.wake.note = .wake then some { s with wake := s.wake.wakeAll } else none
  | .incrementDrain =>
    if s.drain.note = .increment then some { s with drain := s.drain.increment } else none
  | .futexDrain => if s.drain.note = .wake then some { s with drain := s.drain.wakeAll } else none

/-! ## The segment below -/

theorem map_base {o : Option System} {f : System → WakeSystem} {t : WakeSystem}
    (h : o.map f = some t) (hf : ∀ b, (f b).base = b) : o = some t.base := by
  obtain ⟨b, hb, rfl⟩ := Option.map_eq_some_iff.mp h
  rw [hf, hb]

/-- A step of the segment with its words is a step of the segment, or leaves it alone. -/
theorem wakeStep_base {C : Capacity} {s t : WakeSystem} {a : WakeAct}
    (h : wakeStep C s a = some t) : t.base = s.base ∨ ∃ b, step C s.base b = some t.base := by
  cases a with
  | base a =>
    right
    refine ⟨a, ?_⟩
    cases a with
    | drain => cases h
    | drainTimeout => cases h
    | wake => cases h
    | readTimeout => cases h
    | unlock =>
      simp only [wakeStep, baseStep] at h
      split at h
      · exact map_base h fun _ => rfl
      · cases h
    | read max =>
      simp only [wakeStep, baseStep] at h
      split at h
      · exact map_base h fun _ => rfl
      · cases h
    | lock w => exact map_base h fun _ => rfl
    | poll => exact map_base h fun _ => rfl
    | publish => exact map_base h fun _ => rfl
    | consume => exact map_base h fun _ => rfl
    | write w m => exact map_base h fun _ => rfl
    | lockFail w => exact map_base h fun _ => rfl
    | copy n => exact map_base h fun _ => rfl
    | load n => exact map_base h fun _ => rfl
    | decode => exact map_base h fun _ => rfl
  | readerCheck =>
    simp only [wakeStep] at h
    split at h
    · split at h
      · rename_i b hb
        cases h
        exact Or.inr ⟨.wake, hb⟩
      · cases h
        exact Or.inl rfl
    · cases h
  | readerExpired =>
    simp only [wakeStep] at h
    split at h
    · exact Or.inr ⟨.readTimeout, map_base h fun _ => rfl⟩
    · cases h
  | writerCheck =>
    simp only [wakeStep] at h
    split at h
    · split at h
      · rename_i b hb
        cases h
        exact Or.inr ⟨.drain, hb⟩
      · cases h
        exact Or.inl rfl
    · cases h
  | writerExpired =>
    simp only [wakeStep] at h
    split at h
    · exact Or.inr ⟨.drainTimeout, map_base h fun _ => rfl⟩
    · cases h
  | readerSample | readerWait | readerReturn | writerSample | writerWait | writerReturn
    | incrementWake | futexWake | incrementDrain | futexDrain =>
    simp only [wakeStep] at h
    split at h
    · cases h
      exact Or.inl rfl
    · cases h

/-- **Refinement.** What a run does to the segment below, a run of the segment alone does. -/
theorem exec_base {C : Capacity} {as : List WakeAct} {s t : WakeSystem}
    (h : exec (wakeStep C) s as = some t) :
    ∃ bs, exec (step C) s.base bs = some t.base := by
  induction as generalizing s with
  | nil =>
    cases h
    exact ⟨[], rfl⟩
  | cons a as ih =>
    rw [exec_cons, Option.bind_eq_some_iff] at h
    obtain ⟨u, hu, hrest⟩ := h
    obtain ⟨bs, hbs⟩ := ih hrest
    rcases wakeStep_base hu with hsame | ⟨b, hb⟩
    · exact ⟨bs, hsame ▸ hbs⟩
    · refine ⟨b :: bs, ?_⟩
      rw [exec_cons, hb]
      exact hbs

/-! ## The law and its condition -/

/-- **No lost wake-up**, on both sides. -/
structure Awake (C : Capacity) (s : WakeSystem) : Prop where
  reader : s.wake.Awake s.base.hasData
  writer : s.drain.Awake (drained C s.base.seg)

/--
When a word is loaded, the condition is still false, or the increment for it is still to come; and a
word does not go round between its load and `FUTEX_WAIT`.
-/
def samplesInTime (C : Capacity) (s : WakeSystem) : WakeAct → Bool
  | .readerSample => !decide s.base.hasData || s.wake.note = .increment
  | .writerSample => !decide (drained C s.base.seg) || s.drain.note = .increment
  | .readerWait =>
    match s.wake.waiter with
    | .sampled expected => s.wake.count < expected + 2 ^ 32
    | _ => true
  | .writerWait =>
    match s.drain.waiter with
    | .sampled expected => s.drain.count < expected + 2 ^ 32
    | _ => true
  | _ => true

/-! ## The invariant -/

/-- The writer with the lock is inside `wait_drain`. -/
def Holder.isWaiting (h : Holder) : Bool :=
  match h.phase with
  | .waiting => true
  | _ => false

/-- Both words are sound for the conditions that their waiters check. -/
structure WakeInv (C : Capacity) (s : WakeSystem) : Prop where
  reader : s.wake.Sound s.base.hasData
  writer : s.drain.Sound (drained C s.base.seg)
  /-- only the reader in `wait_wake` uses `wake_word` -/
  inWake : s.wake.waiter ≠ .out → s.base.reader.isWaiting = true
  /-- only the holder of the lock in `wait_drain` uses `drain_word` -/
  inDrain : s.drain.waiter ≠ .out → s.base.holder.any Holder.isWaiting = true

theorem wakeInv_init (C : Capacity) : WakeInv C WakeSystem.init where
  reader := Futex.sound_init
  writer := Futex.sound_init
  inWake := fun h => absurd rfl h
  inDrain := fun h => absurd rfl h

variable {C : Capacity} {s t : WakeSystem}

theorem WakeInv.awake (h : WakeInv C s) : Awake C s := ⟨h.reader.awake, h.writer.awake⟩

theorem WakeInv.wake_out (h : WakeInv C s) (hr : s.base.reader.isWaiting = false) :
    s.wake.waiter = .out := by
  by_contra hw
  exact absurd (h.inWake hw) (ne_true_of_eq_false hr)

theorem WakeInv.drain_out (h : WakeInv C s) (hh : s.base.holder.any Holder.isWaiting = false) :
    s.drain.waiter = .out := by
  by_contra hw
  exact absurd (h.inDrain hw) (ne_true_of_eq_false hh)

/-- A change of the wake word alone. -/
theorem WakeInv.setWake (h : WakeInv C s) {f : Futex} (hsound : f.Sound s.base.hasData)
    (hin : f.waiter ≠ .out → s.wake.waiter ≠ .out) : WakeInv C { s with wake := f } where
  reader := hsound
  writer := h.writer
  inWake := fun hw => h.inWake (hin hw)
  inDrain := h.inDrain

theorem WakeInv.setDrain (h : WakeInv C s) {f : Futex} (hsound : f.Sound (drained C s.base.seg))
    (hin : f.waiter ≠ .out → s.drain.waiter ≠ .out) : WakeInv C { s with drain := f } where
  reader := h.reader
  writer := hsound
  inWake := h.inWake
  inDrain := fun hw => h.inDrain (hin hw)

/-- A step of a writer outside `wait_drain`: the reader stays where it is. -/
theorem WakeInv.writerStep (h : WakeInv C s) {b : System} {f : Futex}
    (hreader : b.reader = s.base.reader) (hf : f.waiter = s.wake.waiter)
    (hsound : f.Sound b.hasData) (hout : s.base.holder.any Holder.isWaiting = false) :
    WakeInv C { s with base := b, wake := f } where
  reader := hsound
  writer := Futex.Sound.of_out (h.drain_out hout)
  inWake := by
    intro hw
    show b.reader.isWaiting = true
    rw [hreader]
    exact h.inWake (hf ▸ hw)
  inDrain := fun hw => absurd (h.drain_out hout) hw

/-- A step of the reader outside `wait_wake`: the writer stays where it is. -/
theorem WakeInv.readerStep (h : WakeInv C s) {b : System} {f : Futex}
    (hholder : b.holder = s.base.holder) (hf : f.waiter = s.drain.waiter)
    (hsound : f.Sound (drained C b.seg)) (hout : s.base.reader.isWaiting = false) :
    WakeInv C { s with base := b, drain := f } where
  reader := Futex.Sound.of_out (h.wake_out hout)
  writer := hsound
  inWake := fun hw => absurd (h.wake_out hout) hw
  inDrain := by
    intro hw
    show b.holder.any Holder.isWaiting = true
    rw [hholder]
    exact h.inDrain (hf ▸ hw)

/-! ## The steps of the segment -/

theorem baseStep_inv {a : Action} (h : WakeInv C s) (hstep : baseStep C s a = some t) :
    WakeInv C t := by
  cases a with
  | drain => cases hstep
  | drainTimeout => cases hstep
  | wake => cases hstep
  | readTimeout => cases hstep
  | write w m =>
    obtain ⟨b, hb, rfl⟩ := Option.map_eq_some_iff.mp hstep
    unfold write at hb
    split at hb
    · cases hb
    · split at hb
      · cases hb
        exact h
      · cases hb
        exact ⟨h.reader, h.writer, h.inWake, h.inDrain⟩
  | lock w =>
    obtain ⟨b, hb, rfl⟩ := Option.map_eq_some_iff.mp hstep
    unfold lock at hb
    split at hb
    · cases hb
      exact ⟨h.reader, Futex.sound_enter, h.inWake, fun _ => rfl⟩
    · cases hb
  | lockFail w =>
    obtain ⟨b, hb, rfl⟩ := Option.map_eq_some_iff.mp hstep
    unfold lockFail at hb
    split at hb
    · cases hb
      exact ⟨h.reader, h.writer, h.inWake, h.inDrain⟩
    · cases hb
  | copy n =>
    obtain ⟨b, hb, rfl⟩ := Option.map_eq_some_iff.mp hstep
    unfold copy at hb
    split at hb
    · rename_i w m wpos todo hholder
      cases hb
      exact h.writerStep rfl rfl h.reader (by rw [hholder]; rfl)
    · cases hb
  | publish =>
    obtain ⟨b, hb, rfl⟩ := Option.map_eq_some_iff.mp hstep
    unfold publish at hb
    split at hb
    · rename_i w m wpos hholder
      cases hb
      exact h.writerStep rfl rfl h.reader.raise (by rw [hholder]; rfl)
    · cases hb
  | unlock =>
    simp only [baseStep] at hstep
    split at hstep
    · obtain ⟨b, hb, rfl⟩ := Option.map_eq_some_iff.mp hstep
      unfold unlock at hb
      split at hb
      · rename_i w m hholder
        cases hb
        exact h.writerStep rfl rfl h.reader (by rw [hholder]; rfl)
      · cases hb
    · cases hstep
  | read max =>
    simp only [baseStep] at hstep
    split at hstep
    · obtain ⟨b, hb, rfl⟩ := Option.map_eq_some_iff.mp hstep
      unfold read at hb
      split at hb
      · rename_i hreader
        cases hb
        exact h.readerStep rfl rfl h.writer (by rw [hreader]; rfl)
      · cases hb
    · cases hstep
  | poll =>
    obtain ⟨b, hb, rfl⟩ := Option.map_eq_some_iff.mp hstep
    unfold poll at hb
    split at hb
    · rename_i max hreader
      have hout := h.wake_out (by rw [hreader]; rfl)
      simp only at hb
      split at hb
      · cases hb
        exact ⟨Futex.Sound.of_out hout, h.writer, fun hw => absurd hout hw, h.inDrain⟩
      · cases hb
        exact ⟨Futex.sound_enter, h.writer, fun _ => rfl, h.inDrain⟩
    · cases hb
  | load n =>
    obtain ⟨b, hb, rfl⟩ := Option.map_eq_some_iff.mp hstep
    unfold load at hb
    split at hb
    · rename_i max wpos got todo hreader
      cases hb
      exact h.readerStep rfl rfl h.writer (by rw [hreader]; rfl)
    · rename_i hdrLen got todo hreader
      cases hb
      exact h.readerStep rfl rfl h.writer (by rw [hreader]; rfl)
    · cases hb
  | decode =>
    obtain ⟨b, hb, rfl⟩ := Option.map_eq_some_iff.mp hstep
    unfold decode at hb
    split at hb
    · rename_i max wpos got hreader
      simp only at hb
      split at hb
      · cases hb
        exact h.readerStep rfl rfl h.writer (by rw [hreader]; rfl)
      · cases hb
        exact h.readerStep rfl rfl h.writer (by rw [hreader]; rfl)
    · cases hb
  | consume =>
    obtain ⟨b, hb, rfl⟩ := Option.map_eq_some_iff.mp hstep
    unfold consume at hb
    split at hb
    · rename_i hdrLen got hreader
      cases hb
      exact h.readerStep rfl rfl h.writer.raise (by rw [hreader]; rfl)
    · cases hb

/-! ## The steps of the two waits -/

theorem wakeStep_inv {a : WakeAct} (h : WakeInv C s) (hstep : wakeStep C s a = some t)
    (hc : samplesInTime C s a = true) : WakeInv C t := by
  cases a with
  | base a => exact baseStep_inv h hstep
  | readerCheck =>
    simp only [wakeStep] at hstep
    split at hstep
    · rename_i hw
      have hin := Futex.inCall_of_eq hw fun h => by cases h
      split at hstep
      · rename_i b hb
        cases hstep
        unfold wake at hb
        split at hb
        · split at hb
          · cases hb
            exact ⟨Futex.sound_leave, h.writer, fun hw => absurd rfl hw, h.inDrain⟩
          · cases hb
        · cases hb
      · cases hstep
        exact h.setWake Futex.sound_goOn fun _ => hin
    · cases hstep
  | readerExpired =>
    simp only [wakeStep] at hstep
    split at hstep
    · obtain ⟨b, hb, rfl⟩ := Option.map_eq_some_iff.mp hstep
      unfold readTimeout at hb
      split at hb
      · cases hb
        exact ⟨Futex.sound_leave, h.writer, fun hw => absurd rfl hw, h.inDrain⟩
      · cases hb
    · cases hstep
  | readerSample =>
    simp only [wakeStep] at hstep
    split at hstep
    · rename_i hw
      cases hstep
      have hin := Futex.inCall_of_eq hw fun h => by cases h
      refine h.setWake (Futex.sound_sample ?_) fun _ => hin
      intro hdata
      simpa [samplesInTime, hdata] using hc
    · cases hstep
  | readerWait =>
    simp only [wakeStep] at hstep
    split at hstep
    · rename_i expected hw
      cases hstep
      have hround : s.wake.count < expected + 2 ^ 32 := by simpa [samplesInTime, hw] using hc
      have hin := Futex.inCall_of_eq hw fun h => by cases h
      exact h.setWake (h.reader.wait hw hround) fun _ => hin
    · cases hstep
  | readerReturn =>
    simp only [wakeStep] at hstep
    split at hstep
    · rename_i hw
      cases hstep
      have hin := Futex.inCall_of_eq hw fun h => by cases h
      exact h.setWake Futex.sound_enter fun _ => hin
    · cases hstep
  | writerCheck =>
    simp only [wakeStep] at hstep
    split at hstep
    · rename_i hw
      have hin := Futex.inCall_of_eq hw fun h => by cases h
      split at hstep
      · rename_i b hb
        cases hstep
        unfold drain at hb
        split at hb
        · split at hb
          · cases hb
            exact ⟨h.reader, Futex.sound_leave, h.inWake, fun hw => absurd rfl hw⟩
          · cases hb
        · cases hb
      · cases hstep
        exact h.setDrain Futex.sound_goOn fun _ => hin
    · cases hstep
  | writerExpired =>
    simp only [wakeStep] at hstep
    split at hstep
    · obtain ⟨b, hb, rfl⟩ := Option.map_eq_some_iff.mp hstep
      unfold drainTimeout at hb
      split at hb
      · cases hb
        exact ⟨h.reader, Futex.sound_leave, h.inWake, fun hw => absurd rfl hw⟩
      · cases hb
    · cases hstep
  | writerSample =>
    simp only [wakeStep] at hstep
    split at hstep
    · rename_i hw
      cases hstep
      have hin := Futex.inCall_of_eq hw fun h => by cases h
      refine h.setDrain (Futex.sound_sample ?_) fun _ => hin
      intro hdrained
      simpa [samplesInTime, hdrained] using hc
    · cases hstep
  | writerWait =>
    simp only [wakeStep] at hstep
    split at hstep
    · rename_i expected hw
      cases hstep
      have hround : s.drain.count < expected + 2 ^ 32 := by simpa [samplesInTime, hw] using hc
      have hin := Futex.inCall_of_eq hw fun h => by cases h
      exact h.setDrain (h.writer.wait hw hround) fun _ => hin
    · cases hstep
  | writerReturn =>
    simp only [wakeStep] at hstep
    split at hstep
    · rename_i hw
      cases hstep
      have hin := Futex.inCall_of_eq hw fun h => by cases h
      exact h.setDrain Futex.sound_enter fun _ => hin
    · cases hstep
  | incrementWake =>
    simp only [wakeStep] at hstep
    split at hstep
    · cases hstep
      exact h.setWake h.reader.increment id
    · cases hstep
  | futexWake =>
    simp only [wakeStep] at hstep
    split at hstep
    · rename_i hnote
      cases hstep
      exact h.setWake (h.reader.wakeAll hnote) Futex.waiter_wakeAll
    · cases hstep
  | incrementDrain =>
    simp only [wakeStep] at hstep
    split at hstep
    · cases hstep
      exact h.setDrain h.writer.increment id
    · cases hstep
  | futexDrain =>
    simp only [wakeStep] at hstep
    split at hstep
    · rename_i hnote
      cases hstep
      exact h.setDrain (h.writer.wakeAll hnote) Futex.waiter_wakeAll
    · cases hstep

/--
**Wake-ups.** In every run whose samples are in time, at every time, the reader sleeps with data in
the ring, or the writer with room in it, only while a wake for it is still to come.
-/
theorem wakeup_law (C : Capacity) (as : List WakeAct)
    (hc : AllSteps (wakeStep C) (fun s a => samplesInTime C s a = true) WakeSystem.init as) :
    AllStates (wakeStep C) (Awake C) WakeSystem.init as :=
  allStates_of_allSteps (WakeInv C) (fun _ h => h.awake)
    (fun _ _ _ h hstep hc => wakeStep_inv h hstep hc) as WakeSystem.init (wakeInv_init C) hc

/-- A segment of the default size. -/
def defaultSegment : Capacity := ⟨64 * 1024 * 1024, by decide, by decide, by decide⟩

/-- The reader sleeps before the message comes, is woken behind its publication, and reads it. -/
def wokenRun : List WakeAct :=
  [.base (.read 64), .base .poll, .readerCheck, .readerSample, .readerWait,
    .base (.write 0 ⟨[7], by decide⟩), .base (.lock 0), .writerCheck, .base (.copy 5), .base .publish,
    .incrementWake, .futexWake, .readerCheck, .base .unlock, .base .poll, .base (.load 4),
    .base .decode, .base (.load 1), .base .consume, .incrementDrain, .futexDrain]

theorem wakeup_law_woken :
    AllStates (wakeStep defaultSegment) (Awake defaultSegment) WakeSystem.init wokenRun :=
  wakeup_law defaultSegment wokenRun (by decide +kernel)

/-- The whole `Write` comes between the check of the reader and its load of `wake_word`. -/
def lateSample : List WakeAct :=
  [.base (.read 64), .base .poll, .readerCheck, .base (.write 0 ⟨[7], by decide⟩), .base (.lock 0),
    .writerCheck, .base (.copy 5), .base .publish, .incrementWake, .futexWake, .base .unlock,
    .readerSample, .readerWait]

/-- The reader sleeps, with a message in the ring and no writer in `Write`. -/
theorem wakeup_fails_late_sample :
    ∃ s, exec (wakeStep defaultSegment) WakeSystem.init lateSample = some s ∧ s.wake.waiter = .asleep ∧
      s.base.hasData ∧ s.wake.note = .quiet ∧ s.base.holder.isNone = true ∧
      ¬ AllStates (wakeStep defaultSegment) (Awake defaultSegment) WakeSystem.init lateSample := by
  have hrun : ((exec (wakeStep defaultSegment) WakeSystem.init lateSample).map fun s =>
      (s.wake.waiter, decide s.base.hasData, s.wake.note, s.base.holder.isNone)) =
        some (.asleep, true, .quiet, true) := by decide +kernel
  obtain ⟨s, hs, hvals⟩ := Option.map_eq_some_iff.mp hrun
  obtain ⟨hasleep, hrest⟩ := Prod.mk.inj hvals
  obtain ⟨hdata, hrest⟩ := Prod.mk.inj hrest
  obtain ⟨hquiet, hholder⟩ := Prod.mk.inj hrest
  refine ⟨s, hs, hasleep, of_decide_eq_true hdata, hquiet, hholder, ?_⟩
  intro hall
  exact (hall.last hs).reader hasleep (of_decide_eq_true hdata) hquiet

end Dts.Bucket
