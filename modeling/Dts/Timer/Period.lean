import Dts.Timer.Wheel
import Mathlib.Algebra.Ring.Nat

/-!
# Periods of the timer wheel

`TimerWheel::Tick` takes a task to be called when the tick has reached `next`, and then sets `next` to
the tick plus the period, in 32 bits. `firingLaw_iff` says when the calls of the callbacks keep the
period: as long as none is made by a `Tick` for which the sum, taken without wrapping, has left the
32 bits.
-/

namespace Dts.Timer

open Infra

variable {φ : Type*}

/-! ## The law -/

/-- How often the call of `Tick` with the number `k` has called the callback. -/
def fires (s : State φ) (k : Nat) (c : TickCall φ) (handle : Int) : Nat :=
  s.events.count (.invoked k handle c.nowTick)

/--
A call of `Tick` calls no callback before the deadline of its task, and has called it exactly once at
or behind the deadline when it has no callback left.
-/
structure OnPeriod (s : State φ) (k : Nat) (c : TickCall φ) (handle : Int) (deadline : Nat) :
    Prop where
  early : fires s k c handle ≠ 0 → deadline ≤ c.nowTick.toNat
  once : c.fire = [] → deadline ≤ c.nowTick.toNat → fires s k c handle = 1

/-- **The law.** Every call of `Tick` keeps the period of every task registered when it began. -/
def FiringLaw (s : State φ) : Prop :=
  ∀ k c, s.calls[k]? = some c → ∀ he ∈ c.registered, OnPeriod s k c he.1 he.2

/--
The condition: for every call of `Tick` and every task that it has not still to call, the deadline
fits into 32 bits, or the tick has not even reached what is left of it.
-/
def InRange (s : State φ) : Prop :=
  ∀ c ∈ s.calls, ∀ he ∈ c.registered, he.1 ∉ c.waits →
    he.2 < 2 ^ 32 ∨ c.nowTick.toNat + 2 ^ 32 < he.2

instance (s : State φ) : Decidable (InRange s) := inferInstanceAs (Decidable (∀ c ∈ s.calls, _))

/-- The calls of `Tick` are made one after the other. -/
def OneByOne (s : State φ) : Act φ → Prop
  | .tick _ => ∀ c ∈ s.calls, c.waits = []
  | _ => True

instance (s : State φ) : ∀ a, Decidable (OneByOne s a)
  | .tick _ => inferInstanceAs (Decidable (∀ c ∈ s.calls, _))
  | .add _ _ _ => inferInstanceAs (Decidable True)
  | .cancel _ => inferInstanceAs (Decidable True)
  | .invoke _ => inferInstanceAs (Decidable True)

/-! ## The invariant -/

/-- What a call of `Tick` has called and what it has still to call is what was due when it began. -/
def Accounted (events : List Event) (k : Nat) (c : TickCall φ) (handle : Int) (deadline : Nat) :
    Prop :=
  events.count (.invoked k handle c.nowTick) + c.waits.count handle
    = if c.nowTick.toNat < deadline % 2 ^ 32 then 0 else 1

/-- `next` is the deadline in 32 bits, once the callback has been called. -/
structure PeriodInv (s : State φ) : Prop where
  handles : HandlesInv s.wheel
  /-- only the last call of `Tick` is under way -/
  last : ∀ k c, s.calls[k]? = some c → c.waits ≠ [] → k + 1 = s.calls.length
  known : ∀ c ∈ s.calls, ∀ h ∈ c.waits, h < s.wheel.nextHandle
  taken : ∀ t ∈ s.wheel.tasks, ∀ c ∈ s.calls, t.handle ∈ c.waits → t.next = c.nowTick + t.period
  next : ∀ t ∈ s.wheel.tasks, (∀ c ∈ s.calls, t.handle ∉ c.waits) →
    t.next = s.since t.handle + t.period
  numbers : ∀ k h n, Event.invoked k h n ∈ s.events → k < s.calls.length
  bound : ∀ c ∈ s.calls, ∀ he ∈ c.registered, he.2 < 2 ^ 33
  accounted : ∀ k c, s.calls[k]? = some c → ∀ he ∈ c.registered, Accounted s.events k c he.1 he.2

theorem periodInv_init : PeriodInv ({} : State φ) where
  handles := handlesInv_init
  last := by simp
  known := by simp
  taken := by simp
  next := by simp
  numbers := by simp
  bound := by simp
  accounted := by simp

variable {s : State φ}

/-- Other events are not counted. -/
theorem Accounted.concat {events : List Event} {k : Nat} {c : TickCall φ} {handle : Int}
    {deadline : Nat} (h : Accounted events k c handle deadline) {e : Event}
    (he : e ≠ .invoked k handle c.nowTick) : Accounted (events ++ [e]) k c handle deadline := by
  rw [Accounted, List.count_append, List.count_singleton, if_neg (by simpa using he), Nat.add_zero]
  exact h

theorem PeriodInv.register (h : PeriodInv s) (period : UInt32) (fn : φ) (nowTick : UInt32)
    (hhandles : HandlesInv ⟨s.wheel.tasks
      ++ [⟨s.wheel.nextHandle, period, nowTick + period, fn, true⟩], s.wheel.nextHandle + 1⟩) :
    PeriodInv { s with
      wheel := ⟨s.wheel.tasks ++ [⟨s.wheel.nextHandle, period, nowTick + period, fn, true⟩],
        s.wheel.nextHandle + 1⟩
      since := fun h => if h = s.wheel.nextHandle then nowTick else s.since h
      events := s.events ++ [.registered s.wheel.nextHandle] } := by
  refine ⟨hhandles, h.last, ?_, ?_, ?_, ?_, h.bound, ?_⟩
  · exact fun c hc handle hwaits => Int.lt_trans (h.known c hc handle hwaits) (Int.lt_succ _)
  · intro t ht c hc hwaits
    rcases List.mem_append.mp ht with ht | ht
    · exact h.taken t ht c hc hwaits
    · -- the new task waits nowhere
      have hlt := h.known c hc _ hwaits
      rw [List.mem_singleton.mp ht] at hlt
      exact absurd hlt (Int.lt_irrefl _)
  · intro t ht hfree
    rcases List.mem_append.mp ht with ht | ht
    · have hne : t.handle ≠ s.wheel.nextHandle := Int.ne_of_lt (h.handles.fresh t ht)
      simp only [if_neg hne]
      exact h.next t ht hfree
    · rw [List.mem_singleton.mp ht]
      simp only [if_pos]
  · intro k handle n hmem
    rcases List.mem_append.mp hmem with hmem | hmem
    · exact h.numbers k handle n hmem
    · simp at hmem
  · exact fun k c hk he hmem => (h.accounted k c hk he hmem).concat (by simp)

theorem PeriodInv.cancel (h : PeriodInv s) (handle : Int) : PeriodInv (cancel s handle) := by
  refine ⟨h.handles.of_sublist rfl (by rw [Timer.cancel, handles_cancel]), h.last, h.known, ?_, ?_,
    ?_, h.bound, ?_⟩
  · intro t' ht' c hc hwaits
    obtain ⟨t, ht, rfl⟩ := mem_tasks_cancel.mp ht'
    revert hwaits
    split <;> exact h.taken t ht c hc
  · intro t' ht' hfree
    obtain ⟨t, ht, rfl⟩ := mem_tasks_cancel.mp ht'
    revert hfree
    split <;> exact h.next t ht
  · intro k h' n hmem
    rcases List.mem_append.mp hmem with hmem | hmem
    · exact h.numbers k h' n hmem
    · simp at hmem
  · exact fun k c hk he hmem => (h.accounted k c hk he hmem).concat (by simp)

/-! ## A call of `Tick` begins -/

/-- A registered task is taken to be called once when `next` is reached, else not at all. -/
theorem count_fire (h : HandlesInv s.wheel) (nowTick : UInt32) {t : Task φ}
    (ht : t ∈ s.wheel.tasks) (hactive : t.active = true) :
    ((s.wheel.tick nowTick).1.map Fire.handle).count t.handle
      = if nowTick < t.next then 0 else 1 := by
  have hmap : (s.wheel.tick nowTick).1.map Fire.handle
      = (s.wheel.tasks.filter (TimerWheel.due nowTick)).map Task.handle := by
    rw [TimerWheel.tick, List.map_map]
    rfl
  have hnodup := h.nodup.sublist
    ((List.filter_sublist (p := TimerWheel.due nowTick)).map Task.handle)
  rw [hmap]
  split
  · rename_i hlt
    refine List.count_eq_zero_of_not_mem ?_
    intro hmem
    obtain ⟨u, hu, hhandle⟩ := List.mem_map.mp hmem
    obtain ⟨hu, hdue⟩ := List.mem_filter.mp hu
    have : u = t := List.inj_on_of_nodup_map h.nodup hu ht hhandle
    subst this
    simp [TimerWheel.due, hlt] at hdue
  · rename_i hge
    refine List.count_eq_one_of_mem hnodup ?_
    refine List.mem_map_of_mem (List.mem_filter.mpr ⟨ht, ?_⟩)
    simp only [TimerWheel.due, hactive, decide_eq_false hge]
    rfl

/-- Between two calls of `Tick` the field `next` is the deadline in 32 bits. -/
theorem PeriodInv.toNat_next (h : PeriodInv s) (hidle : ∀ c ∈ s.calls, c.waits = []) {t : Task φ}
    (ht : t ∈ s.wheel.tasks) : t.next.toNat = deadline s t % 2 ^ 32 := by
  have hfree : ∀ c ∈ s.calls, t.handle ∉ c.waits := fun c hc => by simp [hidle c hc]
  rw [h.next t ht hfree, UInt32.toNat_add, deadline]

theorem getElem?_calls_tick {nowTick : UInt32} {k : Nat} {c : TickCall φ}
    (hk : (tick s nowTick).calls[k]? = some c) : s.calls[k]? = some c ∨
      k = s.calls.length ∧ c = ⟨nowTick, (s.wheel.tick nowTick).1, registered s⟩ := by
  simp only [Timer.tick, List.getElem?_append] at hk
  split at hk
  · exact Or.inl hk
  · rename_i hge
    obtain ⟨hlt, rfl⟩ := List.getElem?_eq_some_iff.mp hk
    rw [List.length_singleton] at hlt
    exact Or.inr ⟨by omega, by simp⟩

theorem mem_calls_tick {nowTick : UInt32} {c : TickCall φ} (hc : c ∈ (tick s nowTick).calls) :
    c ∈ s.calls ∨ c = ⟨nowTick, (s.wheel.tick nowTick).1, registered s⟩ := by
  simpa only [Timer.tick, List.mem_append, List.mem_singleton] using hc

/-- The tasks taken by the call have their new deadline. -/
theorem PeriodInv.taken_tick (h : PeriodInv s) {nowTick : UInt32}
    (hidle : ∀ c ∈ s.calls, c.waits = []) {t' : Task φ} (ht' : t' ∈ (tick s nowTick).wheel.tasks)
    {c : TickCall φ} (hc : c ∈ (tick s nowTick).calls) (hwaits : t'.handle ∈ c.waits) :
    t'.next = c.nowTick + t'.period := by
  obtain ⟨t, ht, -, rfl⟩ := mem_tasks_tick.mp ht'
  have hhandle : (if TimerWheel.due nowTick t = true then { t with next := nowTick + t.period }
      else t).handle = t.handle := by split <;> rfl
  rw [hhandle] at hwaits
  rcases mem_calls_tick hc with hc | rfl
  · rw [hidle c hc] at hwaits
    cases hwaits
  · -- a task with this handle is this task
    obtain ⟨f, hf, heq⟩ := List.mem_map.mp hwaits
    obtain ⟨u, hu, hudue, rfl⟩ := mem_fire.mp hf
    obtain rfl : u = t := List.inj_on_of_nodup_map h.handles.nodup hu ht heq
    rw [if_pos hudue]

/-- And the others keep theirs. -/
theorem PeriodInv.next_tick (h : PeriodInv s) {nowTick : UInt32}
    (hidle : ∀ c ∈ s.calls, c.waits = []) {t' : Task φ} (ht' : t' ∈ (tick s nowTick).wheel.tasks)
    (hfree : ∀ c ∈ (tick s nowTick).calls, t'.handle ∉ c.waits) :
    t'.next = s.since t'.handle + t'.period := by
  obtain ⟨t, ht, -, rfl⟩ := mem_tasks_tick.mp ht'
  by_cases hdue : TimerWheel.due nowTick t = true
  · have hwaits : t.handle ∈ (s.wheel.tick nowTick).1.map Fire.handle :=
      List.mem_map.mpr ⟨_, mem_fire.mpr ⟨t, ht, hdue, rfl⟩, rfl⟩
    rw [if_pos hdue] at hfree
    exact absurd hwaits (hfree _ (List.mem_append_right _ List.mem_cons_self))
  · rw [if_neg hdue]
    exact h.next t ht fun c hc => by simp [hidle c hc]

/-- The call has to make what is due, and has made nothing yet. -/
theorem PeriodInv.accounted_tick (h : PeriodInv s) {nowTick : UInt32}
    (hidle : ∀ c ∈ s.calls, c.waits = []) {he : Int × Nat} (hreg : he ∈ registered s) :
    Accounted s.events s.calls.length ⟨nowTick, (s.wheel.tick nowTick).1, registered s⟩ he.1 he.2 := by
  obtain ⟨t, ht, rfl⟩ := List.mem_map.mp hreg
  obtain ⟨ht, hactive⟩ := List.mem_filter.mp ht
  have hnone : s.events.count (.invoked s.calls.length t.handle nowTick) = 0 :=
    List.count_eq_zero_of_not_mem fun hevent => Nat.lt_irrefl _ (h.numbers _ _ _ hevent)
  show s.events.count _ + ((s.wheel.tick nowTick).1.map Fire.handle).count t.handle
    = if nowTick.toNat < deadline s t % 2 ^ 32 then 0 else 1
  rw [hnone, count_fire h.handles nowTick ht hactive, ← h.toNat_next hidle ht, Nat.zero_add]
  simp only [UInt32.lt_iff_toNat_lt]

theorem deadline_lt (s : State φ) (t : Task φ) : deadline s t < 2 ^ 33 := by
  have hsince := (s.since t.handle).toNat_lt
  have hperiod := t.period.toNat_lt
  unfold deadline
  omega

theorem PeriodInv.tick (h : PeriodInv s) (nowTick : UInt32)
    (hidle : ∀ c ∈ s.calls, c.waits = []) : PeriodInv (tick s nowTick) where
  handles := h.handles.of_sublist rfl (handles_tick_sublist s.wheel nowTick)
  last := by
    intro k c hk hne
    rcases getElem?_calls_tick hk with hk | ⟨rfl, -⟩
    · exact absurd (hidle c (List.mem_of_getElem? hk)) hne
    · simp [Timer.tick]
  known := by
    intro c hc handle hwaits
    rcases mem_calls_tick hc with hc | rfl
    · exact h.known c hc handle hwaits
    · obtain ⟨f, hf, rfl⟩ := List.mem_map.mp hwaits
      obtain ⟨t, ht, -, rfl⟩ := mem_fire.mp hf
      exact h.handles.fresh t ht
  taken := fun _ ht _ hc hwaits => h.taken_tick hidle ht hc hwaits
  next := fun _ ht hfree => h.next_tick hidle ht hfree
  numbers := by
    intro k handle n hevent
    have hlt := h.numbers k handle n hevent
    simp only [Timer.tick, List.length_append, List.length_singleton]
    omega
  bound := by
    intro c hc he hreg
    rcases mem_calls_tick hc with hc | rfl
    · exact h.bound c hc he hreg
    · obtain ⟨t, -, rfl⟩ := List.mem_map.mp hreg
      exact deadline_lt s t
  accounted := by
    intro k c hk he hreg
    rcases getElem?_calls_tick hk with hk | ⟨rfl, rfl⟩
    · exact h.accounted k c hk he hreg
    · exact h.accounted_tick hidle hreg

/-! ## A callback is called -/

section Invoke

variable {call : Nat} {nowTick : UInt32} {f : Fire φ} {fire : List (Fire φ)}
  {registered : List (Int × Nat)}

theorem getElem?_calls_invoke {calls : List (TickCall φ)} (hlt : call < calls.length) {k : Nat}
    {c c' : TickCall φ} (hk : (calls.set call c')[k]? = some c) :
    k = call ∧ c = c' ∨ k ≠ call ∧ calls[k]? = some c := by
  by_cases hkc : call = k
  · subst hkc
    rw [List.getElem?_set_self hlt] at hk
    exact Or.inl ⟨rfl, (Option.some.inj hk).symm⟩
  · rw [List.getElem?_set_ne hkc] at hk
    exact Or.inr ⟨Ne.symm hkc, hk⟩

/-- What a call has still to do is part of what it had to do. -/
theorem exists_mem_calls (hcall : s.calls[call]? = some ⟨nowTick, f :: fire, registered⟩)
    {c : TickCall φ} (hmem : c ∈ s.calls.set call ⟨nowTick, fire, registered⟩) :
    ∃ c' ∈ s.calls, c'.nowTick = c.nowTick ∧ c'.registered = c.registered ∧
      ∀ handle ∈ c.waits, handle ∈ c'.waits := by
  rcases List.mem_or_eq_of_mem_set hmem with hmem | rfl
  · exact ⟨c, hmem, rfl, rfl, fun _ hw => hw⟩
  · exact ⟨_, List.mem_of_getElem? hcall, rfl, rfl, fun _ hw => List.mem_cons_of_mem _ hw⟩

/-- A task that nobody has to call any more. -/
theorem PeriodInv.next_invoke (h : PeriodInv s)
    (hcall : s.calls[call]? = some ⟨nowTick, f :: fire, registered⟩) {t : Task φ}
    (ht : t ∈ s.wheel.tasks)
    (hfree : ∀ c ∈ s.calls.set call ⟨nowTick, fire, registered⟩, t.handle ∉ c.waits) :
    t.next = (if t.handle = f.handle then nowTick else s.since t.handle) + t.period := by
  have hlt : call < s.calls.length := (List.getElem?_eq_some_iff.mp hcall).1
  by_cases heq : t.handle = f.handle
  · rw [if_pos heq]
    exact h.taken t ht _ (List.mem_of_getElem? hcall) (heq ▸ List.mem_cons_self)
  · rw [if_neg heq]
    refine h.next t ht ?_
    intro c hmem hwaits
    obtain ⟨k, hk⟩ := List.getElem?_of_mem hmem
    by_cases hkc : k = call
    · subst hkc
      obtain rfl := Option.some.inj (hcall.symm.trans hk)
      have hrest : t.handle ∈ fire.map Fire.handle := by
        rcases List.mem_cons.mp hwaits with heq' | hrest
        · exact absurd heq' heq
        · exact hrest
      exact hfree _ (List.mem_of_getElem? (List.getElem?_set_self hlt)) hrest
    · refine hfree c (List.mem_of_getElem? (i := k) ?_) hwaits
      rw [List.getElem?_set_ne (Ne.symm hkc)]
      exact hk

/-- One callback less to call, one event more. -/
theorem Accounted.invoke {events : List Event} {handle : Int} {deadline : Nat}
    (h : Accounted events call ⟨nowTick, f :: fire, registered⟩ handle deadline) :
    Accounted (events ++ [.invoked call f.handle nowTick]) call ⟨nowTick, fire, registered⟩ handle
      deadline := by
  rw [Accounted, TickCall.waits, List.map_cons, List.count_cons] at h
  rw [Accounted, List.count_append, List.count_singleton, ← h, TickCall.waits]
  by_cases heq : f.handle = handle
  · simp [heq]
    omega
  · simp [heq]

theorem PeriodInv.invoke (h : PeriodInv s)
    (hcall : s.calls[call]? = some ⟨nowTick, f :: fire, registered⟩) :
    PeriodInv { s with
      calls := s.calls.set call ⟨nowTick, fire, registered⟩
      since := fun h => if h = f.handle then nowTick else s.since h
      events := s.events ++ [.invoked call f.handle nowTick] } := by
  have hlt : call < s.calls.length := (List.getElem?_eq_some_iff.mp hcall).1
  refine ⟨h.handles, ?_, ?_, ?_, fun t ht hfree => h.next_invoke hcall ht hfree, ?_, ?_, ?_⟩
  · intro k c hk hne
    rw [List.length_set]
    rcases getElem?_calls_invoke hlt hk with ⟨rfl, -⟩ | ⟨-, hk⟩
    · exact h.last k _ hcall (List.cons_ne_nil _ _)
    · exact h.last k c hk hne
  · intro c hmem handle hwaits
    obtain ⟨c', hc', -, -, hwaits'⟩ := exists_mem_calls hcall hmem
    exact h.known c' hc' handle (hwaits' handle hwaits)
  · intro t ht c hmem hwaits
    obtain ⟨c', hc', htick, -, hwaits'⟩ := exists_mem_calls hcall hmem
    rw [← htick]
    exact h.taken t ht c' hc' (hwaits' _ hwaits)
  · intro k handle n hevent
    rw [List.length_set]
    rcases List.mem_append.mp hevent with hevent | hevent
    · exact h.numbers k handle n hevent
    · cases List.mem_singleton.mp hevent
      exact hlt
  · intro c hmem he hreg
    obtain ⟨c', hc', -, hreg', -⟩ := exists_mem_calls hcall hmem
    exact h.bound c' hc' he (hreg' ▸ hreg)
  · intro k c hk he hreg
    rcases getElem?_calls_invoke hlt hk with ⟨rfl, rfl⟩ | ⟨hne, hk⟩
    · exact (h.accounted k _ hcall he hreg).invoke
    · refine (h.accounted k c hk he hreg).concat ?_
      intro heq
      injection heq with hcalled
      exact hne hcalled.symm

end Invoke

theorem step_periodInv {t : State φ} {a : Act φ} (h : PeriodInv s) (hstep : step s a = some t)
    (halone : OneByOne s a) : PeriodInv t := by
  have hhandles := handlesInv_step h.handles hstep
  cases effect_of_step h.handles.pos hstep with
  | refuse => exact h
  | register period fn nowTick => exact h.register period fn nowTick hhandles
  | cancel handle => exact h.cancel handle
  | tick nowTick => exact h.tick nowTick halone
  | invoke call nowTick f fire registered hcall => exact h.invoke hcall

/-! ## Exactness -/

/-- One task at one call of `Tick`. -/
theorem onPeriod_iff (h : PeriodInv s) {k : Nat} {c : TickCall φ} (hk : s.calls[k]? = some c)
    {he : Int × Nat} (hreg : he ∈ c.registered) :
    OnPeriod s k c he.1 he.2 ↔
      (he.1 ∉ c.waits → he.2 < 2 ^ 32 ∨ c.nowTick.toNat + 2 ^ 32 < he.2) := by
  have haccounted := h.accounted k c hk he hreg
  have hbound := h.bound c (List.mem_of_getElem? hk) he hreg
  have hnow := c.nowTick.toNat_lt
  rw [Accounted] at haccounted
  constructor
  · intro hlaw hwaits
    rw [List.count_eq_zero_of_not_mem hwaits, Nat.add_zero] at haccounted
    split at haccounted
    · omega
    · have hearly := hlaw.early (by rw [fires, haccounted]; decide)
      omega
  · intro hrange
    by_cases hwaits : he.1 ∈ c.waits
    · -- it is called once, and has not been called yet
      have hone := List.count_pos_iff.mpr hwaits
      have hzero : fires s k c he.1 = 0 := by
        rw [fires]
        split at haccounted <;> omega
      refine ⟨fun hne => absurd hzero hne, ?_⟩
      intro hdone _
      rw [TickCall.waits, hdone] at hwaits
      cases hwaits
    · rw [List.count_eq_zero_of_not_mem hwaits, Nat.add_zero] at haccounted
      have hrange := hrange hwaits
      split at haccounted
      · exact ⟨fun hne => absurd haccounted hne, fun _ hle => by omega⟩
      · exact ⟨fun _ => by omega, fun _ _ => haccounted⟩

theorem firingLaw_iff_inRange (h : PeriodInv s) : FiringLaw s ↔ InRange s := by
  constructor
  · intro hlaw c hc he hreg
    obtain ⟨k, hk⟩ := List.getElem?_of_mem hc
    exact (onPeriod_iff h hk hreg).mp (hlaw k c hk he hreg)
  · intro hrange k c hk he hreg
    exact (onPeriod_iff h hk hreg).mpr (hrange c (List.mem_of_getElem? hk) he hreg)

/--
**Periods.** In a run of a wheel whose calls of `Tick` are made one after the other, every one calls
the callback of each registered task exactly once when a period has passed since its last call or its
registration, and not before, if and only if every one of these calls is in range.
-/
theorem firingLaw_iff (as : List (Act φ)) (hseq : AllSteps step OneByOne {} as) :
    AllStates step FiringLaw {} as ↔ AllStates step InRange {} as := by
  have hinv : AllStates step PeriodInv {} as := allStates_of_allSteps PeriodInv (fun _ h => h)
    (fun _ _ _ h hstep halone => step_periodInv h hstep halone) as {} periodInv_init hseq
  exact hinv.congr fun _ h => firingLaw_iff_inRange h

/--
Two tasks and a third one added by a callback; the first is cancelled between its calls, and the last
`Tick` is made near 2^32.
-/
def threeTasks : List (Act Unit) :=
  [.add 10 (some ()) 0, .add 4 (some ()) 3, .tick 5, .tick 7, .invoke 1, .add 1 (some ()) 7, .tick 12,
    .invoke 2, .invoke 2, .cancel 1, .invoke 2, .tick 4294967295, .invoke 3, .invoke 3]

theorem firingLaw_threeTasks : AllStates step FiringLaw {} threeTasks ∧
    (exec step {} threeTasks).map State.events = some [.registered 1, .registered 2,
      .invoked 1 2 7, .registered 3, .invoked 2 1 12, .invoked 2 2 12, .cancelled 1, .invoked 2 3 12,
      .invoked 3 2 4294967295, .invoked 3 3 4294967295] :=
  ⟨(firingLaw_iff threeTasks (by decide)).mpr (by decide), by decide⟩

/--
A period of 10 from tick 0 on. The call at 2^32 - 6 sets `next` to 4, and the callback is called again
one tick later.
-/
theorem not_firingLaw_wrapped : ¬ AllStates step FiringLaw {}
    [.add 10 (some ()) 0, .tick 4294967290, .invoke 0, .tick 4294967291, .invoke 1] := by
  intro hall
  have hlaw := hall.last rfl 1 _ rfl _ List.mem_cons_self
  have hearly := hlaw.early (by decide)
  revert hearly
  decide

end Dts.Timer
