import Dts.Timer.Wheel

/-!
# Cancelled timers

`TimerWheel::Cancel` marks the task, and `Tick` passes over marked tasks. But a callback that `Tick`
has already copied is called in any case, so a task cancelled by the callback of another one in the
same `Tick` may be called once more.

`settles_iff` is exact: a run keeps cancelled tasks from being called, however the calls of `Tick`
under way go on, if and only if no task is cancelled while its callback waits in one of them.
-/

namespace Dts.Timer

open Infra

variable {φ : Type*}

/-! ## The law -/

/-- A task has been registered under the handle and then cancelled. -/
def Cancelled (es : List Event) (handle : Int) : Prop :=
  ∃ pre, Event.registered handle ∈ pre ∧ pre ++ [.cancelled handle] <+: es

/-- No task is called after it has been cancelled. -/
def NeverAgain (es : List Event) : Prop :=
  ∀ pre call handle nowTick, pre ++ [.invoked call handle nowTick] <+: es → ¬ Cancelled pre handle

def Act.isInvoke : Act φ → Bool
  | .invoke _ => true
  | _ => false

/-- **The law.** No cancelled task is called, now or by the calls of `Tick` under way. -/
def Settles (s : State φ) : Prop :=
  ∀ bs : List (Act φ), (∀ b ∈ bs, b.isInvoke = true) →
    AllStates step (fun t => NeverAgain t.events) s bs

/-- The condition on a call of `Cancel`: no call of `Tick` has still to call the task. -/
def NotWaiting (s : State φ) : Act φ → Prop
  | .cancel handle => ∀ c ∈ s.calls, ∀ f ∈ c.fire, f.handle ≠ handle
  | _ => True

/-! ## Histories -/

theorem Cancelled.mono {es es' : List Event} {handle : Int} (h : Cancelled es handle)
    (hpre : es <+: es') : Cancelled es' handle := by
  obtain ⟨pre, hreg, hcancel⟩ := h
  exact ⟨pre, hreg, hcancel.trans hpre⟩

theorem Cancelled.registered {es : List Event} {handle : Int} (h : Cancelled es handle) :
    Event.registered handle ∈ es := by
  obtain ⟨pre, hreg, hcancel⟩ := h
  exact hcancel.subset (List.mem_append_left _ hreg)

theorem cancelled_concat {es : List Event} {e : Event} {handle : Int} :
    Cancelled (es ++ [e]) handle ↔
      Cancelled es handle ∨ (e = .cancelled handle ∧ Event.registered handle ∈ es) := by
  constructor
  · rintro ⟨pre, hreg, hcancel⟩
    rcases List.prefix_concat_iff.mp hcancel with heq | hcancel
    · obtain ⟨rfl, he⟩ := List.append_inj' heq rfl
      exact Or.inr ⟨(List.singleton_inj.mp he).symm, hreg⟩
    · exact Or.inl ⟨pre, hreg, hcancel⟩
  · rintro (h | ⟨rfl, hreg⟩)
    · exact h.mono (List.prefix_append es [e])
    · exact ⟨es, hreg, List.prefix_refl _⟩

/-- Only the call of a cancelled task breaks the law. -/
theorem neverAgain_concat {es : List Event} {e : Event} (h : NeverAgain es)
    (he : ∀ call handle nowTick, e = .invoked call handle nowTick → ¬ Cancelled es handle) :
    NeverAgain (es ++ [e]) := by
  intro pre call handle nowTick hpre
  rcases List.prefix_concat_iff.mp hpre with heq | hpre
  · obtain ⟨rfl, hlast⟩ := List.append_inj' heq rfl
    exact he call handle nowTick (List.singleton_inj.mp hlast).symm
  · exact h pre call handle nowTick hpre

/-! ## The invariant -/

/-- A cancelled task is marked, and no call of `Tick` has still to call it. -/
structure CancelInv (s : State φ) : Prop where
  handles : HandlesInv s.wheel
  law : NeverAgain s.events
  known : ∀ h, Event.registered h ∈ s.events → h < s.wheel.nextHandle
  tasks : ∀ t ∈ s.wheel.tasks, Event.registered t.handle ∈ s.events
  waiting : ∀ c ∈ s.calls, ∀ f ∈ c.fire, Event.registered f.handle ∈ s.events
  off : ∀ h, Cancelled s.events h → ∀ t ∈ s.wheel.tasks, t.handle = h → t.active = false
  gone : ∀ h, Cancelled s.events h → ∀ c ∈ s.calls, ∀ f ∈ c.fire, f.handle ≠ h

theorem cancelInv_init : CancelInv ({} : State φ) where
  handles := handlesInv_init
  law := by
    intro pre call handle nowTick hpre
    exact absurd (List.prefix_nil.mp hpre) (by simp)
  known := by simp
  tasks := by simp
  waiting := by simp
  off := by simp
  gone := by simp

variable {s : State φ}

theorem CancelInv.register (h : CancelInv s) (period : UInt32) (fn : φ) (nowTick : UInt32)
    (since : Int → UInt32) (hhandles : HandlesInv ⟨s.wheel.tasks
      ++ [⟨s.wheel.nextHandle, period, nowTick + period, fn, true⟩], s.wheel.nextHandle + 1⟩) :
    CancelInv { s with
      wheel := ⟨s.wheel.tasks ++ [⟨s.wheel.nextHandle, period, nowTick + period, fn, true⟩],
        s.wheel.nextHandle + 1⟩
      since := since
      events := s.events ++ [.registered s.wheel.nextHandle] } := by
  have hsame : ∀ handle, Cancelled (s.events ++ [.registered s.wheel.nextHandle]) handle →
      Cancelled s.events handle := by
    intro handle hc
    rcases cancelled_concat.mp hc with hc | ⟨he, -⟩
    · exact hc
    · cases he
  refine ⟨hhandles, ?_, ?_, ?_, ?_, ?_, ?_⟩
  · exact neverAgain_concat h.law (by simp)
  · intro handle hreg
    show handle < s.wheel.nextHandle + 1
    rcases List.mem_append.mp hreg with hreg | hreg
    · have := h.known handle hreg
      omega
    · cases List.mem_singleton.mp hreg
      exact Int.lt_succ _
  · intro t ht
    rcases List.mem_append.mp ht with ht | ht
    · exact List.mem_append_left _ (h.tasks t ht)
    · rw [List.mem_singleton.mp ht]
      exact List.mem_append_right _ List.mem_cons_self
  · exact fun c hc f hf => List.mem_append_left _ (h.waiting c hc f hf)
  · intro handle hc t ht heq
    rcases List.mem_append.mp ht with ht | ht
    · exact h.off handle (hsame handle hc) t ht heq
    · -- the handle of the new task has not been handed out before
      have hlt := h.known handle (hsame handle hc).registered
      rw [List.mem_singleton.mp ht] at heq
      simp only at heq
      omega
  · exact fun handle hc => h.gone handle (hsame handle hc)

theorem CancelInv.cancel (h : CancelInv s) {handle : Int} (hfree : NotWaiting s (.cancel handle)) :
    CancelInv (cancel s handle) := by
  have hhandles : HandlesInv (Timer.cancel s handle).wheel :=
    h.handles.of_sublist rfl (by rw [Timer.cancel, handles_cancel])
  refine ⟨hhandles, ?_, ?_, ?_, ?_, ?_, ?_⟩
  · exact neverAgain_concat h.law (by simp)
  · intro handle' hreg
    rcases List.mem_append.mp hreg with hreg | hreg
    · exact h.known handle' hreg
    · simp at hreg
  · intro t' ht'
    obtain ⟨t, ht, rfl⟩ := mem_tasks_cancel.mp ht'
    refine List.mem_append_left _ ?_
    split <;> exact h.tasks t ht
  · exact fun c hc f hf => List.mem_append_left _ (h.waiting c hc f hf)
  · intro handle' hc t' ht' heq
    obtain ⟨t, ht, rfl⟩ := mem_tasks_cancel.mp ht'
    by_cases hmark : t.handle = handle
    · rw [if_pos hmark]
    · rw [if_neg hmark] at heq ⊢
      rcases cancelled_concat.mp hc with hc | ⟨he, -⟩
      · exact h.off handle' hc t ht heq
      · cases he
        exact absurd heq hmark
  · intro handle' hc
    rcases cancelled_concat.mp hc with hc | ⟨he, -⟩
    · exact h.gone handle' hc
    · cases he
      exact hfree

theorem CancelInv.tick (h : CancelInv s) (nowTick : UInt32) : CancelInv (tick s nowTick) := by
  refine ⟨h.handles.of_sublist rfl (handles_tick_sublist s.wheel nowTick), h.law, h.known, ?_, ?_,
    ?_, ?_⟩
  · intro t' ht'
    obtain ⟨t, ht, -, rfl⟩ := mem_tasks_tick.mp ht'
    split <;> exact h.tasks t ht
  · intro c hc f hf
    rcases List.mem_append.mp hc with hc | hc
    · exact h.waiting c hc f hf
    · rw [List.mem_singleton.mp hc] at hf
      obtain ⟨t, ht, -, rfl⟩ := mem_fire.mp hf
      exact h.tasks t ht
  · intro handle hc t' ht' heq
    obtain ⟨t, ht, -, rfl⟩ := mem_tasks_tick.mp ht'
    revert heq
    split <;> exact h.off handle hc t ht
  · intro handle hc c hcall f hf heq
    rcases List.mem_append.mp hcall with hcall | hcall
    · exact h.gone handle hc c hcall f hf heq
    · rw [List.mem_singleton.mp hcall] at hf
      obtain ⟨t, ht, hdue, rfl⟩ := mem_fire.mp hf
      -- a marked task is not due
      rw [TimerWheel.due, h.off handle hc t ht heq] at hdue
      cases hdue

theorem CancelInv.invoke (h : CancelInv s) {call : Nat} {nowTick : UInt32} {f : Fire φ}
    {fire : List (Fire φ)} {registered : List (Int × Nat)} (since : Int → UInt32)
    (hcall : s.calls[call]? = some ⟨nowTick, f :: fire, registered⟩) :
    CancelInv { s with
      calls := s.calls.set call ⟨nowTick, fire, registered⟩
      since := since
      events := s.events ++ [.invoked call f.handle nowTick] } := by
  have hmem : (⟨nowTick, f :: fire, registered⟩ : TickCall φ) ∈ s.calls :=
    List.mem_of_getElem? hcall
  have hsame : ∀ handle, Cancelled (s.events ++ [.invoked call f.handle nowTick]) handle →
      Cancelled s.events handle := by
    intro handle hc
    rcases cancelled_concat.mp hc with hc | ⟨he, -⟩
    · exact hc
    · cases he
  -- what a call has still to do is part of what it had to do
  have hsub : ∀ c ∈ s.calls.set call ⟨nowTick, fire, registered⟩, ∀ g ∈ c.fire,
      ∃ c' ∈ s.calls, g ∈ c'.fire := by
    intro c hc g hg
    rcases List.mem_or_eq_of_mem_set hc with hc | rfl
    · exact ⟨c, hc, hg⟩
    · exact ⟨_, hmem, List.mem_cons_of_mem f hg⟩
  refine ⟨h.handles, ?_, ?_, ?_, ?_, ?_, ?_⟩
  · refine neverAgain_concat h.law ?_
    rintro k handle n he hc
    cases he
    exact h.gone f.handle hc _ hmem f List.mem_cons_self rfl
  · intro handle hreg
    rcases List.mem_append.mp hreg with hreg | hreg
    · exact h.known handle hreg
    · simp at hreg
  · exact fun t ht => List.mem_append_left _ (h.tasks t ht)
  · intro c hc g hg
    obtain ⟨c', hc', hg'⟩ := hsub c hc g hg
    exact List.mem_append_left _ (h.waiting c' hc' g hg')
  · exact fun handle hc => h.off handle (hsame handle hc)
  · intro handle hc c hcall g hg
    obtain ⟨c', hc', hg'⟩ := hsub c hcall g hg
    exact h.gone handle (hsame handle hc) c' hc' g hg'

theorem step_cancelInv {t : State φ} {a : Act φ} (h : CancelInv s) (hstep : step s a = some t)
    (hfree : NotWaiting s a) : CancelInv t := by
  have hhandles := handlesInv_step h.handles hstep
  cases effect_of_step h.handles.pos hstep with
  | refuse => exact h
  | register period fn nowTick => exact h.register period fn nowTick _ hhandles
  | cancel handle => exact h.cancel hfree
  | tick nowTick => exact h.tick nowTick
  | invoke call nowTick f fire registered hcall => exact h.invoke _ hcall

/-! ## Exactness -/

/-- Calling a callback never cancels anything. -/
theorem allSteps_of_invokes : ∀ (bs : List (Act φ)) (s : State φ), (∀ b ∈ bs, b.isInvoke = true) →
    AllSteps step NotWaiting s bs
  | [], _, _ => trivial
  | b :: bs, s, h => fun t _ => by
    refine ⟨?_, allSteps_of_invokes bs t fun c hc => h c (List.mem_cons_of_mem b hc)⟩
    have hb := h b List.mem_cons_self
    cases b with
    | invoke => exact trivial
    | add => cases hb
    | cancel => cases hb
    | tick => cases hb

theorem CancelInv.settles (h : CancelInv s) : Settles s := fun bs hbs =>
  allStates_of_allSteps CancelInv (fun _ ht => ht.law) (fun _ _ _ ht hstep => step_cancelInv ht hstep)
    bs s h (allSteps_of_invokes bs s hbs)

/-- A callback that waits in a call of `Tick` is called when the call goes on. -/
theorem exists_invoked {call : Nat} {nowTick : UInt32} {f : Fire φ} {post : List (Fire φ)}
    {registered : List (Int × Nat)} : ∀ (pre : List (Fire φ)) (s : State φ),
    s.calls[call]? = some ⟨nowTick, pre ++ f :: post, registered⟩ →
      ∃ es t, exec step s (List.replicate (pre.length + 1) (.invoke call)) = some t ∧
        t.events = s.events ++ es ++ [.invoked call f.handle nowTick]
  | [], s, h => by
    rw [List.nil_append] at h
    refine ⟨[], { s with
      calls := s.calls.set call ⟨nowTick, post, registered⟩
      since := fun h => if h = f.handle then nowTick else s.since h
      events := s.events ++ [.invoked call f.handle nowTick] }, ?_, ?_⟩
    · rw [List.length_nil, List.replicate_one, exec_cons, step, invoke, h]
      rfl
    · rw [List.append_nil]
  | g :: pre, s, h => by
    have hlt : call < s.calls.length := (List.getElem?_eq_some_iff.mp h).1
    rw [List.cons_append] at h
    obtain ⟨es, t, ht, hes⟩ := exists_invoked pre
      { s with
        calls := s.calls.set call ⟨nowTick, pre ++ f :: post, registered⟩
        since := fun h => if h = g.handle then nowTick else s.since h
        events := s.events ++ [.invoked call g.handle nowTick] }
      (List.getElem?_set_self hlt)
    refine ⟨.invoked call g.handle nowTick :: es, t, ?_, ?_⟩
    · rw [List.length_cons, List.replicate_succ, exec_cons, step, invoke, h]
      exact ht
    · rw [hes]
      simp

/-- A task cancelled while it waits is called after that. -/
theorem not_settles_cancel (h : CancelInv s) {handle : Int} (hbad : ¬ NotWaiting s (.cancel handle)) :
    ¬ Settles (cancel s handle) := by
  intro hsettles
  simp only [NotWaiting, not_forall, not_not] at hbad
  obtain ⟨c, hc, f, hf, rfl⟩ := hbad
  obtain ⟨call, hcall⟩ := List.getElem?_of_mem hc
  obtain ⟨pre, post, hfire⟩ := List.append_of_mem hf
  have hwaits : (cancel s f.handle).calls[call]?
      = some ⟨c.nowTick, pre ++ f :: post, c.registered⟩ := by
    rw [← hfire]
    exact hcall
  obtain ⟨es, t, ht, hes⟩ := exists_invoked pre _ hwaits
  have hlaw := (hsettles _ (by simp [Act.isInvoke])).last ht
  have hcancelled : Cancelled (cancel s f.handle).events f.handle :=
    cancelled_concat.mpr (Or.inr ⟨rfl, h.waiting c hc f hf⟩)
  rw [hes] at hlaw
  exact hlaw _ call f.handle c.nowTick (List.prefix_refl _) (hcancelled.mono (List.prefix_append _ es))

/--
**Cancelled tasks.** In every state of a run no cancelled task has been called, and none will be by
the calls of `Tick` under way, if and only if `Cancel` is never called for a task that waits in one
of them.
-/
theorem settles_iff (as : List (Act φ)) :
    AllStates step Settles {} as ↔ AllSteps step NotWaiting {} as := by
  refine allStates_iff_allSteps CancelInv (fun _ h => h.settles)
    (fun _ _ _ h hstep hfree => step_cancelInv h hstep hfree) ?_ as {} cancelInv_init
  intro s a t h hstep hsettles
  cases a with
  | cancel handle =>
    cases hstep
    exact not_imp_not.mp (not_settles_cancel h) hsettles
  | add => exact trivial
  | tick => exact trivial
  | invoke => exact trivial

/--
Two tasks are due at tick 5. The callback of the first cancels the second, and the second is called
after that.
-/
theorem not_neverAgain_same_tick : ¬ AllStates step (fun s => NeverAgain s.events) {}
    [.add 5 (some 0) 0, .add 5 (some 1) 0, .tick 5, .invoke 0, .cancel 2, .invoke 0] := by
  intro hall
  have hlaw := hall.last rfl
  exact hlaw [.registered 1, .registered 2, .invoked 0 1 5, .cancelled 2] 0 2 5
    (List.prefix_refl _)
    ⟨[.registered 1, .registered 2, .invoked 0 1 5], by decide, List.prefix_refl _⟩

end Dts.Timer
