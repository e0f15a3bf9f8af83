import Mathlib.Logic.Function.Basic
import Dts.Infra.Run
import Dts.Detsched.SchedDefs

/-!
# The thread factory

`CreateThread` makes a handle, starts a thread on it and enters it in the registry; `DestroyThread`
takes it out, asks for a stop, joins the thread unless it is detached, and frees the handle. The
threads themselves, the callers and the queries may be interleaved between any two of these steps.

* `factoryLaw_of_run` — the registry lists the handles that are out, all of them alive, and every
  handle has a place in its domain, or fell back to `SCHED_OTHER`
* `handlesLive_iff` — no thread looks at a freed handle exactly when a detached one is only destroyed
  behind its last look
-/

namespace Dts.Detsched

open Infra

/-! ## The parameters -/

def schedOther : ℤ := 0

def kEPERM : ℤ := 1

/-- `ThreadParams` in full; functions and their arguments by number, `none` for `nullptr`. -/
structure Params extends ThreadParams where
  fn : Option ℕ
  arg : Option ℕ
  stackSize : ℕ
  explicitSched : Bool
  cpuAffinity : ℤ
  detached : Bool
  guardSize : ℕ

/-- What `pthread_create` is given. -/
structure Attr where
  stack : Option ℕ
  /-- policy, priority, and whether they are taken from here -/
  sched : Option (ℤ × ℤ × Bool)
  detached : Bool
  guard : Option ℕ
  deriving DecidableEq

/-- `ThreadHandleImpl`. -/
structure Impl where
  name : String
  segIndex : ℤ
  prio : ℤ
  schedPolicy : ℤ
  cpuAffinity : ℤ
  detached : Bool
  fn : Option ℕ
  fnArg : Option ℕ
  stop : Bool
  running : Bool

/-- `ThreadInfo`, without the id that the system gives. -/
structure ThreadInfo where
  name : String
  segIndex : ℤ
  prio : ℤ
  schedPolicy : ℤ
  cpuAffinity : ℤ
  running : Bool
  deriving DecidableEq

def Impl.info (h : Impl) : ThreadInfo where
  name := h.name
  segIndex := h.segIndex
  prio := h.prio
  schedPolicy := h.schedPolicy
  cpuAffinity := h.cpuAffinity
  running := h.running

/-- A call of `CreateThread`, and what the system answers to it. -/
structure Call where
  name : String
  prioLevel : ℤ
  fn : Option ℕ
  fnArg : Option ℕ
  stackBytes : ℕ
  cpuAffinity : ℤ
  params : Option Params
  /-- the results of `pthread_create`, and of a second one -/
  rc : ℤ
  rcFallback : ℤ
  /-- `DTS_STRICT_SCHED` is in the environment -/
  strict : Bool

/-- The handle before its thread is made. -/
def Call.impl (c : Call) (th : ThreadHandle) : Impl where
  name := c.name
  segIndex := th.segIndex
  prio := th.prio
  schedPolicy := th.schedPolicy
  cpuAffinity := (c.params.map (·.cpuAffinity)).getD c.cpuAffinity
  detached := c.params.any (·.detached)
  fn := match c.params with
    | some p => p.fn
    | none => c.fn
  fnArg := match c.params with
    | some p => p.arg
    | none => c.fnArg
  stop := false
  running := false

/-- The attributes but for the scheduling, which are set in the same way twice. -/
def Call.plainAttr (c : Call) (h : Impl) : Attr :=
  let stack := (c.params.map (·.stackSize)).getD c.stackBytes
  { stack := if 0 < stack then some stack else none
    sched := none
    detached := h.detached
    guard := match c.params with
      | some p => if 0 < p.guardSize then some p.guardSize else none
      | none => none }

def Call.attr (c : Call) (h : Impl) : Attr :=
  if h.schedPolicy = schedOther then c.plainAttr h
  else { c.plainAttr h with
    sched := some (h.schedPolicy, h.prio, (c.params.map (·.explicitSched)).getD true) }

/-- The handle that `CreateThread` returns, with the attributes its thread is made with. -/
def createHandle (segments : List SchedSegment) (declared : ℤ → Bool) (c : Call) :
    Option (Impl × Attr) := do
  let th ← createThread segments declared c.prioLevel (c.params.map (·.toThreadParams))
  let h := c.impl th
  if c.rc = kEPERM ∧ h.schedPolicy ≠ schedOther then
    -- no right to real time
    if c.strict then none
    else
      let h := { h with schedPolicy := schedOther, prio := 0 }
      if c.rcFallback = 0 then return (h, c.plainAttr h) else none
  else if c.rc = 0 then return (h, c.attr h)
  else none

/-! ## The system -/

/-- Where a thread is in `Entry`. -/
inductive EntryPc where
  /-- before it tests `m_fn` -/
  | start
  /-- before it loads `m_fn` for the call -/
  | loadFn
  /-- before it loads `m_fnArg` -/
  | loadArg (fn : Option ℕ)
  /-- in the business function -/
  | inFn (fn arg : Option ℕ)
  /-- in the loop of a thread without a function -/
  | loop
  | done
  deriving DecidableEq

/-- The thread looks at its handle again. -/
def EntryPc.looks : EntryPc → Bool
  | .inFn _ _ => false
  | .done => false
  | _ => true

/-- Where a handle is on its way from `CreateThread` to the end of `DestroyThread`. -/
inductive Phase where
  | creating
  /-- the caller has it -/
  | out
  /-- `DestroyThread` has taken it out of the registry -/
  | erased
  /-- and asked for the stop -/
  | stopping
  /-- and joined the thread, if it is to be joined -/
  | joined
  | freed
  deriving DecidableEq

/-- `next` is the handle that is made next. -/
structure Factory where
  declared : ℤ → Bool
  heap : ℕ → Option Impl
  phase : ℕ → Phase
  thread : ℕ → EntryPc
  registry : List ℕ
  next : ℕ

def Factory.init : Factory where
  declared := fun _ => false
  heap := fun _ => none
  phase := fun _ => .freed
  thread := fun _ => .done
  registry := []
  next := 0

inductive FactoryAct where
  | declareDomain (prioLevel : ℤ)
  | create (c : Call)
  | register (h : ℕ)
  /-- the thread of the handle goes on -/
  | entry (h : ℕ)
  | destroy (h : ℕ)
  | stop (h : ℕ)
  | join (h : ℕ)
  | free (h : ℕ)

/-- The next step of `Entry`. A look at a handle that is freed has no meaning. -/
def entry (s : Factory) (h : ℕ) : Option Factory :=
  match s.thread h with
  | .start => (s.heap h).map fun impl =>
      { s with thread := Function.update s.thread h (if impl.fn.isSome then .loadFn else .loop) }
  | .loadFn => (s.heap h).map fun impl =>
      { s with thread := Function.update s.thread h (.loadArg impl.fn) }
  | .loadArg fn => (s.heap h).map fun impl =>
      { s with thread := Function.update s.thread h (.inFn fn impl.fnArg) }
  | .inFn _ _ => some { s with thread := Function.update s.thread h .done }
  | .loop => (s.heap h).map fun impl =>
      { s with thread := Function.update s.thread h (if impl.stop then .done else .loop) }
  | .done => none

def factoryStep (segments : List SchedSegment) (s : Factory) : FactoryAct → Option Factory
  | .declareDomain prioLevel =>
    some { s with declared := (declareDomain segments s.declared prioLevel).2 }
  | .create c =>
    match createHandle segments s.declared c with
    | none => some s
    | some (impl, _) => some { s with
        heap := Function.update s.heap s.next (some impl)
        phase := Function.update s.phase s.next .creating
        thread := Function.update s.thread s.next .start
        next := s.next + 1 }
  | .register h =>
    match s.phase h, s.heap h with
    | .creating, some impl => some { s with
        heap := Function.update s.heap h (some { impl with running := true })
        phase := Function.update s.phase h .out
        registry := s.registry ++ [h] }
    | _, _ => none
  | .entry h => entry s h
  | .destroy h =>
    match s.phase h with
    | .out => some { s with
        phase := Function.update s.phase h .erased
        registry := s.registry.erase h }
    | _ => none
  | .stop h =>
    match s.phase h, s.heap h with
    | .erased, some impl => some { s with
        heap := Function.update s.heap h (some { impl with stop := true })
        phase := Function.update s.phase h .stopping }
    | _, _ => none
  | .join h =>
    match s.phase h, s.heap h with
    | .stopping, some impl =>
      if impl.detached || s.thread h = .done then
        some { s with phase := Function.update s.phase h .joined }
      else none
    | _, _ => none
  | .free h =>
    match s.phase h with
    | .joined => some { s with
        heap := Function.update s.heap h none
        phase := Function.update s.phase h .freed }
    | _ => none

/-- `QueryThreads`, under the mutex of the registry. -/
def queryThreads (s : Factory) (cap : ℕ) : List ThreadInfo :=
  (s.registry.take (min cap s.registry.length)).filterMap fun h => (s.heap h).map Impl.info

/-! ## The law -/

/-- The handle has a domain that is declared, and a priority of it or the fallback. -/
def Placed (segments : List SchedSegment) (declared : ℤ → Bool) (h : Impl) : Prop :=
  0 ≤ h.segIndex ∧ declared h.segIndex = true ∧ ∃ seg, segments[h.segIndex.toNat]? = some seg ∧
    (seg.minPrio ≤ h.prio ∧ h.prio ≤ seg.maxPrio ∨ h.schedPolicy = schedOther ∧ h.prio = 0)

/-- **The registry and the handles.** -/
structure FactoryLaw (segments : List SchedSegment) (s : Factory) : Prop where
  distinct : s.registry.Nodup
  /-- listed are the handles that `CreateThread` has returned and nobody has destroyed -/
  listed : ∀ h, h ∈ s.registry ↔ s.phase h = .out
  /-- a handle lives until it is freed -/
  live : ∀ h, (s.heap h).isSome = true ↔ s.phase h ≠ .freed
  placed : ∀ h impl, s.heap h = some impl → Placed segments s.declared impl
  /-- a query gets a row for each of the first `cap` threads, with its own data -/
  query : ∀ cap, List.Forall₂ (fun h row => ∃ impl, s.heap h = some impl ∧ impl.info = row ∧
    impl.running = true) (s.registry.take cap) (queryThreads s cap)
  /-- a thread that is to be joined has its handle -/
  joined : ∀ h impl, s.heap h = some impl → impl.detached = false → s.phase h = .joined →
    s.thread h = .done

/-- No thread still has to look at a handle that is freed. -/
def HandlesLive (s : Factory) : Prop :=
  ∀ h, (s.thread h).looks = true → (s.heap h).isSome = true

/-- The handle of a detached thread is freed when the thread does not look at it again. -/
def FreedBehind (s : Factory) : FactoryAct → Prop
  | .free h => ∀ impl, s.heap h = some impl → impl.detached = true → (s.thread h).looks = false
  | _ => True

/-! ## The handle -/

variable {segments : List SchedSegment} {s t : Factory}

theorem createThread_placed {declared : ℤ → Bool} {prioLevel : ℤ} {params : Option ThreadParams}
    {th : ThreadHandle} (h : createThread segments declared prioLevel params = some th) :
    0 ≤ th.segIndex ∧ declared th.segIndex = true ∧
      ∃ seg, segments[th.segIndex.toNat]? = some seg ∧ seg.minPrio ≤ th.prio ∧
        th.prio ≤ seg.maxPrio := by
  unfold createThread at h
  simp only at h
  split at h
  · cases h
  · rename_i hneg
    split at h
    · cases h
    · rename_i hdeclared
      obtain ⟨seg, hseg, hrest⟩ := Option.bind_eq_some_iff.mp h
      split at hrest
      · cases hrest
      · rename_i hrange
        cases hrest
        rw [not_or, not_lt, not_lt] at hrange
        exact ⟨not_lt.mp hneg, by simpa using hdeclared, seg, hseg, hrange⟩

/-- **What `CreateThread` returns** has a place in its domain, or has fallen back. -/
theorem createHandle_placed {declared : ℤ → Bool} {c : Call} {impl : Impl} {attr : Attr}
    (h : createHandle segments declared c = some (impl, attr)) : Placed segments declared impl := by
  unfold createHandle at h
  obtain ⟨th, hth, hrest⟩ := Option.bind_eq_some_iff.mp h
  obtain ⟨hindex, hdeclared, seg, hseg, hrange⟩ := createThread_placed hth
  simp only at hrest
  split at hrest
  · split at hrest
    · cases hrest
    · split at hrest
      · cases hrest
        exact ⟨hindex, hdeclared, seg, hseg, Or.inr ⟨rfl, rfl⟩⟩
      · cases hrest
  · split at hrest
    · cases hrest
      exact ⟨hindex, hdeclared, seg, hseg, Or.inl hrange⟩
    · cases hrest

/-- A domain that is declared stays declared. -/
theorem declareDomain_of_declared {declared : ℤ → Bool} {i : ℤ} (h : declared i = true)
    (prioLevel : ℤ) : (declareDomain segments declared prioLevel).2 i = true := by
  unfold declareDomain
  simp only
  split
  · exact h
  · simp only
    split
    · rfl
    · exact h

theorem Placed.mono {declared declared' : ℤ → Bool} {h : Impl} (hp : Placed segments declared h)
    (hd : ∀ i, declared i = true → declared' i = true) : Placed segments declared' h :=
  ⟨hp.1, hd _ hp.2.1, hp.2.2⟩

/-! ## What a step does -/

/-- **Inversion.** The effects of a step. -/
inductive FactoryEffect (segments : List SchedSegment) (s : Factory) : FactoryAct → Factory → Prop
  | declareDomain (prioLevel : ℤ) : FactoryEffect segments s (.declareDomain prioLevel)
      { s with declared := (declareDomain segments s.declared prioLevel).2 }
  | refuse (c : Call) : FactoryEffect segments s (.create c) s
  | create (c : Call) (impl : Impl) (attr : Attr)
    (hmade : createHandle segments s.declared c = some (impl, attr)) :
      FactoryEffect segments s (.create c) { s with
        heap := Function.update s.heap s.next (some impl)
        phase := Function.update s.phase s.next .creating
        thread := Function.update s.thread s.next .start
        next := s.next + 1 }
  | register (h : ℕ) (impl : Impl) (hphase : s.phase h = .creating) (hheap : s.heap h = some impl) :
      FactoryEffect segments s (.register h) { s with
        heap := Function.update s.heap h (some { impl with running := true })
        phase := Function.update s.phase h .out
        registry := s.registry ++ [h] }
  | entry (h : ℕ) (t : Factory) (hentry : entry s h = some t) :
      FactoryEffect segments s (.entry h) t
  | destroy (h : ℕ) (hphase : s.phase h = .out) : FactoryEffect segments s (.destroy h) { s with
      phase := Function.update s.phase h .erased
      registry := s.registry.erase h }
  | stop (h : ℕ) (impl : Impl) (hphase : s.phase h = .erased) (hheap : s.heap h = some impl) :
      FactoryEffect segments s (.stop h) { s with
        heap := Function.update s.heap h (some { impl with stop := true })
        phase := Function.update s.phase h .stopping }
  | join (h : ℕ) (impl : Impl) (hphase : s.phase h = .stopping) (hheap : s.heap h = some impl)
    (hover : impl.detached = true ∨ s.thread h = .done) :
      FactoryEffect segments s (.join h) { s with phase := Function.update s.phase h .joined }
  | free (h : ℕ) (hphase : s.phase h = .joined) : FactoryEffect segments s (.free h) { s with
      heap := Function.update s.heap h none
      phase := Function.update s.phase h .freed }

theorem factoryEffect {a : FactoryAct} (hstep : factoryStep segments s a = some t) :
    FactoryEffect segments s a t := by
  cases a with
  | declareDomain prioLevel =>
    cases hstep
    exact .declareDomain prioLevel
  | create c =>
    simp only [factoryStep] at hstep
    split at hstep
    · cases hstep
      exact .refuse c
    · rename_i impl attr hmade
      cases hstep
      exact .create c impl attr hmade
  | register h =>
    simp only [factoryStep] at hstep
    split at hstep
    · rename_i impl hphase hheap
      cases hstep
      exact .register h impl hphase hheap
    · cases hstep
  | entry h => exact .entry h t hstep
  | destroy h =>
    simp only [factoryStep] at hstep
    split at hstep
    · rename_i hphase
      cases hstep
      exact .destroy h hphase
    · cases hstep
  | stop h =>
    simp only [factoryStep] at hstep
    split at hstep
    · rename_i impl hphase hheap
      cases hstep
      exact .stop h impl hphase hheap
    · cases hstep
  | join h =>
    simp only [factoryStep] at hstep
    split at hstep
    · rename_i impl hphase hheap
      split at hstep
      · rename_i hjoin
        cases hstep
        exact .join h impl hphase hheap ((Bool.or_eq_true_iff.mp hjoin).imp_right of_decide_eq_true)
      · cases hstep
    · cases hstep
  | free h =>
    simp only [factoryStep] at hstep
    split at hstep
    · rename_i hphase
      cases hstep
      exact .free h hphase
    · cases hstep

/-! ## The invariant -/

structure FactoryInv (segments : List SchedSegment) (s : Factory) : Prop where
  distinct : s.registry.Nodup
  listed : ∀ h, h ∈ s.registry ↔ s.phase h = .out
  live : ∀ h, (s.heap h).isSome = true ↔ s.phase h ≠ .freed
  placed : ∀ h impl, s.heap h = some impl → Placed segments s.declared impl
  running : ∀ h impl, s.heap h = some impl → s.phase h = .out → impl.running = true
  joined : ∀ h impl, s.heap h = some impl → impl.detached = false → s.phase h = .joined →
    s.thread h = .done
  /-- handles that are not made yet -/
  fresh : ∀ h, s.next ≤ h → s.phase h = .freed

theorem factoryInv_init (segments : List SchedSegment) : FactoryInv segments Factory.init where
  distinct := List.nodup_nil
  listed := fun _ => ⟨fun h => absurd h List.not_mem_nil, fun h => by cases h⟩
  live := fun _ => ⟨fun h => (by cases h), fun h => absurd rfl h⟩
  placed := fun _ _ h => by cases h
  running := fun _ _ h => by cases h
  joined := fun _ _ h => by cases h
  fresh := fun _ _ => rfl

/-- A step of one handle: what the others need is what it leaves alone. -/
theorem FactoryInv.setHandle (hs : FactoryInv segments s) {h : ℕ} {o : Option Impl} {p : Phase}
    {registry : List ℕ} {next : ℕ} {thread : ℕ → EntryPc}
    (hdistinct : registry.Nodup)
    (hlisted : ∀ x, x ∈ registry ↔ (Function.update s.phase h p) x = .out)
    (hlive : o.isSome = true ↔ p ≠ .freed)
    (hplaced : ∀ impl, o = some impl → Placed segments s.declared impl)
    (hrunning : ∀ impl, o = some impl → p = .out → impl.running = true)
    (hjoined : ∀ impl, o = some impl → impl.detached = false → p = .joined → thread h = .done)
    (hthread : ∀ x, x ≠ h → thread x = s.thread x)
    (hnext : s.next ≤ next) (hnew : h < next ∨ p = .freed) :
    FactoryInv segments { s with
      heap := Function.update s.heap h o
      phase := Function.update s.phase h p
      thread := thread
      registry := registry
      next := next } where
  distinct := hdistinct
  listed := hlisted
  live := by
    intro x
    by_cases hx : x = h
    · simp only [hx, Function.update_self]
      exact hlive
    · simp only [Function.update_of_ne hx]
      exact hs.live x
  placed := by
    intro x impl hheap
    by_cases hx : x = h
    · simp only [hx, Function.update_self] at hheap
      exact hplaced impl hheap
    · simp only [Function.update_of_ne hx] at hheap
      exact hs.placed x impl hheap
  running := by
    intro x impl hheap hphase
    by_cases hx : x = h
    · simp only [hx, Function.update_self] at hheap hphase
      exact hrunning impl hheap hphase
    · simp only [Function.update_of_ne hx] at hheap hphase
      exact hs.running x impl hheap hphase
  joined := by
    intro x impl hheap hdetached hphase
    by_cases hx : x = h
    · simp only [hx, Function.update_self] at hheap hphase
      rw [hx]
      exact hjoined impl hheap hdetached hphase
    · simp only [Function.update_of_ne hx] at hheap hphase
      show thread x = .done
      rw [hthread x hx]
      exact hs.joined x impl hheap hdetached hphase
  fresh := by
    intro x hx
    change next ≤ x at hx
    show Function.update s.phase h p x = .freed
    by_cases hxh : x = h
    · rw [hxh, Function.update_self]
      exact hnew.resolve_left (by omega)
    · rw [Function.update_of_ne hxh]
      exact hs.fresh x (by omega)

/-- The registry stays when the handle is not listed, before and after. -/
theorem FactoryInv.listed_update (hs : FactoryInv segments s) {h : ℕ} {p : Phase}
    (hold : s.phase h ≠ .out) (hnew : p ≠ .out) (x : ℕ) :
    x ∈ s.registry ↔ Function.update s.phase h p x = .out := by
  rw [hs.listed x]
  by_cases hx : x = h
  · rw [hx, Function.update_self]
    exact ⟨fun hout => absurd hout hold, fun hout => absurd hout hnew⟩
  · rw [Function.update_of_ne hx]

/-- A handle that is not freed has been made. -/
theorem FactoryInv.lt_next (hs : FactoryInv segments s) {h : ℕ} (hp : s.phase h ≠ .freed) :
    h < s.next := by
  by_contra hge
  exact hp (hs.fresh h (by omega))

/-- A step of a handle that keeps its data. -/
theorem FactoryInv.setPhase (hs : FactoryInv segments s) {h : ℕ} {p : Phase} {registry : List ℕ}
    (hdistinct : registry.Nodup)
    (hlisted : ∀ x, x ∈ registry ↔ (Function.update s.phase h p) x = .out)
    (hold : s.phase h ≠ .freed) (hfreed : p ≠ .freed) (hout : p ≠ .out)
    (hjoined : ∀ impl, s.heap h = some impl → impl.detached = false → p = .joined →
      s.thread h = .done) :
    FactoryInv segments { s with
      phase := Function.update s.phase h p
      registry := registry } := by
  have hset := hs.setHandle hdistinct hlisted
    ⟨fun _ => hfreed, fun _ => (hs.live h).mpr hold⟩ (hs.placed h)
    (fun _ _ hp => absurd hp hout) hjoined (fun _ _ => rfl) (Nat.le_refl _)
    (Or.inl (hs.lt_next hold))
  rw [Function.update_eq_self] at hset
  exact hset

/-- A step of a thread in `Entry`; a thread that is done makes none. -/
theorem FactoryInv.setThread (hs : FactoryInv segments s) {h : ℕ} (hthread : s.thread h ≠ .done)
    (pc : EntryPc) : FactoryInv segments { s with thread := Function.update s.thread h pc } where
  distinct := hs.distinct
  listed := hs.listed
  live := hs.live
  placed := hs.placed
  running := hs.running
  joined := by
    intro x impl hheap hdetached hphase
    have hdone := hs.joined x impl hheap hdetached hphase
    show Function.update s.thread h pc x = .done
    by_cases hx : x = h
    · rw [hx] at hdone
      exact absurd hdone hthread
    · rw [Function.update_of_ne hx]
      exact hdone
  fresh := hs.fresh

theorem entry_inv {h : ℕ} (hs : FactoryInv segments s) (hstep : entry s h = some t) :
    FactoryInv segments t := by
  -- only a thread that is over does not go on
  have hdone : ∀ {pc : EntryPc}, s.thread h = pc → pc ≠ .done → s.thread h ≠ .done :=
    fun hpc hne => hpc ▸ hne
  unfold entry at hstep
  split at hstep
  case h_1 hpc =>
    obtain ⟨impl, -, rfl⟩ := Option.map_eq_some_iff.mp hstep
    exact hs.setThread (hdone hpc (by simp)) _
  case h_2 hpc =>
    obtain ⟨impl, -, rfl⟩ := Option.map_eq_some_iff.mp hstep
    exact hs.setThread (hdone hpc (by simp)) _
  case h_3 hpc =>
    obtain ⟨impl, -, rfl⟩ := Option.map_eq_some_iff.mp hstep
    exact hs.setThread (hdone hpc (by simp)) _
  case h_4 hpc =>
    cases hstep
    exact hs.setThread (hdone hpc (by simp)) _
  case h_5 hpc =>
    obtain ⟨impl, -, rfl⟩ := Option.map_eq_some_iff.mp hstep
    exact hs.setThread (hdone hpc (by simp)) _
  case h_6 => cases hstep

theorem FactoryInv.create (hs : FactoryInv segments s) {c : Call} {impl : Impl} {attr : Attr}
    (hmade : createHandle segments s.declared c = some (impl, attr)) :
    FactoryInv segments { s with
      heap := Function.update s.heap s.next (some impl)
      phase := Function.update s.phase s.next .creating
      thread := Function.update s.thread s.next .start
      next := s.next + 1 } := by
  have hnext : s.phase s.next = .freed := hs.fresh s.next (Nat.le_refl _)
  refine hs.setHandle hs.distinct (hs.listed_update (hnext.trans_ne (by simp)) (by simp)) (by simp)
    ?_ (by simp) (by simp) ?_ (Nat.le_succ _) (Or.inl (Nat.lt_succ_self _))
  · rintro _ ⟨⟩
    exact createHandle_placed hmade
  · exact fun x hx => Function.update_of_ne hx _ _

theorem FactoryInv.register (hs : FactoryInv segments s) {h : ℕ} {impl : Impl}
    (hphase : s.phase h = .creating) (hheap : s.heap h = some impl) :
    FactoryInv segments { s with
      heap := Function.update s.heap h (some { impl with running := true })
      phase := Function.update s.phase h .out
      registry := s.registry ++ [h] } := by
  have hnot : h ∉ s.registry := by
    rw [hs.listed h, hphase]
    simp
  have hlt := hs.lt_next (hphase.trans_ne (by simp))
  refine hs.setHandle ?_ ?_ (by simp) ?_ ?_ (by simp) (fun _ _ => rfl) (Nat.le_refl _) (Or.inl hlt)
  · refine List.nodup_append.mpr ⟨hs.distinct, List.pairwise_singleton _ h, ?_⟩
    intro x hx y hy hxy
    rw [List.mem_singleton.mp hy] at hxy
    exact hnot (hxy ▸ hx)
  · intro x
    rw [List.mem_append, List.mem_singleton, hs.listed x]
    by_cases hx : x = h
    · simp [hx]
    · simp [hx]
  · rintro _ ⟨⟩
    exact hs.placed h impl hheap
  · rintro _ ⟨⟩ _
    rfl

theorem FactoryInv.destroy (hs : FactoryInv segments s) {h : ℕ} (hphase : s.phase h = .out) :
    FactoryInv segments { s with
      phase := Function.update s.phase h .erased
      registry := s.registry.erase h } := by
  refine hs.setPhase (hs.distinct.erase h) ?_ (hphase.trans_ne (by simp)) (by simp) (by simp)
    (by simp)
  intro x
  rw [hs.distinct.mem_erase_iff, hs.listed x]
  by_cases hx : x = h
  · simp [hx]
  · simp [hx]

theorem FactoryInv.stop (hs : FactoryInv segments s) {h : ℕ} {impl : Impl}
    (hphase : s.phase h = .erased) (hheap : s.heap h = some impl) :
    FactoryInv segments { s with
      heap := Function.update s.heap h (some { impl with stop := true })
      phase := Function.update s.phase h .stopping } := by
  have hlt := hs.lt_next (hphase.trans_ne (by simp))
  refine hs.setHandle hs.distinct (hs.listed_update (hphase.trans_ne (by simp)) (by simp)) (by simp)
    ?_ (by simp) (by simp) (fun _ _ => rfl) (Nat.le_refl _) (Or.inl hlt)
  rintro _ ⟨⟩
  exact hs.placed h impl hheap

theorem FactoryInv.join (hs : FactoryInv segments s) {h : ℕ} {impl : Impl}
    (hphase : s.phase h = .stopping) (hheap : s.heap h = some impl)
    (hover : impl.detached = true ∨ s.thread h = .done) :
    FactoryInv segments { s with phase := Function.update s.phase h .joined } := by
  refine hs.setPhase hs.distinct (hs.listed_update (hphase.trans_ne (by simp)) (by simp))
    (hphase.trans_ne (by simp)) (by simp) (by simp) ?_
  intro impl' hheap' hdetached _
  obtain rfl := Option.some.inj (hheap.symm.trans hheap')
  rcases hover with hd | hdone
  · rw [hdetached] at hd
    cases hd
  · exact hdone

theorem FactoryInv.free (hs : FactoryInv segments s) {h : ℕ} (hphase : s.phase h = .joined) :
    FactoryInv segments { s with
      heap := Function.update s.heap h none
      phase := Function.update s.phase h .freed } :=
  hs.setHandle hs.distinct (hs.listed_update (hphase.trans_ne (by simp)) (by simp)) (by simp)
    (by simp) (by simp) (by simp) (fun _ _ => rfl) (Nat.le_refl _) (Or.inr rfl)

/-- **Step lemma.** -/
theorem factoryStep_inv {a : FactoryAct} (hs : FactoryInv segments s)
    (hstep : factoryStep segments s a = some t) : FactoryInv segments t := by
  cases factoryEffect hstep with
  | declareDomain prioLevel =>
    exact { hs with placed := fun x impl hx =>
      (hs.placed x impl hx).mono fun i hi => declareDomain_of_declared hi prioLevel }
  | refuse c => exact hs
  | create c impl attr hmade => exact hs.create hmade
  | register h impl hphase hheap => exact hs.register hphase hheap
  | entry h t hentry => exact entry_inv hs hentry
  | destroy h hphase => exact hs.destroy hphase
  | stop h impl hphase hheap => exact hs.stop hphase hheap
  | join h impl hphase hheap hover => exact hs.join hphase hheap hover
  | free h hphase => exact hs.free hphase

/-! ## The laws -/

/-- A query of registered handles drops none of them. -/
theorem forall₂_filterMap {s : Factory} : ∀ {hs : List ℕ},
    (∀ h ∈ hs, ∃ impl, s.heap h = some impl ∧ impl.running = true) →
    List.Forall₂ (fun h row => ∃ impl, s.heap h = some impl ∧ impl.info = row ∧
      impl.running = true) hs (hs.filterMap fun h => (s.heap h).map Impl.info)
  | [], _ => List.Forall₂.nil
  | h :: hs, hall => by
    obtain ⟨impl, hheap, hrunning⟩ := hall h List.mem_cons_self
    rw [List.filterMap_cons, hheap]
    exact List.Forall₂.cons ⟨impl, hheap, rfl, hrunning⟩
      (forall₂_filterMap fun x hx => hall x (List.mem_cons_of_mem h hx))

theorem FactoryInv.law (hs : FactoryInv segments s) : FactoryLaw segments s where
  distinct := hs.distinct
  listed := hs.listed
  live := hs.live
  placed := hs.placed
  query := by
    intro cap
    unfold queryThreads
    rw [← List.take_eq_take_min]
    refine forall₂_filterMap ?_
    intro h hmem
    have hout := (hs.listed h).mp (List.mem_of_mem_take hmem)
    have hsome : (s.heap h).isSome = true := (hs.live h).mpr (hout.trans_ne (by simp))
    obtain ⟨impl, himpl⟩ := Option.isSome_iff_exists.mp hsome
    exact ⟨impl, himpl, hs.running h impl himpl hout⟩
  joined := hs.joined

/--
**The registry under any interleaving.** Whatever is created, queried and destroyed at the same time,
a query sees threads that are running, each once and with its own data.
-/
theorem factoryLaw_of_run (segments : List SchedSegment) (as : List FactoryAct) :
    AllStates (factoryStep segments) (FactoryLaw segments) Factory.init as := by
  refine (allStates_iff_prefixes as _).mpr ?_
  intro pre _ s hs
  have hinv : FactoryInv segments s :=
    Reachable.invariant ⟨pre, hs⟩ (factoryInv_init segments) fun _ _ _ => factoryStep_inv
  exact hinv.law

/-- A thread that goes on in `Entry` had its handle, and looks at no other. -/
theorem entry_handlesLive {h : ℕ} (hl : HandlesLive s) (hstep : entry s h = some t) :
    HandlesLive t := by
  have hlooks : ∀ (x : ℕ) (pc : EntryPc), (s.heap h).isSome = true ∨ pc.looks = false →
      (Function.update s.thread h pc x).looks = true → (s.heap x).isSome = true := by
    intro x pc hpc hx
    by_cases hxh : x = h
    · rw [hxh, Function.update_self] at hx
      rw [hxh]
      rcases hpc with hsome | hfalse
      · exact hsome
      · rw [hx] at hfalse
        cases hfalse
    · rw [Function.update_of_ne hxh] at hx
      exact hl x hx
  unfold entry at hstep
  split at hstep
  · obtain ⟨impl, himpl, rfl⟩ := Option.map_eq_some_iff.mp hstep
    exact fun x => hlooks x _ (Or.inl (by rw [himpl]; rfl))
  · obtain ⟨impl, himpl, rfl⟩ := Option.map_eq_some_iff.mp hstep
    exact fun x => hlooks x _ (Or.inl (by rw [himpl]; rfl))
  · obtain ⟨impl, himpl, rfl⟩ := Option.map_eq_some_iff.mp hstep
    exact fun x => hlooks x _ (Or.inl (by rw [himpl]; rfl))
  · cases hstep
    exact fun x => hlooks x _ (Or.inr rfl)
  · obtain ⟨impl, himpl, rfl⟩ := Option.map_eq_some_iff.mp hstep
    exact fun x => hlooks x _ (Or.inl (by rw [himpl]; rfl))
  · cases hstep

/-- A handle that is there, with new data. -/
theorem HandlesLive.setHeap (hl : HandlesLive s) {h : ℕ} {o : Option Impl}
    (ho : o.isSome = true ∨ (s.thread h).looks = false) (x : ℕ) (hx : (s.thread x).looks = true) :
    (Function.update s.heap h o x).isSome = true := by
  by_cases hxh : x = h
  · rw [hxh] at hx
    rw [hxh, Function.update_self]
    rcases ho with hsome | hfalse
    · exact hsome
    · rw [hx] at hfalse
      cases hfalse
  · rw [Function.update_of_ne hxh]
    exact hl x hx

theorem factoryStep_handlesLive {a : FactoryAct} (h : FactoryInv segments s ∧ HandlesLive s)
    (hstep : factoryStep segments s a = some t) (hok : FreedBehind s a) :
    FactoryInv segments t ∧ HandlesLive t := by
  refine ⟨factoryStep_inv h.1 hstep, ?_⟩
  obtain ⟨hs, hl⟩ := h
  cases factoryEffect hstep with
  | declareDomain prioLevel => exact hl
  | refuse c => exact hl
  | create c impl attr hmade =>
    intro x hx
    change (Function.update s.thread s.next .start x).looks = true at hx
    show (Function.update s.heap s.next (some impl) x).isSome = true
    by_cases hxn : x = s.next
    · rw [hxn, Function.update_self]
      rfl
    · rw [Function.update_of_ne hxn] at hx ⊢
      exact hl x hx
  | register h impl hphase hheap => exact hl.setHeap (Or.inl rfl)
  | entry h t hentry => exact entry_handlesLive hl hentry
  | destroy h hphase => exact hl
  | stop h impl hphase hheap => exact hl.setHeap (Or.inl rfl)
  | join h impl hphase hheap hover => exact hl
  | free h hphase =>
    have hsome : (s.heap h).isSome = true := (hs.live h).mpr (hphase.trans_ne (by simp))
    obtain ⟨impl, himpl⟩ := Option.isSome_iff_exists.mp hsome
    -- a thread that was joined is over, and of a detached one this is the condition
    have hbehind : (s.thread h).looks = false := by
      cases hdetached : impl.detached with
      | true => exact hok impl himpl hdetached
      | false =>
        rw [hs.joined h impl himpl hdetached hphase]
        rfl
    exact hl.setHeap (Or.inr hbehind)

theorem freedBehind_of_handlesLive {a : FactoryAct} (hstep : factoryStep segments s a = some t)
    (h : HandlesLive t) : FreedBehind s a := by
  cases factoryEffect hstep with
  | free h' hphase =>
    intro impl himpl hdetached
    refine Bool.eq_false_iff.mpr fun hlooks => ?_
    have hsome : (Function.update s.heap h' none h').isSome = true := h h' hlooks
    rw [Function.update_self] at hsome
    cases hsome
  | _ => trivial

/--
**Handles and their threads.** `DestroyThread` does not wait for a detached thread. A run frees no
handle under its thread exactly when every detached handle is freed behind the last look of its
thread: behind the load of `m_fnArg` with a function, and behind the end of the loop without one.
-/
theorem handlesLive_iff (segments : List SchedSegment) (as : List FactoryAct) :
    AllStates (factoryStep segments) HandlesLive Factory.init as ↔
      AllSteps (factoryStep segments) FreedBehind Factory.init as := by
  refine allStates_iff_allSteps (fun s => FactoryInv segments s ∧ HandlesLive s) (fun _ h => h.2)
    ?_ ?_ as _ ⟨factoryInv_init segments, fun _ h => by cases h⟩
  · exact fun _ _ _ => factoryStep_handlesLive
  · exact fun _ _ _ _ => freedBehind_of_handlesLive

end Dts.Detsched
