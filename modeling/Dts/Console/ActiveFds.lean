import Dts.Infra.Descriptors
import Dts.Infra.Run
import Mathlib.Data.Finset.Sort
import Mathlib.Data.Nat.Basic

/-!
# The connections of the console

`ConsoleLoop` accepts connections, and a thread for each one runs `SessionLoop`, which keeps the
number of its descriptor in `g_activeFds`. `console_stop` shuts down every descriptor of the set, to
wake the sessions that wait for a line.

At its end a session closes its descriptor first and erases the number after that. Between these two
steps the set holds a closed number, which the kernel may give to the next connection: then the erase
drops the number of that connection from the set.

* `activeLaw_iff` — the set is exact along a run if and only if no session closes its descriptor in it
* `wakes_iff` — no session is missed if and only if no number is erased that another session has
-/

namespace Dts.ActiveFds

open Infra

/-! ## State -/

/-- Who a descriptor belongs to. -/
inductive Owner
  | listen
  | session (c : Nat)
  /-- another part of the process -/
  | other
  deriving DecidableEq

/-- Where a connection and its session thread are. -/
inductive Phase
  | absent
  /-- accepted, its thread is not made yet -/
  | accepted (fd : Nat)
  /-- at the beginning of `SessionLoop` -/
  | started (fd : Nat)
  /-- at the loop condition -/
  | looping (fd : Nat)
  /-- in `ReadLine`, or waits for the answer, or sends it -/
  | reading (fd : Nat)
  /-- behind the loop -/
  | leaving (fd : Nat)
  /-- `close` has returned, the number is not erased yet -/
  | closed (fd : Nat)
  | gone
  deriving DecidableEq

/-- The descriptor that the connection has open. -/
def Phase.fd : Phase → Option Nat
  | .accepted fd | .started fd | .looping fd | .reading fd | .leaving fd => some fd
  | .absent | .closed _ | .gone => none

/-- The descriptor of a session that is past registration and has not started to close. -/
def Phase.registered : Phase → Option Nat
  | .looping fd | .reading fd | .leaving fd => some fd
  | _ => none

/-- Where `ConsoleLoop` is. -/
inductive Console
  /-- at the loop condition -/
  | looping
  /-- in `poll` or `accept` -/
  | polling
  /-- with a connection for which it makes a thread -/
  | accepted (c : Nat)
  | exited
  deriving DecidableEq

/-- Where `console_stop` is. -/
inductive Stop
  | running
  /-- `g_consoleStop` is set -/
  | flagged
  /-- the console thread is joined and the socket closed -/
  | joined
  /-- holds `g_connMutex`, with the numbers that are still to be shut down -/
  | sweeping (rest : List Nat)
  | swept
  deriving DecidableEq

/-- The numbers that `console_stop` has still to shut down. -/
def Stop.rest : Stop → List Nat
  | .sweeping rest => rest
  | _ => []

/-- `console_stop` has begun with them. -/
def Stop.begun : Stop → Bool
  | .sweeping _ | .swept => true
  | _ => false

/-- The descriptor table of the process, and what the threads of the console share. -/
structure State where
  table : Descriptors Owner
  /-- `g_listenFd`; `none` stands for -1 -/
  listenFd : Option Nat
  activeFds : Finset Nat
  consoleStop : Bool
  console : Console
  phase : Nat → Phase
  stop : Stop
  /-- connections that were shut down -/
  down : Nat → Bool

/-- After `console_start`. -/
def State.init (listenFd : Nat) : State where
  table := Function.update (fun _ => none) listenFd (some .listen)
  listenFd := some listenFd
  activeFds := ∅
  consoleStop := false
  console := .looping
  phase := fun _ => .absent
  stop := .running
  down := fun _ => false

namespace State

/-- The descriptor that a session has open. -/
def fd (s : State) (c : Nat) : Option Nat := (s.phase c).fd

/-- The number that a session has in `g_activeFds`. -/
def registered (s : State) (c : Nat) : Option Nat := (s.phase c).registered

def setPhase (s : State) (c : Nat) (phase : Phase) : State :=
  { s with phase := Function.update s.phase c phase }

theorem fd_setPhase (s : State) (c : Nat) (phase : Phase) :
    (s.setPhase c phase).fd = Function.update s.fd c phase.fd :=
  Function.comp_update Phase.fd s.phase c phase

theorem registered_setPhase (s : State) (c : Nat) (phase : Phase) :
    (s.setPhase c phase).registered = Function.update s.registered c phase.registered :=
  Function.comp_update Phase.registered s.phase c phase

theorem fd_setPhase_of_eq {s : State} {c : Nat} {phase : Phase} (h : phase.fd = (s.phase c).fd) :
    (s.setPhase c phase).fd = s.fd :=
  comp_update_of_eq Phase.fd s.phase h

theorem registered_setPhase_of_eq {s : State} {c : Nat} {phase : Phase}
    (h : phase.registered = (s.phase c).registered) :
    (s.setPhase c phase).registered = s.registered :=
  comp_update_of_eq Phase.registered s.phase h

/-- `shutdown` reaches whoever has the number open. -/
def shutdown (s : State) (fd : Nat) : State :=
  match s.table fd with
  | some (.session c) => { s with down := Function.update s.down c true }
  | _ => s

/-- `g_connMutex` is free; only the loop of `console_stop` keeps it for more than one step. -/
def unlocked (s : State) : Bool :=
  match s.stop with
  | .sweeping _ => false
  | _ => true

end State

/-! ## Steps -/

inductive Action
  /-- the loop condition of `ConsoleLoop` -/
  | consoleCheck
  /-- no connection: `poll` or `accept` has failed -/
  | consoleIdle
  /-- `accept` returns `fd` for connection `c` -/
  | accept (c fd : Nat)
  /-- the thread of an accepted connection is made -/
  | spawn
  | register (c : Nat)
  /-- the loop condition of `SessionLoop` -/
  | check (c : Nat)
  /-- a round of the loop, which goes on or breaks -/
  | serve (c : Nat) (goesOn : Bool)
  | close (c : Nat)
  | erase (c : Nat)
  | stopFlag
  | stopJoin
  | sweepBegin
  | sweepShutdown
  | sweepEnd
  | otherOpen (fd : Nat)
  | otherClose (fd : Nat)

def step (s : State) : Action → Option State
  | .consoleCheck =>
    match s.console with
    | .looping => some { s with console := if s.consoleStop then .exited else .polling }
    | _ => none
  | .consoleIdle =>
    match s.console with
    | .polling => some { s with console := .looping }
    | _ => none
  | .accept c fd =>
    match s.console, s.phase c with
    | .polling, .absent => (s.table.acquire fd (.session c)).map fun table =>
        { s with table := table, console := .accepted c }.setPhase c (.accepted fd)
    | _, _ => none
  | .spawn =>
    match s.console with
    | .accepted c =>
      match s.phase c with
      | .accepted fd =>
        if s.unlocked then some ({ s with console := .looping }.setPhase c (.started fd)) else none
      | _ => none
    | _ => none
  | .register c =>
    match s.phase c with
    | .started fd =>
      if s.unlocked then
        some ({ s with activeFds := insert fd s.activeFds }.setPhase c (.looping fd))
      else none
    | _ => none
  | .check c =>
    match s.phase c with
    | .looping fd => some (s.setPhase c (if s.consoleStop then .leaving fd else .reading fd))
    | _ => none
  | .serve c goesOn =>
    match s.phase c with
    | .reading fd => some (s.setPhase c (if goesOn then .looping fd else .leaving fd))
    | _ => none
  | .close c =>
    match s.phase c with
    | .leaving fd => some ({ s with table := s.table.release fd }.setPhase c (.closed fd))
    | _ => none
  | .erase c =>
    match s.phase c with
    | .closed fd =>
      if s.unlocked then
        some ({ s with activeFds := s.activeFds.erase fd }.setPhase c .gone)
      else none
    | _ => none
  | .stopFlag =>
    match s.stop with
    | .running => some { s with consoleStop := true, stop := .flagged }
    | _ => none
  | .stopJoin =>
    match s.stop, s.console, s.listenFd with
    | .flagged, .exited, some fd =>
      some { s with table := s.table.release fd, listenFd := none, stop := .joined }
    | _, _, _ => none
  | .sweepBegin =>
    match s.stop with
    | .joined => some { s with stop := .sweeping (s.activeFds.sort (· ≤ ·)) }
    | _ => none
  | .sweepShutdown =>
    match s.stop with
    | .sweeping (fd :: rest) => some { s.shutdown fd with stop := .sweeping rest }
    | _ => none
  | .sweepEnd =>
    match s.stop with
    | .sweeping [] => some { s with stop := .swept }
    | _ => none
  | .otherOpen fd => (s.table.acquire fd .other).map fun table => { s with table := table }
  | .otherClose fd =>
    if s.table fd = some .other then some { s with table := s.table.release fd } else none

/-! ## The law -/

/-- `fd` is the open descriptor of a registered session. -/
def State.Live (s : State) (fd : Nat) : Prop :=
  ∃ c, s.registered c = some fd ∧ s.table fd = some (.session c)

/-- **The law.** -/
structure ActiveLaw (s : State) : Prop where
  /-- the set has the descriptor of every registered session -/
  listed : Listed s.activeFds s.registered
  /-- and no other number -/
  live : ∀ fd ∈ s.activeFds, s.Live fd
  /-- `console_stop` shuts down registered sessions only -/
  touches : ∀ fd rest, s.stop = .sweeping (fd :: rest) → s.Live fd
  /-- and has woken all that wait for a line -/
  woken : s.stop = .swept → ∀ c fd, s.phase c = .reading fd → s.down c = true

/-- The step does not close the descriptor of a session. -/
def NoClose (_ : State) : Action → Prop
  | .close _ => False
  | _ => True

/-- An erased number is not that of a registered session. -/
def ErasesUnused (s : State) : Action → Prop
  | .erase c => ∀ fd d, s.phase c = .closed fd → s.registered d ≠ some fd
  | _ => True

/-! ## What a step does -/

/-- **Inversion.** The effects of a step. -/
inductive Effect (s : State) : Action → State → Prop
  | consoleCheck (hconsole : s.console = .looping) :
      Effect s .consoleCheck { s with console := if s.consoleStop then .exited else .polling }
  | consoleIdle (hconsole : s.console = .polling) :
      Effect s .consoleIdle { s with console := .looping }
  | accept (c fd : Nat) (table : Descriptors Owner) (hphase : s.phase c = .absent)
      (htable : s.table.acquire fd (.session c) = some table) :
      Effect s (.accept c fd)
        ({ s with table := table, console := .accepted c }.setPhase c (.accepted fd))
  | spawn (c fd : Nat) (hphase : s.phase c = .accepted fd) :
      Effect s .spawn ({ s with console := .looping }.setPhase c (.started fd))
  | register (c fd : Nat) (hphase : s.phase c = .started fd) (hfree : s.unlocked = true) :
      Effect s (.register c)
        ({ s with activeFds := insert fd s.activeFds }.setPhase c (.looping fd))
  | check (c fd : Nat) (hphase : s.phase c = .looping fd) :
      Effect s (.check c) (s.setPhase c (if s.consoleStop then .leaving fd else .reading fd))
  | serve (c fd : Nat) (goesOn : Bool) (hphase : s.phase c = .reading fd) :
      Effect s (.serve c goesOn) (s.setPhase c (if goesOn then .looping fd else .leaving fd))
  | close (c fd : Nat) (hphase : s.phase c = .leaving fd) :
      Effect s (.close c) ({ s with table := s.table.release fd }.setPhase c (.closed fd))
  | erase (c fd : Nat) (hphase : s.phase c = .closed fd) (hfree : s.unlocked = true) :
      Effect s (.erase c) ({ s with activeFds := s.activeFds.erase fd }.setPhase c .gone)
  | stopFlag (hstop : s.stop = .running) :
      Effect s .stopFlag { s with consoleStop := true, stop := .flagged }
  | stopJoin (fd : Nat) (hstop : s.stop = .flagged) (hlisten : s.listenFd = some fd) :
      Effect s .stopJoin
        { s with table := s.table.release fd, listenFd := none, stop := .joined }
  | sweepBegin (hstop : s.stop = .joined) :
      Effect s .sweepBegin { s with stop := .sweeping (s.activeFds.sort (· ≤ ·)) }
  | sweepShutdown (fd : Nat) (rest : List Nat) (hstop : s.stop = .sweeping (fd :: rest)) :
      Effect s .sweepShutdown { s.shutdown fd with stop := .sweeping rest }
  | sweepEnd (hstop : s.stop = .sweeping []) : Effect s .sweepEnd { s with stop := .swept }
  | otherOpen (fd : Nat) (table : Descriptors Owner)
      (htable : s.table.acquire fd .other = some table) :
      Effect s (.otherOpen fd) { s with table := table }
  | otherClose (fd : Nat) (hother : s.table fd = some .other) :
      Effect s (.otherClose fd) { s with table := s.table.release fd }

open State

variable {s t : State} {a : Action}

theorem effect_of_step (hs : step s a = some t) : Effect s a t := by
  cases a with
  | accept c fd =>
    simp only [step] at hs
    split at hs
    · rename_i hphase
      obtain ⟨table, htable, rfl⟩ := Option.map_eq_some_iff.mp hs
      exact .accept c fd table hphase htable
    · cases hs
  | spawn =>
    simp only [step] at hs
    split at hs
    · split at hs
      · rename_i hphase
        split at hs <;> cases hs
        exact .spawn _ _ hphase
      · cases hs
    · cases hs
  | register c =>
    simp only [step] at hs
    split at hs
    · split at hs <;> cases hs
      exact .register _ _ ‹_› ‹_›
    · cases hs
  | erase c =>
    simp only [step] at hs
    split at hs
    · split at hs <;> cases hs
      exact .erase _ _ ‹_› ‹_›
    · cases hs
  | otherOpen fd =>
    obtain ⟨table, htable, rfl⟩ := Option.map_eq_some_iff.mp hs
    exact .otherOpen fd table htable
  | consoleCheck | consoleIdle | check | serve | close | stopFlag | stopJoin | sweepBegin
  | sweepShutdown | sweepEnd | otherClose =>
    simp only [step] at hs
    split at hs <;> cases hs
    constructor <;> assumption

/-- `shutdown` changes nothing but `down`. -/
theorem shutdown_fields (s : State) (fd : Nat) :
    (s.shutdown fd).table = s.table ∧ (s.shutdown fd).listenFd = s.listenFd ∧
      (s.shutdown fd).activeFds = s.activeFds ∧ (s.shutdown fd).phase = s.phase ∧
      (s.shutdown fd).consoleStop = s.consoleStop := by
  unfold State.shutdown
  split <;> exact ⟨rfl, rfl, rfl, rfl, rfl⟩

/-! ## Descriptors -/

/-- The table has every descriptor under its owner. -/
structure Owned (s : State) : Prop where
  sessions : Held s.table Owner.session s.fd
  listen : Held s.table (fun _ : Unit => Owner.listen) fun _ => s.listenFd

theorem session_injective : Function.Injective Owner.session := fun _ _ h => Owner.session.inj h

theorem owned_init (listenFd : Nat) : Owned (State.init listenFd) where
  sessions := fun c fd h => by cases h
  listen := fun _ fd h => by
    obtain rfl := Option.some.inj h
    simp [State.init]

/-- Only the table and who has which descriptor matter. -/
theorem Owned.congr (h : Owned s) (htable : t.table = s.table) (hfd : t.fd = s.fd)
    (hlisten : t.listenFd = s.listenFd) : Owned t := by
  refine ⟨?_, ?_⟩
  · rw [htable, hfd]
    exact h.sessions
  · rw [htable, hlisten]
    exact h.listen

theorem Owned.step (h : Owned s) (hs : step s a = some t) : Owned t := by
  cases effect_of_step hs with
  | consoleCheck | consoleIdle | stopFlag | sweepBegin | sweepEnd => exact h.congr rfl rfl rfl
  | accept c fd table hphase htable =>
    refine ⟨?_, h.listen.acquired htable⟩
    rw [fd_setPhase]
    exact h.sessions.acquire htable
  | spawn c fd hphase | register c fd hphase | erase c fd hphase =>
    exact h.congr rfl (fd_setPhase_of_eq (congrArg Phase.fd hphase).symm) rfl
  | check c fd hphase =>
    refine h.congr rfl (fd_setPhase_of_eq ?_) rfl
    rw [hphase]
    cases s.consoleStop <;> rfl
  | serve c fd goesOn hphase =>
    refine h.congr rfl (fd_setPhase_of_eq ?_) rfl
    rw [hphase]
    cases goesOn <;> rfl
  | close c fd hphase =>
    have hfd : s.fd c = some fd := congrArg Phase.fd hphase
    refine ⟨?_, h.listen.released (h.sessions c fd hfd) (by simp)⟩
    rw [fd_setPhase]
    exact h.sessions.release session_injective hfd
  | stopJoin fd hstop hlisten =>
    refine ⟨h.sessions.released (h.listen () fd hlisten) (by simp), ?_⟩
    rintro _ _ ⟨⟩
  | sweepShutdown fd rest hstop =>
    obtain ⟨htable, hlisten, -, hphase, -⟩ := shutdown_fields s fd
    refine h.congr htable ?_ hlisten
    funext c
    exact congrArg (fun phase => (phase c).fd) hphase
  | otherOpen fd table htable => exact ⟨h.sessions.acquired htable, h.listen.acquired htable⟩
  | otherClose fd hother =>
    exact ⟨h.sessions.released hother (by simp), h.listen.released hother (by simp)⟩

/-! ## The set -/

/-- What a step does to the set and to who is registered. -/
inductive Registry (s t : State) : Action → Prop
  | kept {a : Action} (hset : t.activeFds = s.activeFds) (hreg : t.registered = s.registered) :
      Registry s t a
  | insert (c fd : Nat) (hfree : s.registered c = none)
      (hset : t.activeFds = insert fd s.activeFds)
      (hreg : t.registered = Function.update s.registered c (some fd)) : Registry s t (.register c)
  | close (c fd : Nat) (hopen : s.registered c = some fd) (hset : t.activeFds = s.activeFds)
      (hreg : t.registered = Function.update s.registered c none) : Registry s t (.close c)
  | erase (c fd : Nat) (hphase : s.phase c = .closed fd)
      (hset : t.activeFds = s.activeFds.erase fd) (hreg : t.registered = s.registered) :
      Registry s t (.erase c)

theorem registry_of_step (hs : step s a = some t) : Registry s t a := by
  cases effect_of_step hs with
  | consoleCheck | consoleIdle | stopFlag | stopJoin | sweepBegin | sweepEnd | otherOpen
  | otherClose => exact .kept rfl rfl
  | accept c fd table hphase | spawn c fd hphase =>
    exact .kept rfl (registered_setPhase_of_eq (congrArg Phase.registered hphase).symm)
  | register c fd hphase =>
    exact .insert c fd (congrArg Phase.registered hphase) rfl (registered_setPhase ..)
  | check c fd hphase =>
    refine .kept rfl (registered_setPhase_of_eq ?_)
    rw [hphase]
    cases s.consoleStop <;> rfl
  | serve c fd goesOn hphase =>
    refine .kept rfl (registered_setPhase_of_eq ?_)
    rw [hphase]
    cases goesOn <;> rfl
  | close c fd hphase =>
    exact .close c fd (congrArg Phase.registered hphase) rfl (registered_setPhase ..)
  | erase c fd hphase =>
    exact .erase c fd hphase rfl
      (registered_setPhase_of_eq (congrArg Phase.registered hphase).symm)
  | sweepShutdown fd rest hstop =>
    obtain ⟨-, -, hset, hphase, -⟩ := shutdown_fields s fd
    refine .kept hset ?_
    funext c
    exact congrArg (fun phase => (phase c).registered) hphase

/-- The set misses no session as long as no number is erased that a session has. -/
theorem listed_step (h : Listed s.activeFds s.registered) (hs : step s a = some t)
    (ha : ErasesUnused s a) : Listed t.activeFds t.registered := by
  cases registry_of_step hs with
  | kept hset hreg =>
    rw [hset, hreg]
    exact h
  | insert c fd hfree hset hreg =>
    rw [hset, hreg]
    exact h.insert
  | close c fd hopen hset hreg =>
    rw [hset, hreg]
    exact h.drop
  | erase c fd hphase hset hreg =>
    rw [hset, hreg]
    exact h.erase fun d => ha fd d hphase

theorem listed_init (listenFd : Nat) :
    Listed (State.init listenFd).activeFds (State.init listenFd).registered :=
  fun c fd h => by cases h

/-! ## Who is woken -/

/-- Sessions that wait for a line while `console_stop` goes through the set are still to come, or
have been shut down. -/
structure Waking (s : State) : Prop where
  flag : s.stop ≠ .running → s.consoleStop = true
  rest : ∀ fd ∈ s.stop.rest, fd ∈ s.activeFds
  pending : s.stop.begun = true → ∀ c fd, s.phase c = .reading fd →
    fd ∈ s.stop.rest ∨ s.down c = true

theorem waking_init (listenFd : Nat) : Waking (State.init listenFd) :=
  ⟨by simp [State.init], by simp [State.init, Stop.rest], by simp [State.init, Stop.begun]⟩

/-- A step of a session or of the console thread, which lets nobody wait after `console_stop` has
begun. -/
theorem Waking.move (h : Waking s) (hflag : t.consoleStop = s.consoleStop) (hstop : t.stop = s.stop)
    (hdown : t.down = s.down) (hset : ∀ fd ∈ s.stop.rest, fd ∈ s.activeFds → fd ∈ t.activeFds)
    (hreading : ∀ c fd, t.phase c = .reading fd → s.phase c = .reading fd ∨ s.consoleStop = false) :
    Waking t where
  flag := by
    rw [hflag, hstop]
    exact h.flag
  rest := by
    rw [hstop]
    exact fun fd hfd => hset fd hfd (h.rest fd hfd)
  pending := by
    rw [hstop, hdown]
    intro hbegun c fd hphase
    rcases hreading c fd hphase with hphase | hrun
    · exact h.pending hbegun c fd hphase
    · have hne : s.stop ≠ .running := by
        rintro heq
        rw [heq] at hbegun
        cases hbegun
      rw [h.flag hne] at hrun
      cases hrun

theorem phase_setPhase {c d : Nat} {phase phase' : Phase}
    (h : (s.setPhase c phase).phase d = phase') : phase = phase' ∨ s.phase d = phase' := by
  rcases eq_or_ne d c with rfl | hne
  · exact .inl ((Function.update_self ..).symm.trans h)
  · exact .inr ((Function.update_of_ne hne ..).symm.trans h)

theorem rest_of_unlocked (h : s.unlocked = true) : s.stop.rest = [] := by
  cases hstop : s.stop with
  | sweeping rest =>
    rw [State.unlocked, hstop] at h
    cases h
  | _ => rfl

/-- `shutdown` reaches the session that has the number. -/
theorem down_shutdown (h : Owned s) {c fd : Nat} (hc : s.fd c = some fd) :
    (s.shutdown fd).down c = true := by
  rw [State.shutdown, h.sessions c fd hc]
  exact Function.update_self ..

theorem down_shutdown_of_down {c fd : Nat} (hc : s.down c = true) :
    (s.shutdown fd).down c = true := by
  unfold State.shutdown
  split
  · rename_i d _
    rcases eq_or_ne c d with rfl | hne
    · exact Function.update_self ..
    · exact (Function.update_of_ne hne ..).trans hc
  · exact hc

theorem Waking.step (h : Waking s) (howned : Owned s) (hlisted : Listed s.activeFds s.registered)
    (hs : step s a = some t) : Waking t := by
  cases effect_of_step hs with
  | consoleCheck | consoleIdle | otherOpen | otherClose =>
    exact h.move rfl rfl rfl (fun _ _ hmem => hmem) fun _ _ hphase => .inl hphase
  | accept c fd | spawn c fd | close c fd =>
    refine h.move rfl rfl rfl (fun _ _ hmem => hmem) fun d fd' hphase => ?_
    rcases phase_setPhase hphase with heq | hphase
    · cases heq
    · exact .inl hphase
  | register c fd =>
    refine h.move rfl rfl rfl (fun _ _ hmem => Finset.mem_insert_of_mem hmem) fun d fd' hphase => ?_
    rcases phase_setPhase hphase with heq | hphase
    · cases heq
    · exact .inl hphase
  | check c fd =>
    refine h.move rfl rfl rfl (fun _ _ hmem => hmem) fun d fd' hphase => ?_
    rcases phase_setPhase hphase with heq | hphase
    · cases hstop : s.consoleStop with
      | true => simp [hstop] at heq
      | false => exact .inr rfl
    · exact .inl hphase
  | serve c fd goesOn =>
    refine h.move rfl rfl rfl (fun _ _ hmem => hmem) fun d fd' hphase => ?_
    rcases phase_setPhase hphase with heq | hphase
    · cases goesOn <;> cases heq
    · exact .inl hphase
  | erase c fd hphase hfree =>
    refine h.move rfl rfl rfl (fun fd hfd => ?_) fun d fd' hphase => ?_
    · rw [rest_of_unlocked hfree] at hfd
      cases hfd
    · rcases phase_setPhase hphase with heq | hphase
      · cases heq
      · exact .inl hphase
  | stopFlag hstop => exact ⟨fun _ => rfl, by simp [Stop.rest], by simp [Stop.begun]⟩
  | stopJoin fd hstop =>
    exact ⟨fun _ => h.flag (by simp [hstop]), by simp [Stop.rest], by simp [Stop.begun]⟩
  | sweepBegin hstop =>
    refine ⟨fun _ => h.flag (by simp [hstop]), fun fd hfd => (Finset.mem_sort _).mp hfd, ?_⟩
    intro _ c fd hphase
    exact .inl ((Finset.mem_sort _).mpr (hlisted c fd (congrArg Phase.registered hphase)))
  | sweepShutdown fd rest hstop =>
    obtain ⟨-, -, hset, hphases, hflag⟩ := shutdown_fields s fd
    have hrest : s.stop.rest = fd :: rest := by rw [hstop]; rfl
    refine ⟨fun _ => hflag.trans (h.flag (by simp [hstop])), fun fd' hfd => ?_, ?_⟩
    · rw [hset]
      exact h.rest fd' (hrest ▸ List.mem_cons_of_mem fd hfd)
    · intro _ c fd' hphase
      rw [hphases] at hphase
      rcases h.pending (by rw [hstop]; rfl) c fd' hphase with hmem | hdown
      · rw [hrest] at hmem
        rcases List.mem_cons.mp hmem with rfl | hmem
        · exact .inr (down_shutdown howned (congrArg Phase.fd hphase))
        · exact .inl hmem
      · exact .inr (down_shutdown_of_down hdown)
  | sweepEnd hstop =>
    refine ⟨fun _ => h.flag (by simp [hstop]), by simp [Stop.rest], fun _ c fd hphase => ?_⟩
    have hpending := h.pending (by rw [hstop]; rfl) c fd hphase
    rw [hstop] at hpending
    exact hpending

/-! ## No session is missed -/

/-- The set misses no session, and `console_stop` leaves none that waits. -/
structure Wakes (s : State) : Prop where
  listed : Listed s.activeFds s.registered
  woken : s.stop = .swept → ∀ c fd, s.phase c = .reading fd → s.down c = true

/-- The invariant of all runs. -/
structure Inv (s : State) : Prop where
  owned : Owned s
  listed : Listed s.activeFds s.registered
  waking : Waking s

theorem inv_init (listenFd : Nat) : Inv (State.init listenFd) :=
  ⟨owned_init listenFd, listed_init listenFd, waking_init listenFd⟩

theorem inv_step (h : Inv s) (hs : step s a = some t) (ha : ErasesUnused s a) : Inv t :=
  ⟨h.owned.step hs, listed_step h.listed hs ha, h.waking.step h.owned h.listed hs⟩

theorem Inv.wakes (h : Inv s) : Wakes s := by
  refine ⟨h.listed, fun hstop c fd hphase => ?_⟩
  have hpending := h.waking.pending (by rw [hstop]; rfl) c fd hphase
  rw [hstop] at hpending
  exact hpending.resolve_left List.not_mem_nil

/--
**No session is missed.** Along a run the set has the descriptor of every registered session, and
`console_stop` wakes all of them, if and only if no session erases a number that another one has got
in the meantime.
-/
theorem wakes_iff (listenFd : Nat) (as : List Action) :
    AllStates step Wakes (State.init listenFd) as ↔
      AllSteps step ErasesUnused (State.init listenFd) as := by
  refine allStates_iff_allSteps Inv (fun _ h => h.wakes) (fun _ _ _ h hs ha => inv_step h hs ha) ?_
    as _ (inv_init listenFd)
  intro s a t _ hs ht
  cases a with
  | erase c =>
    intro fd d hphase hd
    cases effect_of_step hs with
    | erase _ fd' hphase' =>
      obtain rfl : fd = fd' := Phase.closed.inj (hphase.symm.trans hphase')
      have hreg := (registered_setPhase_of_eq (congrArg Phase.registered hphase).symm :
        (s.setPhase c .gone).registered = s.registered)
      have hmem := ht.listed d fd ((congrFun hreg d).trans hd)
      exact absurd rfl (Finset.mem_erase.mp hmem).1
  | _ => trivial

/-! ## The set is exact -/

/-- The invariant of a run in which no session has closed its descriptor yet. -/
structure Exact (s : State) : Prop extends Inv s where
  backed : Backed s.activeFds s.registered
  unclosed : ∀ c fd, s.phase c ≠ .closed fd

theorem exact_init (listenFd : Nat) : Exact (State.init listenFd) :=
  ⟨inv_init listenFd, by simp [State.init, Backed], by simp [State.init]⟩

theorem unclosed_setPhase {c : Nat} {phase : Phase} (h : ∀ c fd, s.phase c ≠ .closed fd)
    (hphase : ∀ fd, phase ≠ .closed fd) : ∀ d fd, (s.setPhase c phase).phase d ≠ .closed fd := by
  intro d fd hclosed
  rcases phase_setPhase hclosed with heq | hclosed
  · exact hphase fd heq
  · exact h d fd hclosed

theorem unclosed_step (h : ∀ c fd, s.phase c ≠ .closed fd) (hs : step s a = some t)
    (ha : NoClose s a) : ∀ c fd, t.phase c ≠ .closed fd := by
  cases effect_of_step hs with
  | consoleCheck | consoleIdle | stopFlag | stopJoin | sweepBegin | sweepEnd | otherOpen
  | otherClose => exact h
  | accept | spawn | register | erase => exact unclosed_setPhase h (by simp)
  | check => exact unclosed_setPhase h (by split <;> simp)
  | serve => exact unclosed_setPhase h (by split <;> simp)
  | close => exact ha.elim
  | sweepShutdown fd rest hstop =>
    obtain ⟨-, -, -, hphase, -⟩ := shutdown_fields s fd
    exact fun c fd' hclosed => h c fd' (hphase ▸ hclosed)

theorem exact_step (h : Exact s) (hs : step s a = some t) (ha : NoClose s a) : Exact t := by
  have hunused : ErasesUnused s a := by
    cases a with
    | erase c => exact fun fd _ hphase => absurd hphase (h.unclosed c fd)
    | _ => trivial
  refine ⟨inv_step h.toInv hs hunused, ?_, unclosed_step h.unclosed hs ha⟩
  cases registry_of_step hs with
  | kept hset hreg =>
    rw [hset, hreg]
    exact h.backed
  | insert c fd hfree hset hreg =>
    rw [hset, hreg]
    exact h.backed.insert hfree
  | close => exact ha.elim
  | erase c fd hphase => exact absurd hphase (h.unclosed c fd)

theorem fd_of_registered {c fd : Nat} (h : s.registered c = some fd) : s.fd c = some fd := by
  unfold State.registered Phase.registered at h
  unfold State.fd
  split at h <;> simp_all [Phase.fd]

theorem Exact.law (h : Exact s) : ActiveLaw s := by
  have hlive : ∀ fd ∈ s.activeFds, s.Live fd := by
    intro fd hfd
    obtain ⟨c, hc⟩ := h.backed fd hfd
    exact ⟨c, hc, h.owned.sessions c fd (fd_of_registered hc)⟩
  refine ⟨h.listed, hlive, fun fd rest hstop => ?_, h.toInv.wakes.woken⟩
  exact hlive fd (h.waking.rest fd (by rw [hstop]; exact List.mem_cons_self))

/-- A number that was closed and is still in the set breaks the law. -/
theorem noClose_of_law (h : Inv s) (hs : step s a = some t) (ht : ActiveLaw t) : NoClose s a := by
  cases a with
  | close c =>
    cases effect_of_step hs with
    | close _ fd hphase =>
      obtain ⟨d, -, hopen⟩ := ht.live fd (h.listed c fd (congrArg Phase.registered hphase))
      have hfree : s.table.release fd fd = none := Function.update_self ..
      cases hfree.symm.trans hopen
  | _ => trivial

/--
**Active connections.** Along a run the set has the descriptors of exactly the registered sessions,
and `console_stop` shuts down these and no others, if and only if no session closes its descriptor.
-/
theorem activeLaw_iff (listenFd : Nat) (as : List Action) :
    AllStates step ActiveLaw (State.init listenFd) as ↔
      AllSteps step NoClose (State.init listenFd) as :=
  allStates_iff_allSteps Exact (fun _ h => h.law) (fun _ _ _ h hs ha => exact_step h hs ha)
    (fun _ _ _ h hs ht => noClose_of_law h.toInv hs ht) as _ (exact_init listenFd)

/-! ## A reused number -/

/-- Connection 2 gets the number of connection 1 between its `close` and its erase. -/
def reusing : List Action :=
  [.consoleCheck, .accept 1 5, .spawn, .register 1, .check 1, .serve 1 false, .close 1,
    .consoleCheck, .accept 2 5, .spawn, .register 2, .check 2, .erase 1,
    .stopFlag, .consoleCheck, .stopJoin]

def sweep : List Action := [.sweepBegin, .sweepEnd]

/-- It is not in the set any more, and `console_stop` does not wake it. -/
theorem not_activeLaw_reusing :
    (∃ s, exec step (State.init 3) (reusing ++ sweep) = some s ∧ s.stop = .swept ∧
      s.phase 2 = .reading 5 ∧ s.table 5 = some (.session 2) ∧ s.activeFds = ∅ ∧
      s.down 2 = false) ∧
      ¬ AllStates step ActiveLaw (State.init 3) (reusing ++ sweep) := by
  have hend : ∃ s, exec step (State.init 3) (reusing ++ sweep) = some s ∧ s.stop = .swept ∧
      s.phase 2 = .reading 5 ∧ s.table 5 = some (.session 2) ∧ s.activeFds = ∅ ∧
      s.down 2 = false := by
    obtain ⟨t, ht, hset, hstop, hphase, htable, hdown⟩ : ∃ t,
        exec step (State.init 3) reusing = some t ∧ t.activeFds = ∅ ∧ t.stop = .joined ∧
          t.phase 2 = .reading 5 ∧ t.table 5 = some (.session 2) ∧ t.down 2 = false :=
      ⟨_, rfl, rfl, rfl, rfl, rfl, rfl⟩
    rw [exec_append, ht]
    refine ⟨{ t with stop := .swept }, ?_, rfl, hphase, htable, hset, hdown⟩
    simp [sweep, exec_cons, step, hstop, hset]
  refine ⟨hend, fun h => ?_⟩
  obtain ⟨s, hs, hstop, hphase, -, -, hdown⟩ := hend
  cases hdown.symm.trans ((h.last hs).woken hstop 2 5 hphase)

end Dts.ActiveFds
