import Dts.Infra.Bytes
import Dts.Infra.Descriptors
import Dts.Infra.Run
import Mathlib.Data.Finset.Sort
import Mathlib.Data.Nat.Basic

/-!
# Event streams

The connections of `HttpSseServer`. A thread for each one runs `ServeConn`, and `ServeStream` when
the request asks for the event stream: there the descriptor is in `m_streams`, to which `Broadcast`
writes, from the response head to the end of the connection. `Broadcast` drops a descriptor that it
cannot write to, and `Stop` shuts down all that are left.

A thread erases its number before it closes the descriptor, and only the thread closes it.
`streamsLaw` says what follows from that in all runs: every number in the set is the open descriptor
of exactly one thread in `ServeStream`, and every descriptor is closed once.
-/

namespace Dts.Streams

open Infra

/-! ## Requests -/

def space : UInt8 := 32

inductive Status
  | ok
  | notFound
  | methodNotAllowed
  deriving DecidableEq

/-- What `ServeConn` does with a request. -/
inductive Route
  | drop
  | respond (status : Status)
  | stream
  deriving DecidableEq

/-- `ServeConn`; the first line is `none` when `ReadRequestHead` has failed. -/
def serveConn (firstLine : Option Bytes) : Route :=
  match firstLine with
  | none => .drop
  | some line =>
    match line.idxOf? space with
    | none => .drop
    | some sp1 =>
      -- `firstLine.rfind(' ')`
      let sp2 := line.length - 1 - line.reverse.idxOf space
      if sp2 = sp1 then .drop
      else
        let method := line.take sp1
        let path := (line.drop (sp1 + 1)).take (sp2 - sp1 - 1)
        if method ≠ utf8 "GET" then .respond .methodNotAllowed
        else if path = utf8 "/api/stream" then .stream
        else if path = utf8 "/api/stats" then .respond .ok
        else if path = utf8 "/" ∨ path = utf8 "/index.html" then .respond .ok
        else .respond .notFound

/-! ## State -/

inductive Owner
  | listen
  | conn (c : Nat)
  /-- another part of the process -/
  | other
  deriving DecidableEq

/-- Where a connection and its thread are. -/
inductive Phase
  | absent
  /-- in `ServeConn` -/
  | serving (fd : Nat)
  /-- `ServeStream` has sent the head of the response -/
  | opening (fd : Nat)
  /-- waits for the end of the connection -/
  | streaming (fd : Nat)
  /-- the connection has ended -/
  | leaving (fd : Nat)
  /-- the next step is `close` -/
  | closing (fd : Nat)
  | done
  deriving DecidableEq

/-- The descriptor that the thread has open. -/
def Phase.fd : Phase → Option Nat
  | .serving fd | .opening fd | .streaming fd | .leaving fd | .closing fd => some fd
  | .absent | .done => none

/-- The descriptor of a thread in `ServeStream` between its insert and its erase. -/
def Phase.stream : Phase → Option Nat
  | .streaming fd | .leaving fd => some fd
  | _ => none

/-- Who has `m_connMutex` for more than one step, with the numbers still to come in its loop. -/
inductive Holder
  | free
  | broadcast (rest : List Nat)
  /-- `send` on `fd` has failed -/
  | failed (fd : Nat) (rest : List Nat)
  /-- and `fd` is shut down -/
  | shut (fd : Nat) (rest : List Nat)
  | stopping (rest : List Nat)
  deriving DecidableEq

/-- The numbers that the holder still uses. -/
def Holder.uses : Holder → List Nat
  | .free => []
  | .broadcast rest | .stopping rest => rest
  | .failed fd rest | .shut fd rest => fd :: rest

/-- Where `Stop` is. -/
inductive Stop
  | running
  /-- the listening socket is closed -/
  | closed
  /-- the accept thread is joined -/
  | joined
  | stopped
  deriving DecidableEq

structure State where
  table : Descriptors Owner
  streams : Finset Nat
  running : Bool
  listenFd : Option Nat
  /-- `AcceptLoop` has not returned -/
  accepting : Bool
  phase : Nat → Phase
  holder : Holder
  stop : Stop
  /-- how often the descriptor of a connection was closed -/
  closes : Nat → Nat

/-- After `Start`. -/
def State.init (listenFd : Nat) : State where
  table := Function.update (fun _ => none) listenFd (some .listen)
  streams := ∅
  running := true
  listenFd := some listenFd
  accepting := true
  phase := fun _ => .absent
  holder := .free
  stop := .running
  closes := fun _ => 0

namespace State

def fd (s : State) (c : Nat) : Option Nat := (s.phase c).fd

def stream (s : State) (c : Nat) : Option Nat := (s.phase c).stream

def setPhase (s : State) (c : Nat) (phase : Phase) : State :=
  { s with phase := Function.update s.phase c phase }

/-- `close` frees the number, whoever has it open. -/
def close (s : State) (fd : Nat) : State :=
  { s with
    table := s.table.release fd
    closes :=
      match s.table fd with
      | some (.conn c) => Function.update s.closes c (s.closes c + 1)
      | _ => s.closes }

theorem fd_setPhase (s : State) (c : Nat) (phase : Phase) :
    (s.setPhase c phase).fd = Function.update s.fd c phase.fd :=
  Function.comp_update Phase.fd s.phase c phase

theorem stream_setPhase (s : State) (c : Nat) (phase : Phase) :
    (s.setPhase c phase).stream = Function.update s.stream c phase.stream :=
  Function.comp_update Phase.stream s.phase c phase

theorem fd_setPhase_of_eq {s : State} {c : Nat} {phase : Phase} (h : phase.fd = (s.phase c).fd) :
    (s.setPhase c phase).fd = s.fd :=
  comp_update_of_eq Phase.fd s.phase h

theorem stream_setPhase_of_eq {s : State} {c : Nat} {phase : Phase}
    (h : phase.stream = (s.phase c).stream) : (s.setPhase c phase).stream = s.stream :=
  comp_update_of_eq Phase.stream s.phase h

end State

/-! ## Steps -/

inductive Action
  | accept (c fd : Nat)
  /-- the accept thread finds that the server is stopped -/
  | acceptExit
  /-- `ServeConn` up to its `close`, or to the response head of `ServeStream`, which may fail -/
  | serve (c : Nat) (firstLine : Option Bytes) (sent : Bool)
  | insert (c : Nat)
  /-- a round of the loop in `ServeStream`: `recv` has returned bytes or not -/
  | receive (c : Nat) (more : Bool)
  | erase (c : Nat)
  | close (c : Nat)
  | broadcastBegin
  | send (sent : Bool)
  | broadcastShutdown
  | broadcastErase
  | broadcastEnd
  | stopBegin
  | stopJoin
  | stopLock
  | stopShutdown
  | stopEnd
  | otherOpen (fd : Nat)
  | otherClose (fd : Nat)

def step (s : State) : Action → Option State
  | .accept c fd =>
    match s.accepting, s.phase c with
    | true, .absent => (s.table.acquire fd (.conn c)).map fun table =>
        { s with table := table }.setPhase c (.serving fd)
    | _, _ => none
  | .acceptExit =>
    if s.accepting && !s.running then some { s with accepting := false } else none
  | .serve c firstLine sent =>
    match s.phase c with
    | .serving fd =>
      match serveConn firstLine with
      | .stream => some (s.setPhase c (if sent then .opening fd else .closing fd))
      | .drop | .respond _ => some (s.setPhase c (.closing fd))
    | _ => none
  | .insert c =>
    match s.phase c, s.holder with
    | .opening fd, .free =>
      some ({ s with streams := insert fd s.streams }.setPhase c (.streaming fd))
    | _, _ => none
  | .receive c more =>
    match s.phase c with
    | .streaming fd =>
      some (s.setPhase c (if s.running && more then .streaming fd else .leaving fd))
    | _ => none
  | .erase c =>
    match s.phase c, s.holder with
    | .leaving fd, .free =>
      some ({ s with streams := s.streams.erase fd }.setPhase c (.closing fd))
    | _, _ => none
  | .close c =>
    match s.phase c with
    | .closing fd => some ((s.close fd).setPhase c .done)
    | _ => none
  | .broadcastBegin =>
    match s.holder with
    | .free => some { s with holder := .broadcast (s.streams.sort (· ≤ ·)) }
    | _ => none
  | .send sent =>
    match s.holder with
    | .broadcast (fd :: rest) =>
      some { s with holder := if sent then .broadcast rest else .failed fd rest }
    | _ => none
  | .broadcastShutdown =>
    match s.holder with
    | .failed fd rest => some { s with holder := .shut fd rest }
    | _ => none
  | .broadcastErase =>
    match s.holder with
    | .shut fd rest =>
      some { s with streams := s.streams.erase fd, holder := .broadcast rest }
    | _ => none
  | .broadcastEnd =>
    match s.holder with
    | .broadcast [] => some { s with holder := .free }
    | _ => none
  | .stopBegin =>
    match s.stop, s.listenFd with
    | .running, some fd =>
      some { s.close fd with running := false, listenFd := none, stop := .closed }
    | _, _ => none
  | .stopJoin =>
    match s.stop, s.accepting with
    | .closed, false => some { s with stop := .joined }
    | _, _ => none
  | .stopLock =>
    match s.stop, s.holder with
    | .joined, .free => some { s with holder := .stopping (s.streams.sort (· ≤ ·)) }
    | _, _ => none
  | .stopShutdown =>
    match s.holder with
    | .stopping (_ :: rest) => some { s with holder := .stopping rest }
    | _ => none
  | .stopEnd =>
    match s.holder with
    | .stopping [] => some { s with holder := .free, stop := .stopped }
    | _ => none
  | .otherOpen fd => (s.table.acquire fd .other).map fun table => { s with table := table }
  | .otherClose fd =>
    if s.table fd = some .other then some { s with table := s.table.release fd } else none

/-- The descriptor to which a step of `Broadcast` or `Stop` writes, or which it shuts down. -/
def target (s : State) : Action → Option Nat
  | .send _ | .broadcastShutdown | .stopShutdown => s.holder.uses.head?
  | _ => none

/-! ## The law -/

/-- `fd` is the open descriptor of exactly one thread in `ServeStream`. -/
def State.OwnedStream (s : State) (fd : Nat) : Prop :=
  ∃! c, s.stream c = some fd ∧ s.table fd = some (.conn c)

/-- **The law.** -/
structure StreamsLaw (s : State) : Prop where
  owned : ∀ fd ∈ s.streams, s.OwnedStream fd
  /-- `Broadcast` and `Stop` use no other descriptors -/
  targets : ∀ a fd t, step s a = some t → target s a = some fd → s.OwnedStream fd
  /-- a thread closes its own descriptor, which is open -/
  closesOwn : ∀ c fd, s.phase c = .closing fd → s.table fd = some (.conn c)
  /-- and every descriptor is closed once -/
  closedOnce : ∀ c, s.closes c = if s.phase c = .done then 1 else 0
  /-- that of a stream too, when its connection ends -/
  closable : ∀ c fd, s.stream c = some fd → ∃ bs t, exec step s bs = some t ∧ t.phase c = .done

/-! ## What a step does -/

open State

variable {s t : State} {a : Action}

/-- **Inversion.** The effects of a step. -/
inductive Effect (s : State) : Action → State → Prop
  | accept (c fd : Nat) (table : Descriptors Owner) (hphase : s.phase c = .absent)
      (htable : s.table.acquire fd (.conn c) = some table) :
      Effect s (.accept c fd) ({ s with table := table }.setPhase c (.serving fd))
  | acceptExit (hexit : (s.accepting && !s.running) = true) :
      Effect s .acceptExit { s with accepting := false }
  | openStream (c fd : Nat) (firstLine : Option Bytes) (hphase : s.phase c = .serving fd) :
      Effect s (.serve c firstLine true) (s.setPhase c (.opening fd))
  | respond (c fd : Nat) (firstLine : Option Bytes) (sent : Bool) (hphase : s.phase c = .serving fd) :
      Effect s (.serve c firstLine sent) (s.setPhase c (.closing fd))
  | insert (c fd : Nat) (hphase : s.phase c = .opening fd) (hholder : s.holder = .free) :
      Effect s (.insert c) ({ s with streams := insert fd s.streams }.setPhase c (.streaming fd))
  | receive (c fd : Nat) (more : Bool) (hphase : s.phase c = .streaming fd) :
      Effect s (.receive c more)
        (s.setPhase c (if s.running && more then .streaming fd else .leaving fd))
  | erase (c fd : Nat) (hphase : s.phase c = .leaving fd) (hholder : s.holder = .free) :
      Effect s (.erase c) ({ s with streams := s.streams.erase fd }.setPhase c (.closing fd))
  | close (c fd : Nat) (hphase : s.phase c = .closing fd) :
      Effect s (.close c) ((s.close fd).setPhase c .done)
  | broadcastBegin (hholder : s.holder = .free) :
      Effect s .broadcastBegin { s with holder := .broadcast (s.streams.sort (· ≤ ·)) }
  | send (fd : Nat) (rest : List Nat) (sent : Bool) (hholder : s.holder = .broadcast (fd :: rest)) :
      Effect s (.send sent)
        { s with holder := if sent then .broadcast rest else .failed fd rest }
  | broadcastShutdown (fd : Nat) (rest : List Nat) (hholder : s.holder = .failed fd rest) :
      Effect s .broadcastShutdown { s with holder := .shut fd rest }
  | broadcastErase (fd : Nat) (rest : List Nat) (hholder : s.holder = .shut fd rest) :
      Effect s .broadcastErase
        { s with streams := s.streams.erase fd, holder := .broadcast rest }
  | broadcastEnd (hholder : s.holder = .broadcast []) :
      Effect s .broadcastEnd { s with holder := .free }
  | stopBegin (fd : Nat) (hlisten : s.listenFd = some fd) :
      Effect s .stopBegin { s.close fd with running := false, listenFd := none, stop := .closed }
  | stopJoin (hstop : s.stop = .closed) : Effect s .stopJoin { s with stop := .joined }
  | stopLock (hholder : s.holder = .free) :
      Effect s .stopLock { s with holder := .stopping (s.streams.sort (· ≤ ·)) }
  | stopShutdown (fd : Nat) (rest : List Nat) (hholder : s.holder = .stopping (fd :: rest)) :
      Effect s .stopShutdown { s with holder := .stopping rest }
  | stopEnd (hholder : s.holder = .stopping []) :
      Effect s .stopEnd { s with holder := .free, stop := .stopped }
  | otherOpen (fd : Nat) (table : Descriptors Owner)
      (htable : s.table.acquire fd .other = some table) :
      Effect s (.otherOpen fd) { s with table := table }
  | otherClose (fd : Nat) (hother : s.table fd = some .other) :
      Effect s (.otherClose fd) { s with table := s.table.release fd }

theorem effect_of_step (hs : step s a = some t) : Effect s a t := by
  cases a with
  | accept c fd =>
    simp only [step] at hs
    split at hs
    · rename_i hphase
      obtain ⟨table, htable, rfl⟩ := Option.map_eq_some_iff.mp hs
      exact .accept c fd table hphase htable
    · cases hs
  | serve c firstLine sent =>
    simp only [step] at hs
    split at hs
    · rename_i fd hphase
      split at hs <;> cases hs
      · cases sent with
        | true => exact .openStream c fd firstLine hphase
        | false => exact .respond c fd firstLine false hphase
      · exact .respond c fd firstLine sent hphase
      · exact .respond c fd firstLine sent hphase
    · cases hs
  | otherOpen fd =>
    obtain ⟨table, htable, rfl⟩ := Option.map_eq_some_iff.mp hs
    exact .otherOpen fd table htable
  | acceptExit | insert | receive | erase | close | broadcastBegin | send | broadcastShutdown
  | broadcastErase | broadcastEnd | stopBegin | stopJoin | stopLock | stopShutdown | stopEnd
  | otherClose =>
    simp only [step] at hs
    split at hs <;> cases hs
    constructor <;> assumption

/-! ## Descriptors -/

/-- The table has every descriptor under its owner. -/
structure Owned (s : State) : Prop where
  conns : Held s.table Owner.conn s.fd
  listen : Held s.table (fun _ : Unit => Owner.listen) fun _ => s.listenFd

theorem conn_injective : Function.Injective Owner.conn := fun _ _ h => Owner.conn.inj h

theorem owned_init (listenFd : Nat) : Owned (State.init listenFd) where
  conns := fun c fd h => by cases h
  listen := fun _ fd h => by
    obtain rfl := Option.some.inj h
    simp [State.init]

/-- Only the table and who has which descriptor matter. -/
theorem Owned.congr (h : Owned s) (htable : t.table = s.table) (hfd : t.fd = s.fd)
    (hlisten : t.listenFd = s.listenFd) : Owned t := by
  refine ⟨?_, ?_⟩
  · rw [htable, hfd]
    exact h.conns
  · rw [htable, hlisten]
    exact h.listen

theorem Owned.step (h : Owned s) (hs : step s a = some t) : Owned t := by
  cases effect_of_step hs with
  | acceptExit | broadcastBegin | send | broadcastShutdown | broadcastErase | broadcastEnd
  | stopJoin | stopLock | stopShutdown | stopEnd => exact h.congr rfl rfl rfl
  | accept c fd table hphase htable =>
    refine ⟨?_, h.listen.acquired htable⟩
    rw [fd_setPhase]
    exact h.conns.acquire htable
  | openStream c fd firstLine hphase | respond c fd firstLine sent hphase | insert c fd hphase
  | erase c fd hphase =>
    exact h.congr rfl (fd_setPhase_of_eq (congrArg Phase.fd hphase).symm) rfl
  | receive c fd more hphase =>
    refine h.congr rfl (fd_setPhase_of_eq ?_) rfl
    rw [hphase]
    split <;> rfl
  | close c fd hphase =>
    have hfd : s.fd c = some fd := congrArg Phase.fd hphase
    refine ⟨?_, h.listen.released (h.conns c fd hfd) (by simp)⟩
    rw [fd_setPhase]
    exact h.conns.release conn_injective hfd
  | stopBegin fd hlisten =>
    refine ⟨h.conns.released (h.listen () fd hlisten) (by simp), ?_⟩
    rintro _ _ ⟨⟩
  | otherOpen fd table htable => exact ⟨h.conns.acquired htable, h.listen.acquired htable⟩
  | otherClose fd hother =>
    exact ⟨h.conns.released hother (by simp), h.listen.released hother (by simp)⟩

/-! ## Every descriptor is closed once -/

/-- The descriptor of a connection was closed once if its thread is done, and not before. -/
def ClosedOnce (s : State) : Prop := ∀ c, s.closes c = if s.phase c = .done then 1 else 0

theorem ClosedOnce.congr (h : ClosedOnce s) (hcloses : t.closes = s.closes)
    (hdone : ∀ c, t.phase c = .done ↔ s.phase c = .done) : ClosedOnce t := by
  intro c
  rw [hcloses, h c]
  exact if_congr (hdone c).symm rfl rfl

theorem done_setPhase {c : Nat} {phase : Phase} (hbefore : s.phase c ≠ .done)
    (hafter : phase ≠ .done) (d : Nat) : (s.setPhase c phase).phase d = .done ↔ s.phase d = .done := by
  rcases eq_or_ne d c with rfl | hne
  · exact iff_of_false (by simpa [setPhase] using hafter) hbefore
  · rw [show (s.setPhase c phase).phase d = s.phase d from Function.update_of_ne hne ..]

theorem closes_close_conn {fd c : Nat} (h : s.table fd = some (.conn c)) :
    (s.close fd).closes = Function.update s.closes c (s.closes c + 1) := by
  rw [State.close, h]

theorem closes_close_listen {fd : Nat} (h : s.table fd = some .listen) :
    (s.close fd).closes = s.closes := by
  rw [State.close, h]

theorem ClosedOnce.step (h : ClosedOnce s) (howned : Owned s) (hs : step s a = some t) :
    ClosedOnce t := by
  cases effect_of_step hs with
  | acceptExit | broadcastBegin | send | broadcastShutdown | broadcastErase | broadcastEnd
  | stopJoin | stopLock | stopShutdown | stopEnd | otherOpen | otherClose => exact h
  | accept c fd table hphase | openStream c fd firstLine hphase
  | respond c fd firstLine sent hphase | insert c fd hphase | erase c fd hphase =>
    exact h.congr rfl (done_setPhase (by simp [hphase]) (by simp))
  | receive c fd more hphase =>
    exact h.congr rfl (done_setPhase (by simp [hphase]) (by split <;> simp))
  | close c fd hphase =>
    have hopen := howned.conns c fd (congrArg Phase.fd hphase)
    have hzero : s.closes c = 0 := by rw [h c, hphase]; rfl
    intro d
    show (s.close fd).closes d = if Function.update s.phase c .done d = .done then 1 else 0
    rw [closes_close_conn hopen]
    rcases eq_or_ne d c with rfl | hne
    · rw [Function.update_self, Function.update_self, hzero, if_pos rfl]
    · rw [Function.update_of_ne hne, Function.update_of_ne hne, h d]
  | stopBegin fd hlisten =>
    intro c
    show (s.close fd).closes c = _
    rw [closes_close_listen (howned.listen () fd hlisten)]
    exact h c

/-! ## The set -/

/-- What a step does to the set, to the threads in `ServeStream` and to the holder of the lock. -/
inductive Registry (s t : State) : Prop
  | kept (hset : t.streams = s.streams) (hstream : t.stream = s.stream)
      (huses : t.holder.uses.Sublist s.holder.uses)
  | lock (hset : t.streams = s.streams) (hstream : t.stream = s.stream)
      (huses : t.holder.uses = s.streams.sort (· ≤ ·))
  | insert (c fd : Nat) (hnone : s.stream c = none) (hset : t.streams = insert fd s.streams)
      (hstream : t.stream = Function.update s.stream c (some fd)) (huses : t.holder.uses = [])
  | erase (c fd : Nat) (hsome : s.stream c = some fd) (hset : t.streams = s.streams.erase fd)
      (hstream : t.stream = Function.update s.stream c none) (huses : t.holder.uses = [])
  /-- `Broadcast` drops a number -/
  | drop (fd : Nat) (hset : t.streams = s.streams.erase fd) (hstream : t.stream = s.stream)
      (huses : s.holder.uses = fd :: t.holder.uses)

theorem registry_of_step (hs : step s a = some t) : Registry s t := by
  cases effect_of_step hs with
  | acceptExit | stopBegin | stopJoin | otherOpen | otherClose =>
    exact .kept rfl rfl (List.Sublist.refl _)
  | accept c fd table hphase | openStream c fd firstLine hphase | respond c fd firstLine sent hphase
  | close c fd hphase =>
    exact .kept rfl (stream_setPhase_of_eq (congrArg Phase.stream hphase).symm) (List.Sublist.refl _)
  | insert c fd hphase hholder =>
    exact .insert c fd (congrArg Phase.stream hphase) rfl (stream_setPhase ..)
      (congrArg Holder.uses hholder)
  | receive c fd more hphase =>
    refine .kept rfl (stream_setPhase_of_eq ?_) (List.Sublist.refl _)
    rw [hphase]
    split <;> rfl
  | erase c fd hphase hholder =>
    exact .erase c fd (congrArg Phase.stream hphase) rfl (stream_setPhase ..)
      (congrArg Holder.uses hholder)
  | broadcastBegin | stopLock => exact .lock rfl rfl rfl
  | send fd rest sent hholder =>
    refine .kept rfl rfl ?_
    rw [hholder]
    cases sent with
    | true => exact List.sublist_cons_self fd rest
    | false => exact List.Sublist.refl _
  | broadcastShutdown fd rest hholder =>
    refine .kept rfl rfl ?_
    rw [hholder]
    exact List.Sublist.refl _
  | broadcastErase fd rest hholder => exact .drop fd rfl rfl (congrArg Holder.uses hholder)
  | broadcastEnd | stopEnd => exact .kept rfl rfl (List.nil_sublist _)
  | stopShutdown fd rest hholder =>
    refine .kept rfl rfl ?_
    rw [hholder]
    exact List.sublist_cons_self fd rest

/-- The numbers in the set are those of threads in `ServeStream`, and the holder of the lock goes
through numbers of the set, each once. -/
structure Inv (s : State) : Prop where
  owned : Owned s
  closedOnce : ClosedOnce s
  backed : Backed s.streams s.stream
  uses : ∀ fd ∈ s.holder.uses, fd ∈ s.streams
  nodup : s.holder.uses.Nodup

theorem inv_init (listenFd : Nat) : Inv (State.init listenFd) where
  owned := owned_init listenFd
  closedOnce := fun _ => rfl
  backed := by simp [State.init, Backed]
  uses := by simp [State.init, Holder.uses]
  nodup := List.nodup_nil

theorem inv_step (h : Inv s) (hs : step s a = some t) : Inv t := by
  have howned := h.owned.step hs
  have hclosed := h.closedOnce.step h.owned hs
  cases registry_of_step hs with
  | kept hset hstream huses =>
    refine ⟨howned, hclosed, by rw [hset, hstream]; exact h.backed, fun fd hfd => ?_,
      h.nodup.sublist huses⟩
    rw [hset]
    exact h.uses fd (huses.subset hfd)
  | lock hset hstream huses =>
    refine ⟨howned, hclosed, by rw [hset, hstream]; exact h.backed, fun fd hfd => ?_, ?_⟩
    · rw [huses, Finset.mem_sort] at hfd
      rwa [hset]
    · rw [huses]
      exact Finset.sort_nodup ..
  | insert c fd hnone hset hstream huses =>
    refine ⟨howned, hclosed, ?_, by simp [huses], by simp [huses]⟩
    rw [hset, hstream]
    exact h.backed.insert hnone
  | erase c fd hsome hset hstream huses =>
    refine ⟨howned, hclosed, ?_, by simp [huses], by simp [huses]⟩
    rw [hset, hstream]
    exact h.backed.erase hsome
  | drop fd hset hstream huses =>
    have hnodup := h.nodup
    rw [huses, List.nodup_cons] at hnodup
    refine ⟨howned, hclosed, ?_, fun fd' hfd => ?_, hnodup.2⟩
    · rw [hset, hstream]
      exact h.backed.subset (Finset.erase_subset fd _)
    · rw [hset]
      refine Finset.mem_erase.mpr ⟨?_, h.uses fd' (huses ▸ List.mem_cons_of_mem fd hfd)⟩
      rintro rfl
      exact hnodup.1 hfd

/-! ## The end of a stream -/

/-- The holder of the lock gives it back after a number of steps of its own. -/
structure Unlocks (s : State) (bs : List Action) (t : State) : Prop where
  exec : exec step s bs = some t
  free : t.holder = .free
  phase : t.phase = s.phase

theorem Unlocks.cons {u : State} {bs : List Action} (h : Unlocks t bs u) (hs : step s a = some t)
    (hphase : t.phase = s.phase) : Unlocks s (a :: bs) u where
  exec := by rw [exec_cons, hs]; exact h.exec
  free := h.free
  phase := h.phase.trans hphase

theorem exists_unlocks_broadcast (rest : List Nat) :
    ∀ s : State, s.holder = .broadcast rest → ∃ bs t, Unlocks s bs t := by
  induction rest with
  | nil =>
    intro s hholder
    exact ⟨[.broadcastEnd], { s with holder := .free }, by simp [exec_cons, step, hholder], rfl, rfl⟩
  | cons fd rest ih =>
    intro s hholder
    obtain ⟨bs, t, h⟩ := ih { s with holder := .broadcast rest } rfl
    exact ⟨.send true :: bs, t, h.cons (by simp [step, hholder]) rfl⟩

theorem exists_unlocks_stopping (rest : List Nat) :
    ∀ s : State, s.holder = .stopping rest → ∃ bs t, Unlocks s bs t := by
  induction rest with
  | nil =>
    intro s hholder
    exact ⟨[.stopEnd], { s with holder := .free, stop := .stopped },
      by simp [exec_cons, step, hholder], rfl, rfl⟩
  | cons fd rest ih =>
    intro s hholder
    obtain ⟨bs, t, h⟩ := ih { s with holder := .stopping rest } rfl
    exact ⟨.stopShutdown :: bs, t, h.cons (by simp [step, hholder]) rfl⟩

theorem exists_unlocks (s : State) : ∃ bs t, Unlocks s bs t := by
  cases hholder : s.holder with
  | free => exact ⟨[], s, rfl, hholder, rfl⟩
  | broadcast rest => exact exists_unlocks_broadcast rest s hholder
  | stopping rest => exact exists_unlocks_stopping rest s hholder
  | shut fd rest =>
    obtain ⟨bs, t, h⟩ := exists_unlocks_broadcast rest
      { s with streams := s.streams.erase fd, holder := .broadcast rest } rfl
    exact ⟨.broadcastErase :: bs, t, h.cons (by simp [step, hholder]) rfl⟩
  | failed fd rest =>
    obtain ⟨bs, t, h⟩ := exists_unlocks_broadcast rest
      { s with streams := s.streams.erase fd, holder := .broadcast rest } rfl
    have hshut := h.cons (s := { s with holder := .shut fd rest }) (a := .broadcastErase) rfl rfl
    exact ⟨.broadcastShutdown :: .broadcastErase :: bs, t, hshut.cons (by simp [step, hholder]) rfl⟩

/-- A thread in `ServeStream` whose connection ends erases its number and closes the descriptor. -/
theorem exists_done {c fd : Nat} (h : s.stream c = some fd) :
    ∃ bs t, exec step s bs = some t ∧ t.phase c = .done := by
  obtain ⟨bs, u, hu⟩ := exists_unlocks s
  unfold State.stream Phase.stream at h
  split at h
  · rename_i fd' hphase
    rw [← hu.phase] at hphase
    refine ⟨bs ++ [.receive c false, .erase c, .close c], ?_⟩
    rw [exec_append, hu.exec]
    simp [exec_cons, step, hphase, hu.free, setPhase, State.close]
  · rename_i fd' hphase
    rw [← hu.phase] at hphase
    refine ⟨bs ++ [.erase c, .close c], ?_⟩
    rw [exec_append, hu.exec]
    simp [exec_cons, step, hphase, hu.free, setPhase, State.close]
  · cases h

/-! ## The streams -/

theorem fd_of_stream {c fd : Nat} (h : s.stream c = some fd) : s.fd c = some fd := by
  unfold State.stream Phase.stream at h
  unfold State.fd
  split at h <;> simp_all [Phase.fd]

theorem Inv.law (h : Inv s) : StreamsLaw s := by
  have howned : ∀ fd ∈ s.streams, s.OwnedStream fd := by
    intro fd hfd
    obtain ⟨c, hc⟩ := h.backed fd hfd
    have hopen := h.owned.conns c fd (fd_of_stream hc)
    refine ⟨c, ⟨hc, hopen⟩, fun d hd => ?_⟩
    exact h.owned.conns.inj conn_injective (fd_of_stream hd.1) (fd_of_stream hc)
  refine ⟨howned, fun a fd t _ htarget => ?_, fun c fd hphase => ?_, h.closedOnce,
    fun _ _ => exists_done⟩
  · refine howned fd (h.uses fd ?_)
    unfold target at htarget
    split at htarget
    · exact List.mem_of_mem_head? htarget
    · exact List.mem_of_mem_head? htarget
    · exact List.mem_of_mem_head? htarget
    · cases htarget
  · exact h.owned.conns c fd (congrArg Phase.fd hphase)

/--
**Streams.** In every state of every run each number in `m_streams` is the open descriptor of exactly
one thread in `ServeStream`, `Broadcast` and `Stop` use no other descriptors, and every connection
has its descriptor closed once, by its own thread.
-/
theorem streamsLaw (listenFd : Nat) (as : List Action) :
    AllStates step StreamsLaw (State.init listenFd) as := by
  refine (allStates_iff_prefixes as _).mpr fun pre _ s hs => Inv.law ?_
  exact Reachable.invariant ⟨pre, hs⟩ (inv_init listenFd) fun _ _ _ => inv_step

end Dts.Streams
