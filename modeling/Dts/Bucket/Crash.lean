import Dts.Bucket.Fifo

/-!
# Crashes around a segment

The mutex of a segment is robust: when the process that holds it dies, the next one takes it over
and calls the state consistent. A writer can therefore die at any byte of its entry. A reader that
dies leaves its `owner_pid`; a new reader resets the ring under the lock, and a new epoch begins.

* `CrashLaw` — the segment is a queue, and was one to the end of every epoch before
* `crashLaw_of_admittedWithRoom` — it holds in every run with crashes in which each `Write` that
  `wait_drain` lets through has room; a crash costs the message of the writer that dies, and the
  unread ones when a reader is replaced
-/

namespace Dts.Bucket

open Infra

/-! ## The system with its processes -/

/-- What was accepted and returned between two resets of the ring. -/
structure Epoch where
  accepted : List Payload
  returned : List (Nat × Bytes)

/-- The segment, the process of its reader, and the epochs before. -/
structure Life where
  sys : System
  /-- `owner_pid`; `none` is 0, as `Create` leaves it -/
  owner : Option Nat
  reader : Nat
  alive : Bool
  past : List Epoch

/-- A segment that process `p` has created, with its receive thread up. -/
def Life.init (p : Nat) : Life where
  sys := System.init
  owner := none
  reader := p
  alive := true
  past := []

/-- Steps of `Read`. -/
def Action.ofReader : Action → Bool
  | .read _ | .poll | .wake | .readTimeout | .load _ | .decode | .consume => true
  | _ => false

inductive LifeAct where
  | act (a : Action)
  /-- the process that holds `write_lock` dies, at any point of its critical section -/
  | holderDies
  /-- a process dies in `pthread_mutex_lock` -/
  | callerDies (w : Nat)
  | readerDies
  /-- `ClaimOwnership` by process `p`; the pid of the dead owner is in use again when `reused` -/
  | claim (p : Nat) (reused : Bool)

/-- The private cursor of the reader goes with its process. -/
def System.dropReader (s : System) : System :=
  { s with seg := { s.seg with cursor := s.seg.readPos }, reader := .idle }

/-- The ring as a new owner resets it. The bytes stay. -/
def System.reset (s : System) : System :=
  { s with
    seg := ⟨0, 0, s.seg.ring, 0, [], []⟩
    reader := .idle }

def Life.epoch (s : Life) : Epoch := ⟨s.sys.seg.accepted, s.sys.seg.returned⟩

/--
`ClaimOwnership`, which waits for the lock. The model does not follow two readers of one segment:
`none` stands for a claim that makes a second one.
-/
def claim (s : Life) (p : Nat) (reused : Bool) : Option Life :=
  if s.sys.holder.isSome then none
  else
    match s.owner with
    | none => if s.alive then none else some { s with
        sys := s.sys.reset, owner := some p, reader := p, alive := true, past := s.past ++ [s.epoch] }
    | some q =>
      if q = p then
        -- a pid that is in use again, of the owner that died: the ring is not reset
        if s.alive then none else some { s with reader := p, alive := true }
      else if s.alive || reused then some s
      else some { s with
        sys := s.sys.reset, owner := some p, reader := p, alive := true, past := s.past ++ [s.epoch] }

def lifeStep (C : Capacity) (s : Life) : LifeAct → Option Life
  | .act a =>
    if a.ofReader && !s.alive then none
    else (step C s.sys a).map fun sys => { s with sys := sys }
  | .holderDies =>
    match s.sys.holder with
    | some _ => some { s with sys := { s.sys with holder := none } }
    | none => none
  | .callerDies w =>
    match s.sys.blocked w with
    | some _ =>
      some { s with sys := { s.sys with blocked := Function.update s.sys.blocked w none } }
    | none => none
  | .readerDies => if s.alive then some { s with sys := s.sys.dropReader, alive := false } else none
  | .claim p reused => claim s p reused

/-! ## The law -/

/-- **The segment through crashes.** -/
structure CrashLaw (C : Capacity) (s : Life) : Prop where
  fifo : Fifo C s.sys
  /-- what each reader before got is a prefix of what was accepted in its epoch -/
  past : ∀ e ∈ s.past, e.returned <+: e.accepted.map Payload.out

def LifeAct.ReadsWhole (bound : Nat) : LifeAct → Prop
  | .act a => a.ReadsWhole bound
  | _ => True

instance (bound : Nat) : ∀ a : LifeAct, Decidable (a.ReadsWhole bound)
  | .act a => inferInstanceAs (Decidable (a.ReadsWhole bound))
  | .holderDies | .callerDies _ | .readerDies | .claim .. => isTrue trivial

def LifeAdmitted (C : Capacity) (s : Life) : LifeAct → Prop
  | .act a => AdmittedWithRoom C s.sys a
  | _ => True

instance (C : Capacity) (s : Life) : ∀ a : LifeAct, Decidable (LifeAdmitted C s a)
  | .act a => inferInstanceAs (Decidable (AdmittedWithRoom C s.sys a))
  | .holderDies | .callerDies _ | .readerDies | .claim .. => isTrue trivial

/-! ## The invariant -/

variable {C : Capacity} {bound : Nat} {s t : Life} {done queue : List Payload}

/-- The invariant of the segment, and the law of the epochs before. -/
structure LifeInv (C : Capacity) (bound : Nat) (s : Life) : Prop where
  now : ∃ done queue, Inv C bound s.sys done queue
  past : ∀ e ∈ s.past, e.returned <+: e.accepted.map Payload.out

theorem LifeInv.law (h : LifeInv C bound s) : CrashLaw C s := by
  obtain ⟨done, queue, hnow⟩ := h.now
  exact ⟨hnow.fifo, h.past⟩

/-- The reader's next process starts at the stored `read_pos`, which is where the old one was. -/
theorem Inv.dropReader {s : System} (h : Inv C bound s done queue) :
    Inv C bound s.dropReader done queue where
  ring := { h.ring with cursor := h.ring.readPos.trans h.ring.cursor, readPos := rfl }
  bounded := h.bounded
  blocked := h.blocked
  holder := by
    intro w m phase hholder
    obtain ⟨hcall, hphase⟩ := h.holder w m phase hholder
    refine ⟨hcall, ?_⟩
    cases phase with
    | copying wpos todo =>
      exact ⟨hphase.pos, hphase.room, hphase.wide, hphase.within, hphase.content⟩
    | waiting => trivial
    | published => trivial
  reader := trivial

/-- An empty ring, with the writers that wait for the lock. -/
theorem Inv.reset {s : System} (h : Inv C bound s done queue) (hfree : s.holder = none) :
    Inv C bound s.reset [] [] where
  ring := ⟨rfl, rfl, rfl, rfl, rfl, Or.inr (Nat.two_pow_pos 64), Nat.zero_le _, trivial⟩
  bounded := fun _ hm => absurd hm List.not_mem_nil
  blocked := h.blocked
  holder := by
    intro w m phase hholder
    change s.holder = _ at hholder
    rw [hfree] at hholder
    cases hholder
  reader := trivial

theorem LifeInv.setSys (h : LifeInv C bound s) {sys : System}
    (hsys : ∃ done queue, Inv C bound sys done queue) (ht : t.sys = sys) (hpast : t.past = s.past) :
    LifeInv C bound t := by
  constructor
  · rw [ht]
    exact hsys
  · rw [hpast]
    exact h.past

/-- A new epoch: the old one ends with the law of its time. -/
theorem LifeInv.newEpoch (h : LifeInv C bound s) (hfree : s.sys.holder = none)
    (ht : t.sys = s.sys.reset) (hpast : t.past = s.past ++ [s.epoch]) : LifeInv C bound t := by
  obtain ⟨done, queue, hnow⟩ := h.now
  constructor
  · rw [ht]
    exact ⟨[], [], hnow.reset hfree⟩
  · intro e he
    rw [hpast] at he
    rcases List.mem_append.mp he with hold | hnew
    · exact h.past e hold
    · rw [List.mem_singleton.mp hnew]
      exact hnow.fifo.inOrder

theorem claim_inv {p : Nat} {reused : Bool} (h : LifeInv C bound s)
    (hstep : claim s p reused = some t) : LifeInv C bound t := by
  unfold claim at hstep
  split at hstep
  · cases hstep
  · rename_i hlock
    have hfree : s.sys.holder = none := by simpa using hlock
    split at hstep
    · split at hstep
      · cases hstep
      · cases hstep
        exact h.newEpoch hfree rfl rfl
    · split at hstep
      · split at hstep
        · cases hstep
        · cases hstep
          exact h.setSys h.now rfl rfl
      · split at hstep
        · cases hstep
          exact h
        · cases hstep
          exact h.newEpoch hfree rfl rfl

/-- **Step lemma.** -/
theorem lifeStep_inv {a : LifeAct} (h : LifeInv C bound s) (hcall : a.ReadsWhole bound)
    (hroom : LifeAdmitted C s a) (hstep : lifeStep C s a = some t) : LifeInv C bound t := by
  obtain ⟨done, queue, hnow⟩ := h.now
  cases a with
  | act a =>
    change (if a.ofReader && !s.alive then none
      else (step C s.sys a).map fun sys => { s with sys := sys }) = some t at hstep
    split at hstep
    · cases hstep
    · obtain ⟨sys, hsys, rfl⟩ := Option.map_eq_some_iff.mp hstep
      exact h.setSys (step_inv hnow hcall hroom hsys) rfl rfl
  | holderDies =>
    -- whatever part of the entry is copied, nothing of it is published
    simp only [lifeStep] at hstep
    split at hstep
    · cases hstep
      exact h.setSys ⟨done, queue, hnow.freeLock⟩ rfl rfl
    · cases hstep
  | callerDies w =>
    simp only [lifeStep] at hstep
    split at hstep
    · cases hstep
      exact h.setSys ⟨done, queue, hnow.setBlocked w (by simp)⟩ rfl rfl
    · cases hstep
  | readerDies =>
    simp only [lifeStep] at hstep
    split at hstep
    · cases hstep
      exact h.setSys ⟨done, queue, hnow.dropReader⟩ rfl rfl
    · cases hstep
  | claim p reused => exact claim_inv h hstep

/-! ## Runs -/

/--
**Crash safety, with room for every entry.** Writers die at any instruction, readers die and are
replaced: within every epoch the reader gets the payloads of the successful `Write`s in order and
unchanged, and never a part of one.
-/
theorem crashLaw_of_admittedWithRoom (C : Capacity) (bound p : Nat) (run : List LifeAct)
    (hcalls : ∀ a ∈ run, a.ReadsWhole bound)
    (hroom : AllSteps (lifeStep C) (LifeAdmitted C) (Life.init p) run) :
    AllStates (lifeStep C) (CrashLaw C) (Life.init p) run := by
  refine allStates_of_allSteps (LifeInv C bound) (fun _ => LifeInv.law)
    (fun _ _ _ h hstep ⟨hc, ha⟩ => lifeStep_inv h ha hc hstep) run _ ?_ (hroom.and hcalls)
  exact ⟨⟨[], [], inv_init C bound⟩, fun _ he => absurd he List.not_mem_nil⟩

/-- A writer dies inside its entry, and another one takes over; then the reader is replaced. -/
def takeover : List LifeAct :=
  [.act (.write 0 (filled 6 65 (by decide))), .act (.lock 0), .act .drain, .act (.copy 3), .holderDies,
    .act (.write 1 (filled 3 66 (by decide))), .act (.lock 1), .act .drain, .act (.copy 7),
    .act .publish, .act .unlock, .readerDies, .claim 8 false, .act (.read 6), .act .poll]

theorem crashLaw_takeover :
    AllStates (lifeStep smallRing) (CrashLaw smallRing) (Life.init 7) takeover :=
  crashLaw_of_admittedWithRoom smallRing 6 7 takeover (by decide) (by decide +kernel)

end Dts.Bucket
