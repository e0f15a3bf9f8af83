import Dts.Bucket.Transport

/-!
# Who reads a segment

The constructor of `BucketChannelResource` step by step, for any number of channels in any number of
processes: it creates the segment of its port, or, when the name is taken, opens the segment and
claims it. `Create` leaves `owner_pid` 0, and the constructor does not claim a segment that it has
created. For `ClaimOwnership` such a segment has no owner, although its creator reads it.

`ownership_iff` says in which runs a segment never has readers in two live processes.
-/

namespace Dts.Transport

open Infra

/-! ## Channels -/

/-- Where the constructor of a channel is, or that its thread reads the segment. -/
inductive Phase where
  | idle
  /-- `Create` has returned `nullptr` -/
  | opening (port : UInt32)
  /-- `Open` has returned the segment -/
  | opened (port : UInt32) (g : SegId)
  | reading (port : UInt32) (g : SegId)

/-- The segment that the thread of the channel reads. -/
def Phase.reads : Phase → Option SegId
  | .reading _ g => some g
  | _ => none

/-- The segment that the channel has mapped. -/
def Phase.seg : Phase → Option SegId
  | .opened _ g => some g
  | .reading _ g => some g
  | _ => none

structure ChannelSystem where
  world : World
  phase : Nat → Phase

def ChannelSystem.init : ChannelSystem := ⟨World.init, fun _ => .idle⟩

def ChannelSystem.setPhase (s : ChannelSystem) (c : Nat) (phase : Phase) : ChannelSystem :=
  { s with phase := Function.update s.phase c phase }

/-- A step of a channel, or the death of a process. A `Bool` says whether the calls of the system
for shared memory and for the lock succeed. -/
inductive ChannelAct where
  | create (c : Nat) (port : UInt32) (shm : Bool)
  | openSegment (c : Nat) (shm : Bool)
  | claim (c : Nat) (locked : Bool)
  | stop (c : Nat)
  | die (p : Pid)

/-- `ClaimOwnership`, with a lock that may fail. -/
def claimLocked (s : World) (g : SegId) (me : Pid) (locked : Bool) : Bool × World :=
  if locked then claimOwnership s g me else (false, s)

variable (pid : Nat → Pid)

/-- One step by a live process; `pid c` is the process of channel `c`. -/
def channelStep (s : ChannelSystem) : ChannelAct → Option ChannelSystem
  | .create c port shm =>
    if !s.world.alive (pid c) then none
    else
      match s.phase c with
      | .idle =>
        if shm && (s.world.names port).isNone then
          let (g, world) := create s.world port
          some ({ s with world := world }.setPhase c (.reading port g))
        else some (s.setPhase c (.opening port))
      | _ => none
  | .openSegment c shm =>
    if !s.world.alive (pid c) then none
    else
      match s.phase c with
      | .opening port =>
        match s.world.names port with
        | some g => some (s.setPhase c (if shm then .opened port g else .idle))
        | none => some (s.setPhase c .idle)
      | _ => none
  | .claim c locked =>
    if !s.world.alive (pid c) then none
    else
      match s.phase c with
      | .opened port g =>
        let (ok, world) := claimLocked s.world g (pid c) locked
        some ({ s with world := world }.setPhase c (if ok then .reading port g else .idle))
      | _ => none
  | .stop c =>
    if !s.world.alive (pid c) then none
    else
      match s.phase c with
      | .reading port _ =>
        some ({ s with world := s.world.setName port none }.setPhase c .idle)
      | _ => none
  | .die p => some { s with world := { s.world with alive := Function.update s.world.alive p false } }

/-- The steps of a constructor that nothing interrupts. -/
def constructorActs (s : ChannelSystem) (c : Nat) (port : UInt32) : List ChannelAct :=
  if (s.world.names port).isNone then [.create c port true]
  else [.create c port true, .openSegment c true, .claim c true]

/-- They do what the constructor does as a whole. -/
theorem exec_constructorActs {s : ChannelSystem} {c : Nat}
    (hlive : s.world.alive (pid c) = true) (hidle : s.phase c = .idle) (locator : Locator) :
    exec (channelStep pid) s (constructorActs s c locator.port) =
      some ({ s with world := (createChannel s.world (pid c) locator true).2 }.setPhase c
        (((createChannel s.world (pid c) locator true).1.map (Phase.reading locator.port)).getD
          .idle)) := by
  unfold constructorActs createChannel
  cases hname : s.world.names locator.port with
  | none =>
    simp [exec_cons, channelStep, hlive, hidle, hname]
  | some g =>
    simp only [Option.isNone_some, Bool.false_eq_true, if_false, Bool.not_true]
    have hclaim : claimLocked s.world g (pid c) true = claimOwnership s.world g (pid c) := rfl
    simp only [exec_cons, exec_nil, channelStep, hlive, hidle, hname, Option.isNone_some,
      Bool.and_false, Bool.not_true, Bool.false_eq_true, if_false, Option.bind_some,
      ChannelSystem.setPhase, Function.update_self, Function.update_idem, if_true, hclaim]
    rcases claimOwnership s.world g (pid c) with ⟨ok, w⟩
    cases ok with
    | false => rfl
    | true => rfl

/-! ## The law and its condition -/

/-- Channel `c` of a live process reads `g`. -/
def Reads (s : ChannelSystem) (c : Nat) (g : SegId) : Prop :=
  s.world.alive (pid c) = true ∧ (s.phase c).reads = some g

/-- **A segment has readers in one live process at most.** -/
def Exclusive (s : ChannelSystem) : Prop :=
  ∀ c d g, Reads pid s c g → Reads pid s d g → pid c = pid d

/-- **A claim takes no segment that another live process reads.** -/
structure ClaimLaw (s : ChannelSystem) (c : Nat) (g : SegId) (locked : Bool) : Prop where
  result : (claimLocked s.world g (pid c) locked).1 = true →
    ∀ d, Reads pid s d g → pid d = pid c
  reset : (claimLocked s.world g (pid c) locked).2 ≠ s.world →
    ∀ d, Reads pid s d g → pid d = pid c
  held : ∀ p, (s.world.segs g).ownerPid = some p → p ≠ pid c → s.world.alive p = true →
    (claimLocked s.world g (pid c) locked).1 = false

def ClaimsLawful (s : ChannelSystem) : ChannelAct → Prop
  | .claim c locked => ∀ port g, s.phase c = .opened port g → ClaimLaw pid s c g locked
  | _ => True

/-- A segment claimed with `owner_pid` 0 has no reader in another live process. -/
def NoUnownedReader (s : ChannelSystem) : ChannelAct → Prop
  | .claim c locked => ∀ port g, s.phase c = .opened port g → locked = true →
      (s.world.segs g).ownerPid = none → ∀ d, Reads pid s d g → pid d = pid c
  | _ => True

/-! ## Claims -/

section Claim

variable {pid} {w : World} {g : SegId} {me : Pid}

theorem claimOwnership_free (h : (w.segs g).ownerPid = none) :
    claimOwnership w g me = (true, w.setBucket g ⟨some me, []⟩) := by
  unfold claimOwnership
  simp only
  rw [h]
  exact if_pos rfl

theorem claimOwnership_own (h : (w.segs g).ownerPid = some me) :
    claimOwnership w g me = (true, w) := by
  unfold claimOwnership
  simp only
  rw [h]
  simp

theorem claimOwnership_dead {p : Pid} (h : (w.segs g).ownerPid = some p) (hne : p ≠ me)
    (hdead : w.alive p = false) :
    claimOwnership w g me = (true, w.setBucket g ⟨some me, []⟩) := by
  unfold claimOwnership
  simp only
  rw [h]
  simp [hne, hdead]

theorem claimOwnership_held {p : Pid} (h : (w.segs g).ownerPid = some p) (hne : p ≠ me)
    (halive : w.alive p = true) : claimOwnership w g me = (false, w) := by
  unfold claimOwnership
  simp only
  rw [h]
  simp [hne, halive]

/-- The four outcomes of a claim. -/
theorem claimOwnership_cases (w : World) (g : SegId) (me : Pid) :
    ((w.segs g).ownerPid = none ∧ claimOwnership w g me = (true, w.setBucket g ⟨some me, []⟩)) ∨
    ((w.segs g).ownerPid = some me ∧ claimOwnership w g me = (true, w)) ∨
    (∃ p, (w.segs g).ownerPid = some p ∧ p ≠ me ∧ w.alive p = false ∧
      claimOwnership w g me = (true, w.setBucket g ⟨some me, []⟩)) ∨
    (∃ p, (w.segs g).ownerPid = some p ∧ p ≠ me ∧ w.alive p = true ∧
      claimOwnership w g me = (false, w)) := by
  cases howner : (w.segs g).ownerPid with
  | none => exact Or.inl ⟨rfl, claimOwnership_free howner⟩
  | some p =>
    by_cases hme : p = me
    · subst hme
      exact Or.inr (Or.inl ⟨rfl, claimOwnership_own howner⟩)
    · cases halive : w.alive p with
      | false =>
        exact Or.inr (Or.inr (Or.inl ⟨p, rfl, hme, halive, claimOwnership_dead howner hme halive⟩))
      | true =>
        exact Or.inr (Or.inr (Or.inr ⟨p, rfl, hme, halive, claimOwnership_held howner hme halive⟩))

end Claim

/-! ## The invariant -/

structure ChannelInv (s : ChannelSystem) : Prop where
  exclusive : Exclusive pid s
  owner : ∀ c g, Reads pid s c g →
    (s.world.segs g).ownerPid = none ∨ (s.world.segs g).ownerPid = some (pid c)
  names : ∀ port g, s.world.names port = some g → g < s.world.next
  mapped : ∀ c g, (s.phase c).seg = some g → g < s.world.next

variable {pid} {s t : ChannelSystem} {c d : Nat} {g : SegId}

theorem channelInv_init : ChannelInv pid ChannelSystem.init where
  exclusive := fun _ _ _ h => by cases h.2
  owner := fun _ _ h => by cases h.2
  names := fun _ _ h => by cases h
  mapped := fun _ _ h => by cases h

theorem Phase.seg_of_reads {phase : Phase} (h : phase.reads = some g) : phase.seg = some g := by
  cases phase with
  | idle => cases h
  | opening port => cases h
  | opened port x => cases h
  | reading port x => exact h

theorem Reads.lt_next (hinv : ChannelInv pid s) (h : Reads pid s c g) : g < s.world.next :=
  hinv.mapped c g (Phase.seg_of_reads h.2)

/-- A reader in the new state is the channel that moved, or it was one before. -/
theorem Reads.of_setPhase {phase : Phase} {world : World} (halive : world.alive = s.world.alive)
    (h : Reads pid ({ s with world := world }.setPhase c phase) d g) :
    (d = c ∧ phase.reads = some g) ∨ (d ≠ c ∧ Reads pid s d g) := by
  obtain ⟨hlive, hreads⟩ := h
  change (Function.update s.phase c phase d).reads = some g at hreads
  by_cases hd : d = c
  · subst hd
    rw [Function.update_self] at hreads
    exact Or.inl ⟨rfl, hreads⟩
  · rw [Function.update_of_ne hd] at hreads
    exact Or.inr ⟨hd, halive ▸ hlive, hreads⟩

/-- A channel that moves on without reading, to a segment that exists. -/
theorem ChannelInv.setPhase (hinv : ChannelInv pid s) {phase : Phase}
    (hreads : phase.reads = none) (hseg : ∀ g, phase.seg = some g → g < s.world.next) :
    ChannelInv pid (s.setPhase c phase) where
  exclusive := by
    intro d e g hd he
    rcases Reads.of_setPhase rfl hd with ⟨-, hnew⟩ | ⟨-, hd⟩
    · rw [hreads] at hnew
      cases hnew
    · rcases Reads.of_setPhase rfl he with ⟨-, hnew⟩ | ⟨-, he⟩
      · rw [hreads] at hnew
        cases hnew
      · exact hinv.exclusive d e g hd he
  owner := by
    intro d g hd
    rcases Reads.of_setPhase rfl hd with ⟨-, hnew⟩ | ⟨-, hd⟩
    · rw [hreads] at hnew
      cases hnew
    · exact hinv.owner d g hd
  names := hinv.names
  mapped := by
    intro d g hd
    change (Function.update s.phase c phase d).seg = some g at hd
    by_cases hdc : d = c
    · rw [hdc, Function.update_self] at hd
      exact hseg g hd
    · rw [Function.update_of_ne hdc] at hd
      exact hinv.mapped d g hd

/-- A name that is removed, and a process that dies, only take readers away. -/
theorem ChannelInv.setName (hinv : ChannelInv pid s) (port : UInt32) :
    ChannelInv pid { s with world := s.world.setName port none } where
  exclusive := hinv.exclusive
  owner := hinv.owner
  names := by
    intro p g hp
    change Function.update s.world.names port none p = some g at hp
    by_cases hport : p = port
    · rw [hport, Function.update_self] at hp
      cases hp
    · rw [Function.update_of_ne hport] at hp
      exact hinv.names p g hp
  mapped := hinv.mapped

theorem Reads.of_die {p : Pid} {alive : Pid → Bool}
    (halive : alive = Function.update s.world.alive p false)
    (h : Reads pid { s with world := { s.world with alive := alive } } c g) : Reads pid s c g := by
  obtain ⟨hlive, hreads⟩ := h
  subst halive
  change Function.update s.world.alive p false (pid c) = true at hlive
  by_cases hp : pid c = p
  · rw [hp, Function.update_self] at hlive
    cases hlive
  · rw [Function.update_of_ne hp] at hlive
    exact ⟨hlive, hreads⟩

theorem ChannelInv.die (hinv : ChannelInv pid s) (p : Pid) :
    ChannelInv pid
      { s with world := { s.world with alive := Function.update s.world.alive p false } } where
  exclusive := fun c d g hc hd => hinv.exclusive c d g (Reads.of_die rfl hc) (Reads.of_die rfl hd)
  owner := fun c g hc => hinv.owner c g (Reads.of_die rfl hc)
  names := hinv.names
  mapped := hinv.mapped

/-- The creator of a segment is its only reader, and the segment has no owner. -/
theorem ChannelInv.create (hinv : ChannelInv pid s) (c : Nat) (port : UInt32) :
    ChannelInv pid ({ s with world := (create s.world port).2 }.setPhase c
      (.reading port (create s.world port).1)) where
  exclusive := by
    intro d e g hd he
    rcases Reads.of_setPhase rfl hd with ⟨rfl, hnew⟩ | ⟨-, hold⟩
    · rcases Reads.of_setPhase rfl he with ⟨rfl, -⟩ | ⟨-, hold⟩
      · rfl
      · cases hnew
        exact absurd (hold.lt_next hinv) (Nat.lt_irrefl _)
    · rcases Reads.of_setPhase rfl he with ⟨rfl, hnew⟩ | ⟨-, hold'⟩
      · cases hnew
        exact absurd (hold.lt_next hinv) (Nat.lt_irrefl _)
      · exact hinv.exclusive d e g hold hold'
  owner := by
    intro d g hd
    show (Function.update s.world.segs s.world.next ⟨none, []⟩ g).ownerPid = none ∨ _
    rcases Reads.of_setPhase rfl hd with ⟨-, hnew⟩ | ⟨-, hd⟩
    · cases hnew
      left
      show (Function.update s.world.segs s.world.next ⟨none, []⟩ s.world.next).ownerPid = none
      rw [Function.update_self]
    · have hne : g ≠ s.world.next := Nat.ne_of_lt (hd.lt_next hinv)
      show _ ∨ (Function.update s.world.segs s.world.next ⟨none, []⟩ g).ownerPid = _
      rw [Function.update_of_ne hne]
      exact hinv.owner d g hd
  names := by
    intro p g hp
    change Function.update s.world.names port (some s.world.next) p = some g at hp
    show g < s.world.next + 1
    by_cases hport : p = port
    · rw [hport, Function.update_self] at hp
      cases hp
      exact Nat.lt_succ_self _
    · rw [Function.update_of_ne hport] at hp
      exact Nat.lt_succ_of_lt (hinv.names p g hp)
  mapped := by
    intro d g hd
    change (Function.update s.phase c (.reading port s.world.next) d).seg = some g at hd
    show g < s.world.next + 1
    by_cases hdc : d = c
    · rw [hdc, Function.update_self] at hd
      cases hd
      exact Nat.lt_succ_self _
    · rw [Function.update_of_ne hdc] at hd
      exact Nat.lt_succ_of_lt (hinv.mapped d g hd)

/-- A channel becomes a reader when all live readers are of its process, which is then the owner. -/
theorem ChannelInv.take (hinv : ChannelInv pid s) {port : UInt32} {world : World}
    (hg : g < s.world.next) (howner : (world.segs g).ownerPid = some (pid c))
    (hsegs : ∀ x, x ≠ g → world.segs x = s.world.segs x) (hnames : world.names = s.world.names)
    (hnext : world.next = s.world.next) (halive : world.alive = s.world.alive)
    (hreaders : ∀ d, Reads pid s d g → pid d = pid c) :
    ChannelInv pid ({ s with world := world }.setPhase c (.reading port g)) where
  exclusive := by
    intro d e x hd he
    rcases Reads.of_setPhase halive hd with ⟨rfl, hnew⟩ | ⟨-, hold⟩
    · cases hnew
      rcases Reads.of_setPhase halive he with ⟨rfl, -⟩ | ⟨-, hold⟩
      · rfl
      · exact (hreaders e hold).symm
    · rcases Reads.of_setPhase halive he with ⟨rfl, hnew⟩ | ⟨-, hold'⟩
      · cases hnew
        exact hreaders d hold
      · exact hinv.exclusive d e x hold hold'
  owner := by
    intro d x hd
    show (world.segs x).ownerPid = none ∨ (world.segs x).ownerPid = some (pid d)
    rcases Reads.of_setPhase halive hd with ⟨rfl, hnew⟩ | ⟨-, hold⟩
    · cases hnew
      exact Or.inr howner
    · by_cases hx : x = g
      · subst hx
        rw [hreaders d hold]
        exact Or.inr howner
      · rw [hsegs x hx]
        exact hinv.owner d x hold
  names := by
    intro p x hp
    change world.names p = some x at hp
    rw [hnames] at hp
    exact hnext ▸ hinv.names p x hp
  mapped := by
    intro d x hd
    change (Function.update s.phase c (.reading port g) d).seg = some x at hd
    show x < world.next
    rw [hnext]
    by_cases hdc : d = c
    · rw [hdc, Function.update_self] at hd
      cases hd
      exact hg
    · rw [Function.update_of_ne hdc] at hd
      exact hinv.mapped d x hd

/-! ## The steps -/

/-- When a claim succeeds under the condition, all live readers are of the process that claims. -/
theorem readers_of_claim (hinv : ChannelInv pid s) {port : UInt32} {locked : Bool}
    (hphase : s.phase c = .opened port g) (hc : NoUnownedReader pid s (.claim c locked))
    (hok : (claimLocked s.world g (pid c) locked).1 = true) (d : Nat) (hd : Reads pid s d g) :
    pid d = pid c := by
  cases locked with
  | false => cases hok
  | true =>
    rcases claimOwnership_cases s.world g (pid c) with
      ⟨hnone, -⟩ | ⟨hown, -⟩ | ⟨p, hp, -, hdead, -⟩ | ⟨p, -, -, -, hclaim⟩
    · exact hc port g hphase rfl hnone d hd
    · rcases hinv.owner d g hd with hnone | hsome
      · rw [hown] at hnone
        cases hnone
      · rw [hown] at hsome
        exact (Option.some.inj hsome).symm
    · -- the owner is dead, and every live reader is the owner
      exfalso
      rcases hinv.owner d g hd with hnone | hsome
      · rw [hp] at hnone
        cases hnone
      · rw [hp] at hsome
        cases hsome
        exact absurd (hdead.symm.trans hd.1) Bool.false_ne_true
    · change (claimOwnership s.world g (pid c)).1 = true at hok
      rw [hclaim] at hok
      cases hok

/-- A claim that fails changes nothing. -/
theorem claimLocked_false {w : World} {me : Pid} {locked : Bool}
    (h : (claimLocked w g me locked).1 = false) : (claimLocked w g me locked).2 = w := by
  cases locked with
  | false => rfl
  | true =>
    change (claimOwnership w g me).1 = false at h
    show (claimOwnership w g me).2 = w
    rcases claimOwnership_cases w g me with ⟨-, hclaim⟩ | ⟨-, hclaim⟩ | ⟨p, -, -, -, hclaim⟩ |
      ⟨p, -, -, -, hclaim⟩
    · rw [hclaim] at h
      cases h
    · rw [hclaim]
    · rw [hclaim] at h
      cases h
    · rw [hclaim]

/-- What a successful claim leaves: the caller owns the segment, and the rest is as before. -/
theorem claimLocked_true {w : World} {me : Pid} {locked : Bool}
    (h : (claimLocked w g me locked).1 = true) :
    ((claimLocked w g me locked).2.segs g).ownerPid = some me ∧
      (∀ x, x ≠ g → (claimLocked w g me locked).2.segs x = w.segs x) ∧
      (claimLocked w g me locked).2.names = w.names ∧
      (claimLocked w g me locked).2.next = w.next ∧
      (claimLocked w g me locked).2.alive = w.alive := by
  have hset : ((w.setBucket g ⟨some me, []⟩).segs g).ownerPid = some me ∧
      ∀ x, x ≠ g → (w.setBucket g ⟨some me, []⟩).segs x = w.segs x := by
    constructor
    · show (Function.update w.segs g _ g).ownerPid = some me
      rw [Function.update_self]
    · intro x hx
      exact Function.update_of_ne hx _ _
  cases locked with
  | false => cases h
  | true =>
    change (claimOwnership w g me).1 = true at h
    show ((claimOwnership w g me).2.segs g).ownerPid = some me ∧
      (∀ x, x ≠ g → (claimOwnership w g me).2.segs x = w.segs x) ∧
      (claimOwnership w g me).2.names = w.names ∧ (claimOwnership w g me).2.next = w.next ∧
      (claimOwnership w g me).2.alive = w.alive
    rcases claimOwnership_cases w g me with ⟨-, hclaim⟩ | ⟨hown, hclaim⟩ | ⟨p, -, -, -, hclaim⟩ |
      ⟨p, -, -, -, hclaim⟩
    · rw [hclaim]
      exact ⟨hset.1, hset.2, rfl, rfl, rfl⟩
    · rw [hclaim]
      exact ⟨hown, fun _ _ => rfl, rfl, rfl, rfl⟩
    · rw [hclaim]
      exact ⟨hset.1, hset.2, rfl, rfl, rfl⟩
    · rw [hclaim] at h
      cases h

theorem channelStep_inv {a : ChannelAct} (hinv : ChannelInv pid s)
    (hstep : channelStep pid s a = some t) (hc : NoUnownedReader pid s a) : ChannelInv pid t := by
  cases a with
  | create c port shm =>
    simp only [channelStep] at hstep
    split at hstep
    · cases hstep
    · split at hstep
      · split at hstep
        · cases hstep
          exact hinv.create c port
        · cases hstep
          exact hinv.setPhase rfl fun _ h => by cases h
      · cases hstep
  | openSegment c shm =>
    simp only [channelStep] at hstep
    split at hstep
    · cases hstep
    · split at hstep
      · rename_i port hphase
        split at hstep
        · rename_i g hname
          cases hstep
          refine hinv.setPhase ?_ ?_
          · cases shm <;> rfl
          · intro x hx
            cases shm with
            | false => cases hx
            | true =>
              cases hx
              exact hinv.names port g hname
        · cases hstep
          exact hinv.setPhase rfl fun _ h => by cases h
      · cases hstep
  | claim c locked =>
    simp only [channelStep] at hstep
    split at hstep
    · cases hstep
    · split at hstep
      · rename_i port g hphase
        cases hstep
        cases hok : (claimLocked s.world g (pid c) locked).1 with
        | false =>
          rw [claimLocked_false hok]
          exact hinv.setPhase rfl fun _ h => by cases h
        | true =>
          obtain ⟨howner, hsegs, hnames, hnext, halive⟩ := claimLocked_true hok
          exact hinv.take (hinv.mapped c g (by rw [hphase]; rfl)) howner hsegs hnames hnext halive
            (readers_of_claim hinv hphase hc hok)
      · cases hstep
  | stop c =>
    simp only [channelStep] at hstep
    split at hstep
    · cases hstep
    · split at hstep
      · rename_i port g hphase
        cases hstep
        exact (hinv.setName port).setPhase rfl fun _ h => by cases h
      · cases hstep
  | die p =>
    cases hstep
    exact hinv.die p

/-- Under the condition a claim is lawful. -/
theorem claimsLawful_of_step {a : ChannelAct} (hinv : ChannelInv pid s)
    (hc : NoUnownedReader pid s a) : ClaimsLawful pid s a := by
  cases a with
  | create c port shm => trivial
  | openSegment c shm => trivial
  | stop c => trivial
  | die p => trivial
  | claim c locked =>
    intro port g hphase
    refine ⟨readers_of_claim hinv hphase hc, fun hchanged => ?_, fun p hp hne halive => ?_⟩
    · refine readers_of_claim hinv hphase hc ?_
      by_contra hfail
      exact hchanged (claimLocked_false (eq_false_of_ne_true hfail))
    · cases locked with
      | false => rfl
      | true =>
        show (claimOwnership s.world g (pid c)).1 = false
        rw [claimOwnership_held hp hne halive]

/-- Behind a claim of a segment without owner, its readers and the caller are readers together. -/
theorem noUnownedReader_of_exclusive {a : ChannelAct} (hstep : channelStep pid s a = some t)
    (ht : Exclusive pid t) : NoUnownedReader pid s a := by
  cases a with
  | create c port shm => trivial
  | openSegment c shm => trivial
  | stop c => trivial
  | die p => trivial
  | claim c locked =>
    rintro port g hphase rfl hnone d hd
    simp only [channelStep] at hstep
    split at hstep
    · cases hstep
    · rename_i hlive
      have hlive : s.world.alive (pid c) = true := by simpa using hlive
      split at hstep
      · rename_i port' g' hphase'
        cases hphase.symm.trans hphase'
        change some ({ s with world := (claimOwnership s.world g (pid c)).2 }.setPhase c
          (if (claimOwnership s.world g (pid c)).1 = true then .reading port g else .idle))
          = some t at hstep
        rw [claimOwnership_free hnone] at hstep
        cases hstep
        by_cases hdc : d = c
        · rw [hdc]
        · refine ht d c g ⟨hd.1, ?_⟩ ⟨hlive, ?_⟩
          · show (Function.update s.phase c _ d).reads = some g
            rw [Function.update_of_ne hdc]
            exact hd.2
          · show (Function.update s.phase c _ c).reads = some g
            rw [Function.update_self]
            rfl
      · cases hstep

variable (pid)

/--
**Ownership.** In a run no segment ever has readers in two live processes, and every claim is lawful, if
and only if no claim of a segment with `owner_pid` 0 finds a reader in another live process.
-/
theorem ownership_iff (as : List ChannelAct) :
    (AllStates (channelStep pid) (Exclusive pid) ChannelSystem.init as ∧
        AllSteps (channelStep pid) (ClaimsLawful pid) ChannelSystem.init as) ↔
      AllSteps (channelStep pid) (NoUnownedReader pid) ChannelSystem.init as := by
  have hiff : AllStates (channelStep pid) (Exclusive pid) ChannelSystem.init as ↔
      AllSteps (channelStep pid) (NoUnownedReader pid) ChannelSystem.init as :=
    allStates_iff_allSteps (ChannelInv pid) (fun _ h => h.exclusive)
    (fun _ _ _ hinv hstep hc => channelStep_inv hinv hstep hc)
    (fun _ _ _ _ hstep ht => noUnownedReader_of_exclusive hstep ht) as ChannelSystem.init
    channelInv_init
  constructor
  · intro h
    exact hiff.mp h.1
  · intro h
    exact ⟨hiff.mpr h, allSteps_of_allSteps (ChannelInv pid)
      (fun _ _ _ hinv hstep hc => channelStep_inv hinv hstep hc)
      (fun _ _ _ hinv _ hc => claimsLawful_of_step hinv hc) as ChannelSystem.init channelInv_init h⟩

/-- Process 0 creates the segment of port 7 and reads it; process 1 opens and claims it. -/
def takenFromCreator : List ChannelAct :=
  [.create 0 7 true, .create 1 7 true, .openSegment 1 true, .claim 1 true]

/-- Both processes live, and both read the segment. -/
theorem ownership_fails_taken_from_creator :
    ¬ AllStates (channelStep id) (Exclusive id) ChannelSystem.init takenFromCreator := by
  intro h
  have hrun : ∃ t, exec (channelStep id) ChannelSystem.init takenFromCreator = some t ∧
      Reads id t 0 0 ∧ Reads id t 1 0 := by
    refine ⟨_, rfl, ⟨rfl, rfl⟩, ⟨rfl, rfl⟩⟩
  obtain ⟨t, ht, h0, h1⟩ := hrun
  have hsame := h.last ht 0 1 0 h0 h1
  revert hsame
  decide

end Dts.Transport
