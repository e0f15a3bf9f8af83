import Dts.Agent.PingPong
import Dts.Routing.TaskActive

/-!
# From the agent to the data thread

`agentReaderLoop` flips the ping-pong buffer again and again and publishes what it gets as one
message. The data thread takes every message for one raw frame. The buffer keeps no lengths, so two
frames between two flips come out as one.

`framesKept_iff` says for which runs every accepted frame is processed as a frame of its own.
-/

namespace Dts.Agent

open Infra Data Routing

/-! ## The calls of the data thread -/

/-- The arguments of a call of `DataFactory::Process`, and the key that it works out of them. -/
structure ProcessCall where
  rawData : Bytes
  len : UInt32
  dataType : UInt16
  key : UInt64
  deriving DecidableEq

/-- The call for one frame. -/
def processCall (frame : Bytes) : ProcessCall :=
  let dataType := UInt16.ofNat (leNat (slice frame 0 2))
  { rawData := frame
    len := UInt32.ofNat frame.length
    dataType := dataType
    key := extractRawKey dataType (rawFrameOf frame) }

/-- `OnAgentData` on a message of the agent. -/
def onAgentData (msg : Bytes) : Option ProcessCall :=
  if (UInt32.ofNat msg.length).toNat < 2 then none else some (processCall msg)

/-- What the factory does on a call. -/
def ProcessCall.run (us : UInt64) (f : DataFactory) (c : ProcessCall) : DataFactory :=
  (f.process (rawFrameOf c.rawData) c.dataType us).2

/-- The data thread runs the call that `OnAgentData` makes of the message. -/
theorem dataThreadStep_agentData (us : UInt64) (f : DataFactory) (msg : Bytes) (hne : msg ≠ []) :
    dataThreadStep us f ⟨msgIdAgentData, sessionInstData, some msg⟩
      = ((onAgentData msg).map (ProcessCall.run us f)).getD f := by
  have hdispatch : ∀ (p : Option Bytes) (n : UInt32),
      dataMsgHandlerDispatch kDataGroups sessionInstData msgIdAgentData p n
        = [.handler ⟨.onAgentData, p, n⟩] := fun _ _ => rfl
  have hpayload : (some msg).filter (fun bs => !bs.isEmpty) = some msg := by
    simpa using hne
  unfold dataThreadStep
  rw [hpayload]
  simp only [hdispatch, List.foldl_cons, List.foldl_nil, Option.getD_some]
  show dataOnAgentData f (some msg) (UInt32.ofNat msg.length) us = _
  unfold dataOnAgentData onAgentData
  simp only
  split
  · rfl
  · rfl

/-- A sequence of messages of the agent makes the calls that `OnAgentData` makes of each. -/
theorem foldl_dataThreadStep (us : UInt64) (msgs : List Bytes) (hne : ∀ msg ∈ msgs, msg ≠ [])
    (f : DataFactory) :
    msgs.foldl (fun f msg => dataThreadStep us f ⟨msgIdAgentData, sessionInstData, some msg⟩) f
      = (msgs.filterMap onAgentData).foldl (ProcessCall.run us) f := by
  induction msgs generalizing f with
  | nil => rfl
  | cons msg msgs ih =>
    rw [List.foldl_cons, dataThreadStep_agentData us f msg (hne msg List.mem_cons_self),
      ih fun m hm => hne m (List.mem_cons_of_mem msg hm)]
    cases hcall : onAgentData msg with
    | none => simp only [List.filterMap_cons, hcall, Option.map_none, Option.getD_none]
    | some c =>
      simp only [List.filterMap_cons, hcall, Option.map_some, Option.getD_some, List.foldl_cons]

/-! ## Writes and flips -/

/-- The buffer of the reader loop. -/
def kAgentBufSize : Cap := ⟨64 * 1024, by decide⟩

/--
The buffer, the calls made so far, the accepted frames taken out by a flip, and those still waiting.
`overrun` says that a copy has left its face.
-/
structure AgentState where
  buf : PingPongBuffer
  calls : List ProcessCall
  taken : List Bytes
  pending : List Bytes
  overrun : Bool

def AgentState.init : AgentState := ⟨.init, [], [], [], false⟩

inductive Op where
  | write (p : Payload)
  | readerLoop

/-- The write passes the test only because the sum of offset and length overflows. -/
def PingPongBuffer.overflows (b : PingPongBuffer) (p : Payload) : Bool :=
  !b.refuses b.cur p && kPingPongSize < (b.off b.cur).toNat + p.bytes.length

/-- A write, or one turn of the reader loop with the publication of what it has read. -/
def agentStep (s : AgentState) : Op → Option AgentState
  | .write p =>
    if s.overrun then none
    else if s.buf.overflows p then some { s with overrun := true }
    else
      let (ok, buf) := s.buf.write p
      some { s with buf := buf, pending := if ok then s.pending ++ [p.bytes] else s.pending }
  | .readerLoop =>
    if s.overrun then none
    else
      let (out, buf) := s.buf.readAndFlip kAgentBufSize
      let calls := if out.isEmpty then s.calls else s.calls ++ (onAgentData out).toList
      some { s with
        buf := buf
        calls := calls
        taken := s.taken ++ s.pending
        pending := [] }

/-! ## The law and its condition -/

/-- **Every frame taken out has its own call**, and no copy has left its face. -/
structure FramesKept (s : AgentState) : Prop where
  inBounds : s.overrun = false
  calls : s.calls = s.taken.map processCall

/-- A write does not overflow, and a flip finds at most one frame, of at least two bytes. -/
def oneFrame (s : AgentState) : Op → Bool
  | .write p => !s.buf.overflows p
  | .readerLoop =>
    match s.pending with
    | [] => true
    | [frame] => 2 ≤ frame.length
    | _ => false

/-! ## The invariant -/

structure AgentInv (s : AgentState) : Prop where
  kept : FramesKept s
  settled : s.buf.Settled
  pending : s.buf.content s.buf.cur = s.pending.flatten
  nonempty : ∀ frame ∈ s.pending, frame ≠ []

theorem agentInv_init : AgentInv AgentState.init where
  kept := ⟨rfl, rfl⟩
  settled := PingPongBuffer.settled_init
  pending := rfl
  nonempty := fun _ h => absurd h List.not_mem_nil

/-- The waiting frames fit into one face. -/
theorem AgentInv.length_pending {s : AgentState} (h : AgentInv s) :
    s.pending.flatten.length ≤ kPingPongSize := by
  rw [← h.pending, PingPongBuffer.length_content]
  exact h.settled.size _

theorem onAgentData_frame {frame : Bytes} (h2 : 2 ≤ frame.length)
    (hmax : frame.length ≤ kPingPongSize) : onAgentData frame = some (processCall frame) := by
  have hsize : kPingPongSize < 2 ^ 32 := by decide
  unfold onAgentData
  rw [UInt32.toNat_ofNat', Nat.mod_eq_of_lt (by omega), if_neg (by omega)]

theorem onAgentData_short {msg : Bytes} (h : msg.length < 2) : onAgentData msg = none := by
  unfold onAgentData
  rw [UInt32.toNat_ofNat', Nat.mod_eq_of_lt (by omega), if_pos h]

/-- An accepted payload is not empty. -/
theorem ne_nil_of_not_refuses {b : PingPongBuffer} {idx : Face} {p : Payload}
    (h : b.refuses idx p = false) : p.bytes ≠ [] := by
  intro hnil
  unfold PingPongBuffer.refuses Payload.len at h
  rw [hnil] at h
  cases h

theorem write_inv {s t : AgentState} {p : Payload} (hinv : AgentInv s)
    (h : agentStep s (.write p) = some t) (hc : oneFrame s (.write p) = true) : AgentInv t := by
  have hover : s.buf.overflows p = false := by simpa [oneFrame] using hc
  simp only [agentStep, hinv.kept.inBounds, hover, Bool.false_eq_true, if_false] at h
  by_cases hrefuse : s.buf.refuses s.buf.cur p = true
  · rw [PingPongBuffer.write_refused hrefuse] at h
    cases h
    exact ⟨⟨rfl, hinv.kept.calls⟩, hinv.settled, hinv.pending, hinv.nonempty⟩
  · have haccept := eq_false_of_ne_true hrefuse
    have hsize : (s.buf.off s.buf.cur).toNat + p.bytes.length < 2 ^ 32 := by
      have hfit : (s.buf.off s.buf.cur).toNat + p.bytes.length ≤ kPingPongSize := by
        simpa [PingPongBuffer.overflows, haccept] using hover
      exact Nat.lt_of_le_of_lt hfit (by decide)
    obtain ⟨hok, hsettled, hcontent⟩ := PingPongBuffer.write_accepted hinv.settled haccept hsize
    cases h
    refine ⟨⟨rfl, hinv.kept.calls⟩, hsettled, ?_, ?_⟩
    · show (s.buf.write p).2.content (s.buf.write p).2.cur
        = (if (s.buf.write p).1 = true then s.pending ++ [p.bytes] else s.pending).flatten
      rw [if_pos hok, hcontent, hinv.pending, List.flatten_append, List.flatten_singleton]
    · show ∀ frame ∈ (if (s.buf.write p).1 = true then s.pending ++ [p.bytes] else s.pending), _
      rw [if_pos hok]
      intro frame hframe
      rcases List.mem_append.mp hframe with hold | hnew
      · exact hinv.nonempty frame hold
      · rw [List.mem_singleton.mp hnew]
        exact ne_nil_of_not_refuses haccept

/-- What one turn of the reader loop leaves behind. -/
theorem readerLoop_eq {s t : AgentState} (hinv : AgentInv s)
    (h : agentStep s .readerLoop = some t) :
    t.buf.Settled ∧ t.buf.content t.buf.cur = [] ∧ t.pending = [] ∧ t.overrun = false ∧
      t.taken = s.taken ++ s.pending ∧
      t.calls = s.calls ++ if s.pending = [] then [] else (onAgentData s.pending.flatten).toList := by
  obtain ⟨hout, hsettled, hempty⟩ :=
    PingPongBuffer.readAndFlip_settled hinv.settled kAgentBufSize
  simp only [agentStep, hinv.kept.inBounds, Bool.false_eq_true, if_false] at h
  cases h
  refine ⟨hsettled, hempty, rfl, rfl, rfl, ?_⟩
  show (if (s.buf.readAndFlip kAgentBufSize).1.isEmpty = true then s.calls
    else s.calls ++ (onAgentData (s.buf.readAndFlip kAgentBufSize).1).toList) = _
  rw [hout, hinv.pending]
  cases hpending : s.pending with
  | nil => simp
  | cons frame rest =>
    have hne : frame ≠ [] := hinv.nonempty frame (by rw [hpending]; exact List.mem_cons_self)
    have hout : (frame :: rest).flatten.isEmpty = false := by simp [hne]
    rw [hout, if_neg (List.cons_ne_nil _ _)]
    rfl

theorem readerLoop_inv {s t : AgentState} (hinv : AgentInv s)
    (h : agentStep s .readerLoop = some t) (hc : oneFrame s .readerLoop = true) : AgentInv t := by
  obtain ⟨hsettled, hempty, hpending, hover, htaken, hcalls⟩ := readerLoop_eq hinv h
  have hlen := hinv.length_pending
  refine ⟨⟨hover, ?_⟩, hsettled, ?_, ?_⟩
  · rw [hcalls, htaken, hinv.kept.calls, List.map_append]
    simp only [oneFrame] at hc
    split at hc
    · rename_i hnil
      rw [hnil]
      rfl
    · rename_i frame hone
      rw [hone, List.flatten_singleton] at hlen ⊢
      rw [if_neg (List.cons_ne_nil _ _), onAgentData_frame (of_decide_eq_true hc) hlen]
      rfl
    · cases hc
  · rw [hempty, hpending]
    rfl
  · rw [hpending]
    exact fun _ h => absurd h List.not_mem_nil

theorem agentStep_inv {s t : AgentState} {o : Op} (hinv : AgentInv s)
    (h : agentStep s o = some t) (hc : oneFrame s o = true) : AgentInv t := by
  cases o with
  | write p => exact write_inv hinv h hc
  | readerLoop => exact readerLoop_inv hinv h hc

/-- When the law still holds behind a step, the step met the condition. -/
theorem oneFrame_of_kept {s t : AgentState} {o : Op} (hinv : AgentInv s)
    (h : agentStep s o = some t) (hkept : FramesKept t) : oneFrame s o = true := by
  cases o with
  | write p =>
    by_contra hover
    have hover : s.buf.overflows p = true := by simpa [oneFrame] using hover
    simp only [agentStep, hinv.kept.inBounds, hover, Bool.false_eq_true, if_false, if_true] at h
    cases h
    cases hkept.inBounds
  | readerLoop =>
    obtain ⟨-, -, -, -, htaken, hcalls⟩ := readerLoop_eq hinv h
    have hlen := congrArg List.length (hcalls.symm.trans hkept.calls)
    rw [htaken, hinv.kept.calls, List.length_append, List.length_map, List.length_map,
      List.length_append] at hlen
    -- a message makes at most one call
    have hone : (onAgentData s.pending.flatten).toList.length ≤ 1 := by
      cases onAgentData s.pending.flatten with
      | none => exact Nat.zero_le 1
      | some c => exact le_refl 1
    unfold oneFrame
    simp only
    split
    · rfl
    · rename_i frame hpending
      rw [hpending, if_neg (List.cons_ne_nil _ _), List.flatten_singleton] at hlen
      refine decide_eq_true ?_
      by_contra hshort
      rw [onAgentData_short (by omega)] at hlen
      simp at hlen
    · rename_i hnil hsingle
      exfalso
      match hpending : s.pending with
      | [] => exact hnil hpending
      | [frame] => exact hsingle frame hpending
      | _ :: _ :: rest =>
        rw [hpending] at hlen hone
        rw [if_neg (List.cons_ne_nil _ _), List.length_cons, List.length_cons] at hlen
        omega

/--
**Framing.** In a run of writes and flips every frame taken out of the buffer is processed by a call of
its own if and only if no write overflows, and every flip finds at most one frame, which has at least
two bytes.
-/
theorem framesKept_iff (ops : List Op) :
    AllStates agentStep FramesKept AgentState.init ops ↔
      AllSteps agentStep (fun s o => oneFrame s o = true) AgentState.init ops :=
  allStates_iff_allSteps AgentInv (fun _ h => h.kept)
    (fun _ _ _ hinv h hc => agentStep_inv hinv h hc)
    (fun _ _ _ hinv h hkept => oneFrame_of_kept hinv h hkept) ops AgentState.init agentInv_init

/-- A frame of dataType 1 for one cell, without slices. -/
def headOf (cellId : UInt8) : Payload := ⟨[1, 0, cellId, 0, 0, 0, 0, 0, 0, 0], by simp⟩

/-- The frames of the cells 1 and 2 between two flips are processed as one frame of cell 1. -/
theorem framesKept_fails_two_frames :
    ((exec agentStep AgentState.init [.write (headOf 1), .write (headOf 2), .readerLoop]).map
        fun s => (s.taken, s.calls.map (·.rawData)))
      = some ([(headOf 1).bytes, (headOf 2).bytes], [(headOf 1).bytes ++ (headOf 2).bytes]) ∧
      ¬ AllStates agentStep FramesKept AgentState.init
        [.write (headOf 1), .write (headOf 2), .readerLoop] := by
  have hrun : ((exec agentStep AgentState.init
      [.write (headOf 1), .write (headOf 2), .readerLoop]).map
        fun s => (s.taken, s.calls.map (·.rawData)))
      = some ([(headOf 1).bytes, (headOf 2).bytes], [(headOf 1).bytes ++ (headOf 2).bytes]) := by
    decide
  refine ⟨hrun, ?_⟩
  intro h
  obtain ⟨s, hs, hvals⟩ := Option.map_eq_some_iff.mp hrun
  obtain ⟨htaken, hcalls⟩ := Prod.mk.inj hvals
  have hkept := (h.last hs).calls
  have hlen := congrArg List.length hcalls
  rw [hkept, htaken] at hlen
  cases hlen

end Dts.Agent
