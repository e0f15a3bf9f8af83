import Dts.Routing.MsgTable
import Dts.Data.Factory

/-!
# Task activation from the task thread to the data thread

`task_msg_handler.cpp` and `data_msg_handler.cpp`. The task thread enters a task and forwards the
message it got, a `TaskActiveMsg`, to the data thread. The handler of the data thread reads the
same bytes as a `TaskRequest`: the task id takes in the type, and the status is made of the count
and the first dataId.

`taskActive_agrees_iff` says for which messages the two readings agree.
-/

namespace Dts.Routing

open Infra Data

/-! ## The two structures -/

/-- Six fields of two bytes at 0, 2, 4 and eight of them from 6. -/
structure TaskActiveMsg where
  taskId : UInt16
  type : UInt16
  dataIdCount : UInt16
  dataIds : Fin 8 → UInt16

def sizeofTaskActiveMsg : Nat := 22

/-- `memcpy` of a `TaskActiveMsg` from the start of a byte string. -/
def TaskActiveMsg.read (bs : Bytes) : TaskActiveMsg where
  taskId := UInt16.ofNat (leNat (slice bs 0 2))
  type := UInt16.ofNat (leNat (slice bs 2 2))
  dataIdCount := UInt16.ofNat (leNat (slice bs 4 2))
  dataIds := fun i => UInt16.ofNat (leNat (slice bs (6 + 2 * i) 2))

/-- Two fields of four bytes. -/
structure TaskRequest where
  taskId : UInt32
  status : UInt32

def sizeofTaskRequest : Nat := 8

/-- And of a `TaskRequest`. -/
def TaskRequest.read (bs : Bytes) : TaskRequest where
  taskId := UInt32.ofNat (leNat (slice bs 0 4))
  status := UInt32.ofNat (leNat (slice bs 4 4))

/-! ## The task thread -/

/-- What `TaskManager` keeps of a task. -/
structure TaskConfig where
  taskId : UInt16
  type : UInt16
  dataIds : List UInt16

/-- `TaskManager` refuses a task when it has this many. -/
def kMaxTasks : Nat := 64

/-- The tasks by id. -/
abbrev TaskManager := List (UInt16 × TaskConfig)

/-- Enter a task. `false` when the table is full or the id is taken. -/
def TaskManager.add (mgr : TaskManager) (cfg : TaskConfig) : Bool × TaskManager :=
  if kMaxTasks ≤ mgr.length || (mgr.lookup cfg.taskId).isSome then (false, mgr)
  else (true, (cfg.taskId, cfg) :: mgr)

/-- The full triple that a message is routed by. -/
structure Endpoint where
  sessionType : CStr
  sessionInst : CStr
  msgId : UInt32
  deriving DecidableEq

/-- Where the task thread forwards an activation. -/
def dataTaskActiveEndpoint : Endpoint := ⟨sessionTypeDts, sessionInstData, msgIdDataTaskActive⟩

/-- `OnTaskActive` of the task thread: the new table, and the message it publishes internally. -/
def taskOnTaskActive (mgr : TaskManager) (data : Option Bytes) (len : UInt32) :
    TaskManager × Option (Endpoint × Option Bytes × UInt32) :=
  match data with
  | none => (mgr, none)
  | some bs =>
    if len.toNat < sizeofTaskActiveMsg then (mgr, none)
    else
      let m := TaskActiveMsg.read bs
      if 8 < m.dataIdCount then (mgr, none)
      else
        let cfg : TaskConfig :=
          ⟨m.taskId, m.type, ((List.finRange 8).map m.dataIds).take m.dataIdCount.toNat⟩
        let (ok, mgr) := mgr.add cfg
        if ok then (mgr, some (dataTaskActiveEndpoint, data, len)) else (mgr, none)

/-! ## From one mailbox to the other -/

/-- A message in a mailbox. -/
structure MailMsg where
  msgId : UInt32
  sessionInst : CStr
  payload : Option Bytes

/-- The subscription callback: the payload goes to the mailbox under the names of the endpoint. -/
def onRouteMsg (sub : Endpoint) (payload : Bytes) : MailMsg :=
  ⟨sub.msgId, sub.sessionInst, some payload⟩

/-- Hand a copy of the bytes to every subscriber of the endpoint in this process. -/
def publishInternal (localSubs : List Endpoint) (dst : Endpoint) (data : Option Bytes)
    (len : UInt32) : List MailMsg :=
  let payload := match data with
    | none => []
    | some bs => if 0 < len then bs.take len.toNat else []
  (localSubs.filter fun sub => sub = dst).map fun sub => onRouteMsg sub payload

/-! ## The data thread -/

/-- The handlers in the tables of the data thread. -/
inductive DataHandler where
  | onTaskActive
  | onAgentData
  | onOamStatsReq
  deriving DecidableEq

def kDataHandlers : List (MsgHandler DataHandler) :=
  [⟨msgIdDataTaskActive, some .onTaskActive⟩, ⟨msgIdAgentData, some .onAgentData⟩]

def kOamHandlers : List (MsgHandler DataHandler) := [⟨msgIdOamStatsReq, some .onOamStatsReq⟩]

/-- The two groups of the data thread, by session instance. -/
def kDataGroups : List (SessionMsgTable DataHandler) :=
  [⟨sessionTypeDts, sessionInstData, some kDataHandlers⟩,
    ⟨sessionTypeDts, sessionInstOam, some kOamHandlers⟩]

/-- `OnTaskActive` of the data thread. -/
def dataOnTaskActive (f : DataFactory) (data : Option Bytes) (len : UInt32) : DataFactory :=
  match data with
  | none => f
  | some bs =>
    if len.toNat < sizeofTaskRequest then f
    else
      let req := TaskRequest.read bs
      if req.status != 1 then f else f.onTask req.taskId

/-- The payload of a message as a frame. -/
def rawFrameOf (bs : Bytes) : RawFrame where
  data := some bs
  len := UInt32.ofNat bs.length
  readable := by
    intro bs' h
    cases h
    rw [UInt32.toNat_ofNat']
    exact Nat.mod_le _ _

/-- A raw frame starts with its data type. -/
def dataOnAgentData (f : DataFactory) (data : Option Bytes) (len : UInt32) (us : UInt64) :
    DataFactory :=
  match data with
  | none => f
  | some bs =>
    if len.toNat < 2 then f
    else (f.process (rawFrameOf bs) (UInt16.ofNat (leNat (slice bs 0 2))) us).2

/-- Run what the dispatcher invokes. The answer to a statistics request leaves the factory alone. -/
def runData (us : UInt64) (f : DataFactory) : Invoked DataHandler → DataFactory
  | .onTick _ _ => f.onTick
  | .handler ⟨.onTaskActive, msg, len⟩ => dataOnTaskActive f msg len
  | .handler ⟨.onAgentData, msg, len⟩ => dataOnAgentData f msg len us
  | .handler ⟨.onOamStatsReq, _, _⟩ => f

/-- `ThreadRun` of the data thread on one message: an empty payload is passed on as `nullptr`. -/
def dataThreadStep (us : UInt64) (f : DataFactory) (m : MailMsg) : DataFactory :=
  let p := m.payload.filter fun bs => !bs.isEmpty
  let n := UInt32.ofNat (m.payload.getD []).length
  (dataMsgHandlerDispatch kDataGroups m.sessionInst m.msgId p n).foldl (runData us) f

/-! ## The two readings of one message -/

/-- Four bytes are read as the two fields of two bytes one after the other. -/
theorem leNat_slice_four (bs : Bytes) (off : Nat) (h : off + 2 ≤ bs.length) :
    leNat (slice bs off 4) = leNat (slice bs off 2) + 65536 * leNat (slice bs (off + 2) 2) := by
  rw [show (4 : Nat) = 2 + 2 from rfl, show (65536 : Nat) = 256 ^ 2 from rfl, slice_add, leNat_append,
    length_slice h]

theorem leNat_slice_two_lt (bs : Bytes) (off : Nat) (h : off + 2 ≤ bs.length) :
    leNat (slice bs off 2) < 65536 := by
  have := leNat_lt (slice bs off 2)
  rwa [length_slice h] at this

/-- The request that the data thread reads, in terms of the fields of the message. -/
theorem read_taskRequest {bs : Bytes} (h : sizeofTaskActiveMsg ≤ bs.length) :
    (TaskRequest.read bs).taskId.toNat
        = (TaskActiveMsg.read bs).taskId.toNat + 65536 * (TaskActiveMsg.read bs).type.toNat ∧
      (TaskRequest.read bs).status.toNat = (TaskActiveMsg.read bs).dataIdCount.toNat
        + 65536 * ((TaskActiveMsg.read bs).dataIds 0).toNat := by
  unfold sizeofTaskActiveMsg at h
  have h0 := leNat_slice_two_lt bs 0 (by omega)
  have h2 := leNat_slice_two_lt bs 2 (by omega)
  have h4 := leNat_slice_two_lt bs 4 (by omega)
  have h6 := leNat_slice_two_lt bs 6 (by omega)
  have hid : (6 : Nat) + 2 * ((0 : Fin 8) : Nat) = 6 := rfl
  simp only [TaskRequest.read, TaskActiveMsg.read, UInt32.toNat_ofNat', UInt16.toNat_ofNat', hid,
    leNat_slice_four bs 0 (by omega), leNat_slice_four bs 4 (by omega), Nat.reduceAdd]
  omega

/-- A forwarded message is the message that came in, and was long enough. -/
theorem forwarded_eq {mgr : TaskManager} {bs : Bytes} {len : UInt32}
    {out : Endpoint × Option Bytes × UInt32}
    (h : (taskOnTaskActive mgr (some bs) len).2 = some out) :
    out = (dataTaskActiveEndpoint, some bs, len) ∧ sizeofTaskActiveMsg ≤ len.toNat := by
  simp only [taskOnTaskActive] at h
  split at h
  · simp at h
  · rename_i hlen
    split at h
    · simp at h
    · split at h
      · exact ⟨(Option.some.inj h).symm, by omega⟩
      · simp at h

/-- The data thread hands a forwarded message to its `OnTaskActive`. -/
theorem dataThreadStep_taskActive (us : UInt64) (f : DataFactory) {bs : Bytes} (hne : bs ≠ []) :
    dataThreadStep us f (onRouteMsg dataTaskActiveEndpoint bs)
      = dataOnTaskActive f (some bs) (UInt32.ofNat bs.length) := by
  have hcall : ∀ (p : Option Bytes) (n : UInt32),
      dataMsgHandlerDispatch kDataGroups sessionInstData msgIdDataTaskActive p n
        = [.handler ⟨.onTaskActive, p, n⟩] := fun p n => rfl
  have hpayload : (some bs : Option Bytes).filter (fun bs => !bs.isEmpty) = some bs := by
    rw [Option.filter_some, if_pos (by simpa using hne)]
  simp only [dataThreadStep, onRouteMsg, dataTaskActiveEndpoint, hcall, hpayload, List.foldl_cons,
    List.foldl_nil, runData, Option.getD_some]

/-! ## Agreement -/

/-- The task of the factory after the data thread has worked off the forwarded message. -/
def taskAfter (mgr : TaskManager) (bs : Bytes) (f : DataFactory) (us : UInt64) : UInt32 :=
  match (taskOnTaskActive mgr (some bs) (UInt32.ofNat bs.length)).2 with
  | none => f.currentTask
  | some (ep, data, len) =>
    ((publishInternal [dataTaskActiveEndpoint] ep data len).foldl (dataThreadStep us) f).currentTask

/--
**Agreement of the two threads.** After a message that the task thread accepts and forwards, the
factory works on the task of the message exactly when its type is 0, its count 1 and its first
dataId 0, or when the data thread ignores it and worked on that task already.
-/
theorem taskActive_agrees_iff (mgr : TaskManager) (bs : Bytes) (hlen : bs.length < 2 ^ 32)
    (f : DataFactory) (us : UInt64)
    (hfwd : (taskOnTaskActive mgr (some bs) (UInt32.ofNat bs.length)).2.isSome = true) :
    taskAfter mgr bs f us = (TaskActiveMsg.read bs).taskId.toUInt32 ↔
      if (TaskActiveMsg.read bs).dataIdCount = 1 ∧ (TaskActiveMsg.read bs).dataIds 0 = 0 then
        (TaskActiveMsg.read bs).type = 0
      else f.currentTask = (TaskActiveMsg.read bs).taskId.toUInt32 := by
  obtain ⟨out, hout⟩ := Option.isSome_iff_exists.mp hfwd
  obtain ⟨rfl, hsize⟩ := forwarded_eq hout
  have hn : (UInt32.ofNat bs.length).toNat = bs.length := by
    rw [UInt32.toNat_ofNat', Nat.mod_eq_of_lt hlen]
  rw [hn] at hsize
  obtain ⟨hid, hstatus⟩ := read_taskRequest hsize
  have hne : bs ≠ [] := by
    rintro rfl
    simp [sizeofTaskActiveMsg] at hsize
  have hpub : publishInternal [dataTaskActiveEndpoint] dataTaskActiveEndpoint (some bs)
      (UInt32.ofNat bs.length) = [onRouteMsg dataTaskActiveEndpoint bs] := by
    have hpos : 0 < UInt32.ofNat bs.length := by
      rw [UInt32.lt_iff_toNat_lt, hn]
      exact List.length_pos_of_ne_nil hne
    simp [publishInternal, hpos, hn]
  unfold sizeofTaskActiveMsg at hsize
  simp only [taskAfter, hout, hpub, List.foldl_cons, List.foldl_nil,
    dataThreadStep_taskActive us f hne, dataOnTaskActive]
  rw [if_neg (by rw [hn, sizeofTaskRequest]; omega)]
  -- the status is made of the count and the first dataId
  have hok : (TaskRequest.read bs).status = 1 ↔
      (TaskActiveMsg.read bs).dataIdCount = 1 ∧ (TaskActiveMsg.read bs).dataIds 0 = 0 := by
    have hcount := (TaskActiveMsg.read bs).dataIdCount.toNat_lt
    rw [← UInt32.toNat_inj, ← UInt16.toNat_inj, ← UInt16.toNat_inj, hstatus]
    simp only [UInt32.toNat_one, UInt16.toNat_one, UInt16.toNat_zero]
    omega
  by_cases hst : (TaskRequest.read bs).status = 1
  · rw [if_neg (by simpa using hst), if_pos (hok.mp hst), DataFactory.onTask]
    have htask := (TaskActiveMsg.read bs).taskId.toNat_lt
    rw [← UInt32.toNat_inj, ← UInt16.toNat_inj, hid, UInt16.toNat_toUInt32, UInt16.toNat_zero]
    omega
  · rw [if_pos (by simpa using hst), if_neg (fun h => hst (hok.mpr h))]

/-- A message of type 0 with the one dataId 0, as the data thread expects it. -/
theorem taskActive_agrees_plain :
    taskAfter [] (leBytes 2 7 ++ leBytes 2 0 ++ leBytes 2 1 ++ leBytes 16 0)
      (DataFactory.assemble (fun _ => 0) (fun _ => 0) [] .FULL 0 0) 0 = 7 :=
  (taskActive_agrees_iff [] (leBytes 2 7 ++ leBytes 2 0 ++ leBytes 2 1 ++ leBytes 16 0) (by decide)
    (DataFactory.assemble (fun _ => 0) (fun _ => 0) [] .FULL 0 0) 0 (by decide)).mpr (by decide)

/-- Task 7 with dataIds 1 and 2 is accepted and forwarded, and the data thread ignores it. -/
theorem taskActive_disagrees_two_ids :
    (taskOnTaskActive [] (some (leBytes 2 7 ++ leBytes 2 0 ++ leBytes 2 2 ++ leBytes 2 1 ++
      leBytes 14 2)) 22).2.isSome = true ∧
    taskAfter [] (leBytes 2 7 ++ leBytes 2 0 ++ leBytes 2 2 ++ leBytes 2 1 ++ leBytes 14 2)
      (DataFactory.assemble (fun _ => 0) (fun _ => 0) [] .FULL 0 0) 0 ≠ 7 := by
  decide

end Dts.Routing
