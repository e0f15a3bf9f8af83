import Dts.Detmw.Communicator
import Dts.Routing.TaskActive

/-!
# Activation of a task

`OnTaskActive` of the task thread enters the task into `TaskManager` and publishes the message to the
data thread after that. It does not look at the result of the publication, and nothing takes a task
out of the table again.

`activationLaw` says what the two steps leave behind: a task that is entered stays, and the activation
is all or nothing if and only if the message is rejected or the publication succeeds.
-/

namespace Dts.Routing

open Infra

/-! ## Registration and publication -/

/-- The endpoint as `detmw` has it. -/
def Endpoint.detmw (ep : Endpoint) : Detmw.Endpoint :=
  ⟨String.ofList (ep.sessionType.getD []), String.ofList (ep.sessionInst.getD []), ep.msgId⟩

/-- The `len` bytes at `data`. -/
def payloadAt (data : Option Bytes) (len : UInt32) : Payload where
  bytes := (data.getD []).take len.toNat
  sizeT := (List.length_take_le ..).trans_lt len.toNat_lt

/-- The table after `OnTaskActive`, the middleware, and the result of `publish_internal` if it was
called. -/
structure Activation where
  mgr : TaskManager
  mw : Option Detmw.Communicator
  rc : Option Int

/-- `OnTaskActive` with the middleware; `DtsMw` may be `nullptr`. -/
def onTaskActive (mgr : TaskManager) (mw : Option Detmw.Communicator) (data : Option Bytes)
    (len : UInt32) (dds : Detmw.Written) : Activation :=
  match taskOnTaskActive mgr data len with
  | (mgr, none) => ⟨mgr, mw, none⟩
  | (mgr, some (ep, data, len)) =>
    match mw with
    | none => ⟨mgr, none, none⟩
    | some comm =>
      let published := Detmw.publishInternal comm ep.detmw (payloadAt data len) dds
      ⟨mgr, some published.comm, some published.rc⟩

/-! ## The law -/

/-- The task of a message. -/
def configOf (bs : Bytes) : TaskConfig :=
  let m := TaskActiveMsg.read bs
  ⟨m.taskId, m.type, ((List.finRange 8).map m.dataIds).take m.dataIdCount.toNat⟩

/-- `OnTaskActive` enters the task: the message is long enough, has no more than 8 dataIds, and
`TaskManager` has room for the task and does not have it yet. -/
structure Accepted (mgr : TaskManager) (bs : Bytes) (len : UInt32) : Prop where
  size : sizeofTaskActiveMsg ≤ len.toNat
  count : (TaskActiveMsg.read bs).dataIdCount ≤ 8
  room : mgr.length < kMaxTasks
  fresh : mgr.lookup (TaskActiveMsg.read bs).taskId = none

/-- `publish_internal` to the data thread succeeds: its endpoint has a subscriber in this process, or
the transport takes the sample. -/
def Deliverable (mw : Option Detmw.Communicator) (data : Payload) (dds : Detmw.Written) :
    Prop :=
  ∃ comm, mw = some comm ∧ (comm.localSubs dataTaskActiveEndpoint.detmw ≠ [] ∨
    ∃ t, comm.transport = some t ∧ (Detmw.send t.state dataTaskActiveEndpoint.detmw data dds).rc = 0)

/-- The task is registered and its activation delivered, or the table is as before. -/
def Atomic (mgr : TaskManager) (mw : Option Detmw.Communicator) (bs : Bytes) (len : UInt32)
    (dds : Detmw.Written) : Prop :=
  let r := onTaskActive mgr mw (some bs) len dds
  ((r.mgr.lookup (TaskActiveMsg.read bs).taskId).isSome = true ∧ r.rc = some 0) ∨ r.mgr = mgr

/-- **The law.** -/
structure ActivationLaw (mgr : TaskManager) (mw : Option Detmw.Communicator) (bs : Bytes)
    (len : UInt32) (dds : Detmw.Written) : Prop where
  /-- a message that is not accepted changes nothing, and nothing is published -/
  rejected : ¬ Accepted mgr bs len → onTaskActive mgr mw (some bs) len dds = ⟨mgr, mw, none⟩
  /-- an accepted one enters its task, whatever becomes of the publication -/
  registered : Accepted mgr bs len →
    (onTaskActive mgr mw (some bs) len dds).mgr = ((configOf bs).taskId, configOf bs) :: mgr
  /-- which is tried once, when the middleware is up -/
  published : Accepted mgr bs len → (onTaskActive mgr mw (some bs) len dds).rc = mw.map fun comm =>
    (Detmw.publishInternal comm dataTaskActiveEndpoint.detmw (payloadAt (some bs) len) dds).rc
  /-- all or nothing -/
  atomic : Atomic mgr mw bs len dds ↔
    ¬ Accepted mgr bs len ∨ Deliverable mw (payloadAt (some bs) len) dds
  /-- and an activation of a task that was entered is rejected from then on -/
  again : Accepted mgr bs len → ∀ mw' bs' len' dds',
    (TaskActiveMsg.read bs').taskId = (TaskActiveMsg.read bs).taskId →
      onTaskActive (onTaskActive mgr mw (some bs) len dds).mgr mw' (some bs') len' dds'
        = ⟨(onTaskActive mgr mw (some bs) len dds).mgr, mw', none⟩

/-! ## The two steps -/

section
variable {mgr : TaskManager} {bs : Bytes} {len : UInt32}

theorem add_eq (mgr : TaskManager) (cfg : TaskConfig) :
    mgr.add cfg = if mgr.length < kMaxTasks ∧ mgr.lookup cfg.taskId = none then
      (true, (cfg.taskId, cfg) :: mgr) else (false, mgr) := by
  unfold TaskManager.add
  by_cases h : mgr.length < kMaxTasks ∧ mgr.lookup cfg.taskId = none
  · rw [if_pos h, if_neg (by simp [h.1, h.2])]
  · rw [if_neg h, if_pos ?_]
    rw [Bool.or_eq_true, decide_eq_true_eq, Option.isSome_iff_ne_none]
    by_contra hnot
    rw [not_or, Nat.not_le, not_not] at hnot
    exact h hnot

/-- What becomes of a well-formed message. -/
theorem taskOnTaskActive_eq (hsize : sizeofTaskActiveMsg ≤ len.toNat)
    (hcount : (TaskActiveMsg.read bs).dataIdCount ≤ 8) :
    taskOnTaskActive mgr (some bs) len =
      ((mgr.add (configOf bs)).2,
        if (mgr.add (configOf bs)).1 then some (dataTaskActiveEndpoint, some bs, len) else none) := by
  simp only [taskOnTaskActive]
  rw [if_neg (by omega), if_neg (UInt16.not_lt.mpr hcount)]
  show (if (mgr.add (configOf bs)).1 then _ else _) = _
  split <;> rfl

theorem taskOnTaskActive_of_accepted (h : Accepted mgr bs len) :
    taskOnTaskActive mgr (some bs) len
      = (((configOf bs).taskId, configOf bs) :: mgr, some (dataTaskActiveEndpoint, some bs, len)) := by
  have hadd : mgr.add (configOf bs) = (true, ((configOf bs).taskId, configOf bs) :: mgr) := by
    rw [add_eq, if_pos ⟨h.room, h.fresh⟩]
  rw [taskOnTaskActive_eq h.size h.count, hadd]
  rfl

theorem taskOnTaskActive_of_not_accepted (h : ¬ Accepted mgr bs len) :
    taskOnTaskActive mgr (some bs) len = (mgr, none) := by
  by_cases hform : sizeofTaskActiveMsg ≤ len.toNat ∧ (TaskActiveMsg.read bs).dataIdCount ≤ 8
  · have hadd : mgr.add (configOf bs) = (false, mgr) := by
      rw [add_eq, if_neg fun hfree => h ⟨hform.1, hform.2, hfree.1, hfree.2⟩]
    rw [taskOnTaskActive_eq hform.1 hform.2, hadd]
    rfl
  · simp only [taskOnTaskActive]
    split
    · rfl
    · rename_i hsize
      rw [if_pos]
      exact UInt16.not_le.mp fun hcount => hform ⟨Nat.le_of_not_lt hsize, hcount⟩

variable {mw : Option Detmw.Communicator} {dds : Detmw.Written}

theorem onTaskActive_of_not_accepted (h : ¬ Accepted mgr bs len) :
    onTaskActive mgr mw (some bs) len dds = ⟨mgr, mw, none⟩ := by
  rw [onTaskActive, taskOnTaskActive_of_not_accepted h]

theorem mgr_of_accepted (h : Accepted mgr bs len) :
    (onTaskActive mgr mw (some bs) len dds).mgr = ((configOf bs).taskId, configOf bs) :: mgr := by
  rw [onTaskActive, taskOnTaskActive_of_accepted h]
  cases mw <;> rfl

theorem rc_of_accepted (h : Accepted mgr bs len) :
    (onTaskActive mgr mw (some bs) len dds).rc = mw.map fun comm =>
      (Detmw.publishInternal comm dataTaskActiveEndpoint.detmw (payloadAt (some bs) len) dds).rc := by
  rw [onTaskActive, taskOnTaskActive_of_accepted h]
  cases mw <;> rfl

/-- The task is in the table from then on. -/
theorem lookup_of_accepted (h : Accepted mgr bs len) :
    (onTaskActive mgr mw (some bs) len dds).mgr.lookup (TaskActiveMsg.read bs).taskId
      = some (configOf bs) := by
  rw [mgr_of_accepted h]
  exact List.lookup_cons_self ..

theorem rc_eq_zero_iff (h : Accepted mgr bs len) :
    (onTaskActive mgr mw (some bs) len dds).rc = some 0 ↔
      Deliverable mw (payloadAt (some bs) len) dds := by
  rw [rc_of_accepted h, Option.map_eq_some_iff]
  exact exists_congr fun comm => and_congr_right fun _ => Detmw.publishInternal_rc_eq_zero ..

theorem atomic_iff : Atomic mgr mw bs len dds ↔
    ¬ Accepted mgr bs len ∨ Deliverable mw (payloadAt (some bs) len) dds := by
  unfold Atomic
  by_cases h : Accepted mgr bs len
  · have hchanged : (onTaskActive mgr mw (some bs) len dds).mgr ≠ mgr := by
      rw [mgr_of_accepted h]
      exact List.cons_ne_self _ _
    simp only [lookup_of_accepted h, Option.isSome_some, true_and, hchanged, or_false, h, not_true,
      false_or]
    exact rc_eq_zero_iff h
  · exact iff_of_true (.inr (by rw [onTaskActive_of_not_accepted h])) (.inl h)

end

/--
**Activation.** A rejected message changes nothing. An accepted one enters its task, and the
publication that follows has no influence on that: the activation is all or nothing exactly when the
message is rejected or the publication succeeds, and a task that was entered is not activated again.
-/
theorem activationLaw (mgr : TaskManager) (mw : Option Detmw.Communicator) (bs : Bytes)
    (len : UInt32) (dds : Detmw.Written) : ActivationLaw mgr mw bs len dds where
  rejected := onTaskActive_of_not_accepted
  registered := mgr_of_accepted
  published := rc_of_accepted
  atomic := atomic_iff
  again := fun h mw' bs' len' dds' htask => by
    refine onTaskActive_of_not_accepted fun h' => ?_
    have hfresh := h'.fresh
    rw [htask, lookup_of_accepted h] at hfresh
    cases hfresh

/-! ## A failed publication -/

/-- A middleware whose transport is not ready, with the given subscribers of the data thread. -/
def noTransport (subs : List Detmw.Callback) : Detmw.Communicator where
  transport := none
  localSubs := fun ep => if ep = dataTaskActiveEndpoint.detmw then subs else []

/-- Task 7 with the dataId 1. -/
def task7 : Bytes := leBytes 2 7 ++ leBytes 2 0 ++ leBytes 2 1 ++ leBytes 2 1 ++ leBytes 14 0

/-- The publication fails and the task stays; with a subscriber there, the next activation of the
task is rejected. -/
theorem not_atomic_noTransport :
    (onTaskActive [] (some (noTransport [])) (some task7) 22 ⟨false, true⟩).rc = some (-1) ∧
      ¬ Atomic [] (some (noTransport [])) task7 22 ⟨false, true⟩ ∧
      (onTaskActive (onTaskActive [] (some (noTransport [])) (some task7) 22 ⟨false, true⟩).mgr
        (some (noTransport [⟨some 0, 0⟩])) (some task7) 22 ⟨false, true⟩).rc = none := by
  have hrc : (onTaskActive [] (some (noTransport [])) (some task7) 22 ⟨false, true⟩).rc
      = some (-1) := by decide
  refine ⟨hrc, ?_, by decide⟩
  rintro (⟨-, hzero⟩ | hsame)
  · cases hrc.symm.trans hzero
  · exact absurd (congrArg List.length hsame) (by decide)

end Dts.Routing
