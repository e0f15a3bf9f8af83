import Dts.Data.Ids
import Dts.Infra.Multimap
import Mathlib.Data.List.Induction

/-!
# Tasks and the dataIds they track

`tdmap_v2.cpp`. `TdMapV2` keeps the tasks by their id and, derived from them, the tasks of every
dataId, which every change builds anew. The tables are hash maps; in which order they give out their
elements is not specified.

`tdMapLaw` relates what the two queries answer to the calls made so far.
-/

namespace Dts.Data

open Infra

/-- What the task thread tells the data thread of a task. -/
structure TaskInfo where
  taskId : UInt32
  dataIds : List UInt16
  periodMs : UInt32
  deriving DecidableEq

/-- The tasks by id, and the ids of the tasks that track a dataId. -/
structure TdMapV2 where
  tasks : Std.HashMap UInt32 TaskInfo := ∅
  dataToTasks : Multimap UInt16 UInt32 := ∅

namespace TdMapV2

/-- `RebuildIndex`: the index is cleared and filled in the order the tasks come out of their table. -/
def rebuildIndex (m : TdMapV2) : TdMapV2 :=
  { m with
    dataToTasks := m.tasks.toList.foldl (fun index kv => index.addAll kv.2.dataIds kv.1) ∅ }

/-- A task of the same id is replaced. -/
def upsertTask (m : TdMapV2) (t : TaskInfo) : TdMapV2 :=
  { m with tasks := m.tasks.insert t.taskId t }.rebuildIndex

/-- An id that is not there is no error. -/
def removeTask (m : TdMapV2) (taskId : UInt32) : TdMapV2 :=
  { m with tasks := m.tasks.erase taskId }.rebuildIndex

/-- The dataIds of the index that the table of dataIds gives this type. -/
def activeDataIds (m : TdMapV2) (dataType : UInt16) : List UInt16 :=
  collect (fun did => (specOf did).dataId != 0 && (specOf did).dataType == dataType)
    m.dataToTasks.keys

/-- No tasks for a dataId that is not in the index. -/
def tasksOfDataId (m : TdMapV2) (dataId : UInt16) : List UInt32 :=
  match m.dataToTasks[dataId]? with
  | some tasks => tasks.toList
  | none => []

end TdMapV2

/-! ## Calls -/

/-- The calls that change the map. -/
inductive TdMapCall
  | upsertTask (t : TaskInfo)
  | removeTask (taskId : UInt32)

/-- The task a call is about. -/
def TdMapCall.taskId : TdMapCall → UInt32
  | .upsertTask t => t.taskId
  | .removeTask taskId => taskId

def TdMapV2.call (m : TdMapV2) : TdMapCall → TdMapV2
  | .upsertTask t => m.upsertTask t
  | .removeTask taskId => m.removeTask taskId

/-- The map after a list of calls. -/
def TdMapV2.after (calls : List TdMapCall) : TdMapV2 := calls.foldl TdMapV2.call {}

/-- The last call about the task is the upsert of `t`. -/
def LastUpsert (calls : List TdMapCall) (t : TaskInfo) : Prop :=
  ∃ before later, calls = before ++ .upsertTask t :: later ∧ ∀ call ∈ later, call.taskId ≠ t.taskId

/-- The task is there, and its last upsert lists the dataId. -/
def Tracks (calls : List TdMapCall) (taskId : UInt32) (dataId : UInt16) : Prop :=
  ∃ t, LastUpsert calls t ∧ t.taskId = taskId ∧ dataId ∈ t.dataIds

/-- **The law.** -/
structure TdMapLaw (calls : List TdMapCall) : Prop where
  nodup_tasks : ∀ dataId, ((TdMapV2.after calls).tasksOfDataId dataId).Nodup
  mem_tasks : ∀ dataId taskId,
    taskId ∈ (TdMapV2.after calls).tasksOfDataId dataId ↔ Tracks calls taskId dataId
  nodup_active : ∀ dataType, ((TdMapV2.after calls).activeDataIds dataType).Nodup
  mem_active : ∀ dataType dataId, dataId ∈ (TdMapV2.after calls).activeDataIds dataType ↔
    dataId ∈ cellDataIds ∧ dataType = DataType.CELL.code ∧
      (TdMapV2.after calls).tasksOfDataId dataId ≠ []

/-! ## The tasks -/

theorem lastUpsert_concat {calls : List TdMapCall} {call : TdMapCall} {t : TaskInfo} :
    LastUpsert (calls ++ [call]) t ↔
      call = .upsertTask t ∨ (LastUpsert calls t ∧ call.taskId ≠ t.taskId) := by
  constructor
  · rintro ⟨before, later, heq, hlater⟩
    rcases List.eq_nil_or_concat' later with rfl | ⟨later, last, rfl⟩
    · exact .inl (List.singleton_inj.mp (List.append_inj' heq rfl).2)
    · rw [← List.cons_append, ← List.append_assoc] at heq
      obtain ⟨rfl, hlast⟩ := List.append_inj' heq rfl
      obtain rfl := List.singleton_inj.mp hlast
      refine .inr ⟨⟨before, later, rfl, fun c hc => hlater c (List.mem_append_left _ hc)⟩, ?_⟩
      exact hlater call (List.mem_append_right _ List.mem_cons_self)
  · rintro (rfl | ⟨⟨before, later, rfl, hlater⟩, hne⟩)
    · exact ⟨calls, [], rfl, by simp⟩
    · refine ⟨before, later ++ [call], by simp, fun c hc => ?_⟩
      rcases List.mem_append.mp hc with hc | hc
      · exact hlater c hc
      · rw [List.mem_singleton.mp hc]
        exact hne

theorem after_concat (calls : List TdMapCall) (call : TdMapCall) :
    TdMapV2.after (calls ++ [call]) = (TdMapV2.after calls).call call :=
  List.foldl_concat ..

/-- What a call leaves in the place of its task. -/
def TdMapCall.entry : TdMapCall → Option TaskInfo
  | .upsertTask t => some t
  | .removeTask _ => none

theorem entry_eq_some {call : TdMapCall} {t : TaskInfo} :
    call.entry = some t ↔ call = .upsertTask t := by
  cases call <;> simp [TdMapCall.entry]

theorem tasks_call (m : TdMapV2) (call : TdMapCall) (taskId : UInt32) :
    (m.call call).tasks[taskId]?
      = if call.taskId = taskId then call.entry else m.tasks[taskId]? := by
  cases call with
  | upsertTask t =>
    show (m.tasks.insert t.taskId t)[taskId]? = _
    rw [Std.HashMap.getElem?_insert]
    simp only [beq_iff_eq]
    rfl
  | removeTask k =>
    show (m.tasks.erase k)[taskId]? = _
    rw [Std.HashMap.getElem?_erase]
    simp only [beq_iff_eq]
    rfl

/-- The forward table has the last upsert of every task that was not removed since. -/
theorem tasks_after {calls : List TdMapCall} {taskId : UInt32} {t : TaskInfo} :
    (TdMapV2.after calls).tasks[taskId]? = some t ↔ LastUpsert calls t ∧ t.taskId = taskId := by
  induction calls using List.reverseRecOn with
  | nil =>
    have hnone : ¬ LastUpsert [] t := by
      rintro ⟨before, later, heq, -⟩
      cases before <;> cases heq
    simp [TdMapV2.after, hnone]
  | append_singleton calls call ih =>
    rw [after_concat, tasks_call, lastUpsert_concat]
    rcases eq_or_ne call.taskId taskId with rfl | hne
    · rw [if_pos rfl, entry_eq_some]
      constructor
      · rintro rfl
        exact ⟨.inl rfl, rfl⟩
      · rintro ⟨hcall | ⟨-, hother⟩, htask⟩
        · exact hcall
        · exact absurd htask.symm hother
    · rw [if_neg hne, ih]
      constructor
      · rintro ⟨hlast, rfl⟩
        exact ⟨.inr ⟨hlast, hne⟩, rfl⟩
      · rintro ⟨rfl | ⟨hlast, -⟩, htask⟩
        · exact absurd htask hne
        · exact ⟨hlast, htask⟩

/-! ## The index -/

/-- Every call builds the index anew. -/
theorem rebuildIndex_after (calls : List TdMapCall) :
    (TdMapV2.after calls).rebuildIndex = TdMapV2.after calls := by
  rcases List.eq_nil_or_concat' calls with rfl | ⟨calls, call, rfl⟩
  · simp [TdMapV2.after, TdMapV2.rebuildIndex]
  · rw [after_concat]
    cases call <;> rfl

theorem full_dataToTasks (m : TdMapV2) : m.rebuildIndex.dataToTasks.Full := by
  rw [TdMapV2.rebuildIndex]
  exact Multimap.Full.empty.foldl_addAll _ _ _

theorem mem_dataToTasks {m : TdMapV2} {dataId : UInt16} {taskId : UInt32} :
    taskId ∈ m.rebuildIndex.dataToTasks.values dataId ↔
      ∃ t, m.tasks[taskId]? = some t ∧ dataId ∈ t.dataIds := by
  rw [TdMapV2.rebuildIndex, Multimap.mem_foldl_addAll]
  constructor
  · rintro (h | ⟨⟨k, t⟩, hmem, hlists, rfl⟩)
    · simp [Multimap.values] at h
    · exact ⟨t, Std.HashMap.mem_toList_iff_getElem?_eq_some.mp hmem, hlists⟩
  · rintro ⟨t, ht, hlists⟩
    exact .inr ⟨(taskId, t), Std.HashMap.mem_toList_iff_getElem?_eq_some.mpr ht, hlists, rfl⟩

/-! ## The queries -/

theorem tasksOfDataId_eq (m : TdMapV2) (dataId : UInt16) :
    m.tasksOfDataId dataId = (m.dataToTasks.values dataId).toList := by
  unfold TdMapV2.tasksOfDataId Multimap.values
  rw [Std.HashMap.getD_eq_getD_getElem?]
  cases m.dataToTasks[dataId]? with
  | none => simp
  | some tasks => rfl

theorem nodup_tasksOfDataId (m : TdMapV2) (dataId : UInt16) : (m.tasksOfDataId dataId).Nodup := by
  rw [tasksOfDataId_eq]
  exact Std.HashSet.distinct_toList.imp ne_of_beq_false

/-- A dataId has a place in the index if it has a task. -/
theorem mem_keys_dataToTasks {m : TdMapV2} (hfull : m.dataToTasks.Full) {dataId : UInt16} :
    dataId ∈ m.dataToTasks.keys ↔ m.tasksOfDataId dataId ≠ [] := by
  rw [Std.HashMap.mem_keys, hfull dataId, tasksOfDataId_eq]
  simp only [← Std.HashSet.mem_toList]
  constructor
  · rintro ⟨taskId, hmem⟩
    exact List.ne_nil_of_mem hmem
  · exact List.exists_mem_of_ne_nil _

/-- Which dataIds the test on the specification passes. -/
theorem specOf_eq_iff {dataId dataType : UInt16} :
    ((specOf dataId).dataId != 0 && (specOf dataId).dataType == dataType) = true ↔
      dataId ∈ cellDataIds ∧ dataType = DataType.CELL.code := by
  by_cases hmem : dataId ∈ cellDataIds
  · have hne : dataId ≠ 0 := by
      rintro rfl
      exact absurd (mem_cellDataIds.mp hmem) (by decide)
    rw [specOf_of_mem hmem, Bool.and_eq_true, bne_iff_ne, beq_iff_eq]
    exact ⟨fun h => ⟨hmem, h.2.symm⟩, fun h => ⟨hne, h.2.symm⟩⟩
  · have hout : ¬ dataId - kCellDataIdBase < kCellDataIdCount := fun h => hmem (mem_cellDataIds.mpr h)
    have hspec : (specOf dataId).dataId = 0 := by
      simp only [specOf]
      rw [if_pos (UInt16.not_lt.mp hout)]
    simp [hspec, hmem]

/--
**The task map.** After any list of calls the tasks of a dataId are those whose last upsert lists it,
unless they were removed since, and the active dataIds of a type are those of the table that have a
task, each once.
-/
theorem tdMapLaw (calls : List TdMapCall) : TdMapLaw calls where
  nodup_tasks := nodup_tasksOfDataId _
  mem_tasks := fun dataId taskId => by
    rw [tasksOfDataId_eq, Std.HashSet.mem_toList, ← rebuildIndex_after, mem_dataToTasks]
    constructor
    · rintro ⟨t, ht, hlists⟩
      obtain ⟨hlast, htask⟩ := tasks_after.mp ht
      exact ⟨t, hlast, htask, hlists⟩
    · rintro ⟨t, hlast, htask, hlists⟩
      exact ⟨t, tasks_after.mpr ⟨hlast, htask⟩, hlists⟩
  nodup_active := fun dataType => nodup_collect _ _
  mem_active := fun dataType dataId => by
    have hfull := full_dataToTasks (TdMapV2.after calls)
    rw [rebuildIndex_after] at hfull
    rw [TdMapV2.activeDataIds, mem_collect, specOf_eq_iff, mem_keys_dataToTasks hfull]
    exact and_comm.trans and_assoc

end Dts.Data
