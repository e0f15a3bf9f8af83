import Dts.Infra.Bytes
import Mathlib.Data.List.Pairwise

/-!
# Message tables and the dispatchers

`msg_table.h` and the three `…_msg_handler.cpp`. A thread has an array of business groups, each
with a table from message ids to handlers. A routed message carries the `sessionInst` of its
group; a thread-local message (the timer) carries `nullptr`.

The tables are over an arbitrary type `F` of handler functions, and a dispatcher returns what it
invokes. `routing_iff` compares that with the routing contract: a message id means something only
inside its group. The dispatchers test for the id of the timer before they look at the group.
-/

namespace Dts.Routing

open Infra

/-- `const char*`: the characters before the terminator, or `nullptr`. -/
abbrev CStr := Option (List Char)

/-! ## Ids and session names -/

def msgIdDataTaskActive : UInt32 := 0x0002
def msgIdAgentData : UInt32 := 0x0003
def msgIdTimer : UInt32 := 0x0009
def msgIdOamStatsReq : UInt32 := 0x000A

def sessionTypeDts : CStr := some ['D', 'T', 'S']
def sessionInstData : CStr := some ['d', 'a', 't', 'a']
def sessionInstOam : CStr := some ['o', 'a', 'm']

/-! ## Tables -/

/-- A row of a message table. -/
structure MsgHandler (F : Type*) where
  msgId : UInt32
  fn : Option F

/-- One invocation of a handler. -/
structure Call (F : Type*) where
  fn : F
  msg : Option Bytes
  len : UInt32
  deriving DecidableEq

/-- A business group. -/
structure SessionMsgTable (F : Type*) where
  sessionType : CStr
  sessionInst : CStr
  entries : Option (List (MsgHandler F))

variable {F : Type*}

/-- The first row with the id. -/
def MsgTable.find (entries : List (MsgHandler F)) (msgId : UInt32) : Option (MsgHandler F) :=
  entries.find? fun h => h.msgId == msgId

/-- Invoke the handler of the id. `false` when there is none. -/
def MsgTable.dispatch (entries : List (MsgHandler F)) (msgId : UInt32) (msg : Option Bytes)
    (len : UInt32) : Bool × List (Call F) :=
  match MsgTable.find entries msgId with
  | none => (false, [])
  | some h =>
    match h.fn with
    | none => (false, [])
    | some fn => (true, [⟨fn, msg, len⟩])

/-- The character loop. The end of a list is the terminator. -/
def sameChars : List Char → List Char → Bool
  | a :: as, b :: bs => if a ≠ b then false else sameChars as bs
  | [], [] => true
  | _, _ => false

/-- `CStrEq`; two null pointers are equal. -/
def cStrEq : CStr → CStr → Bool
  | none, none => true
  | some a, some b => sameChars a b
  | _, _ => false

/-- The double loop over `i < j`. -/
def allPairs {α : Type*} (ok : α → α → Bool) : List α → Bool
  | [] => true
  | a :: as => as.all (ok a) && allPairs ok as

/-- `MsgIdsUnique` compares every two rows. -/
def msgIdsUnique (entries : List (MsgHandler F)) : Bool :=
  allPairs (fun a b => a.msgId != b.msgId) entries

/-- `SessionGroupsValid`, of the array or of the null pointer. -/
def sessionGroupsValid : Option (List (SessionMsgTable F)) → Bool
  | none => false
  | some [] => false
  | some (g :: gs) =>
    ((g :: gs).all fun x => x.sessionType.isSome && x.sessionInst.isSome && x.entries.isSome &&
      cStrEq g.sessionType x.sessionType) &&
    allPairs (fun a b => !cStrEq a.sessionInst b.sessionInst) (g :: gs)

/-- The group of a session. `nullptr` belongs to no group. -/
def findSessionTable (groups : Option (List (SessionMsgTable F))) (sessionInst : CStr) :
    Option (SessionMsgTable F) :=
  match groups, sessionInst with
  | some gs, some s => gs.find? fun g => g.sessionInst.isSome && cStrEq g.sessionInst (some s)
  | _, _ => none

/-! ## Dispatchers -/

/-- What a dispatcher invokes: the thread's own tick, or a handler of a table. -/
inductive Invoked (F : Type*) where
  | onTick (msg : Option Bytes) (len : UInt32)
  | handler (call : Call F)
  deriving DecidableEq

/-- Select the group, then the handler in the group. -/
def dispatchGroups (groups : List (SessionMsgTable F)) (sessionInst : CStr) (msgId : UInt32)
    (msg : Option Bytes) (len : UInt32) : List (Call F) :=
  match findSessionTable (some groups) sessionInst with
  | none => []
  | some g => (MsgTable.dispatch (g.entries.getD []) msgId msg len).2

/-- The body that the dispatchers share: the timer first, then the groups. -/
def msgHandlerDispatch (onTimer : List (Invoked F)) (groups : List (SessionMsgTable F))
    (sessionInst : CStr) (msgId : UInt32) (msg : Option Bytes) (len : UInt32) :
    List (Invoked F) :=
  if msgId == msgIdTimer then onTimer
  else (dispatchGroups groups sessionInst msgId msg len).map .handler

/-- The data thread runs its maintenance tick on the timer. -/
def dataMsgHandlerDispatch (groups : List (SessionMsgTable F)) (sessionInst : CStr)
    (msgId : UInt32) (msg : Option Bytes) (len : UInt32) : List (Invoked F) :=
  msgHandlerDispatch [.onTick msg len] groups sessionInst msgId msg len

/-- The task thread has no business on the timer. -/
def taskMsgHandlerDispatch (groups : List (SessionMsgTable F)) (sessionInst : CStr)
    (msgId : UInt32) (msg : Option Bytes) (len : UInt32) : List (Invoked F) :=
  msgHandlerDispatch [] groups sessionInst msgId msg len

/-- The log thread has no business on the timer. -/
def logMsgHandlerDispatch (groups : List (SessionMsgTable F)) (sessionInst : CStr)
    (msgId : UInt32) (msg : Option Bytes) (len : UInt32) : List (Invoked F) :=
  msgHandlerDispatch [] groups sessionInst msgId msg len

/-! ## Tables with unique keys -/

theorem sameChars_eq_true : ∀ a b : List Char, sameChars a b = true ↔ a = b
  | [], [] => by simp [sameChars]
  | [], _ :: _ => by simp [sameChars]
  | _ :: _, [] => by simp [sameChars]
  | a :: as, b :: bs => by
    rw [sameChars, List.cons.injEq, ← sameChars_eq_true as bs]
    by_cases hab : a = b
    · simp [hab]
    · simp [hab]

theorem cStrEq_eq_true {a b : CStr} : cStrEq a b = true ↔ a = b := by
  cases a with
  | none => cases b <;> simp [cStrEq]
  | some a =>
    cases b with
    | none => simp [cStrEq]
    | some b => simp [cStrEq, sameChars_eq_true]

theorem allPairs_eq_true {α : Type*} {ok : α → α → Bool} : ∀ l : List α,
    allPairs ok l = true ↔ l.Pairwise fun a b => ok a b = true
  | [] => by simp [allPairs]
  | a :: as => by
    rw [allPairs, Bool.and_eq_true, List.all_eq_true, List.pairwise_cons, allPairs_eq_true as]

/-- When no two elements satisfy `p`, `find?` finds the one that does. -/
theorem find?_of_unique {α : Type*} {p : α → Bool} {l : List α}
    (huniq : l.Pairwise fun a b => p a = true → p b = false) {a : α} (ha : a ∈ l)
    (hp : p a = true) : l.find? p = some a := by
  induction l with
  | nil => simp at ha
  | cons x xs ih =>
    rw [List.pairwise_cons] at huniq
    rcases List.mem_cons.mp ha with rfl | hmem
    · exact List.find?_cons_of_pos hp
    · rw [List.find?_cons_of_neg (fun hx => by simp [huniq.1 a hmem hx] at hp)]
      exact ih huniq.2 hmem

/-! ## The routing contract -/

/-- `fn` is registered under `(sessionInst, msgId)`. -/
def Registered (groups : List (SessionMsgTable F)) (sessionInst : List Char) (msgId : UInt32)
    (fn : F) : Prop :=
  ∃ g ∈ groups, g.sessionInst = some sessionInst ∧
    ∃ h ∈ g.entries.getD [], h.msgId = msgId ∧ h.fn = some fn

/-- The registered handler is invoked once, with the message; without one nothing is invoked. -/
structure RoutesExactly (groups : List (SessionMsgTable F)) (sessionInst : List Char)
    (msgId : UInt32) (msg : Option Bytes) (len : UInt32) (calls : List (Invoked F)) : Prop where
  hit : ∀ fn, Registered groups sessionInst msgId fn → calls = [.handler ⟨fn, msg, len⟩]
  miss : (∀ fn, ¬ Registered groups sessionInst msgId fn) → calls = []

/-- The group array and its tables pass the compile-time checks. -/
structure ValidGroups (groups : List (SessionMsgTable F)) : Prop where
  valid : sessionGroupsValid (some groups) = true
  unique : ∀ g ∈ groups, msgIdsUnique (g.entries.getD []) = true

variable {groups : List (SessionMsgTable F)} {s : List Char}

theorem ValidGroups.insts (h : ValidGroups groups) :
    (∀ g ∈ groups, g.sessionInst.isSome = true) ∧
      groups.Pairwise fun a b => a.sessionInst ≠ b.sessionInst := by
  have hvalid := h.valid
  cases groups with
  | nil => simp [sessionGroupsValid] at hvalid
  | cons g gs =>
    rw [sessionGroupsValid, Bool.and_eq_true, List.all_eq_true, allPairs_eq_true] at hvalid
    refine ⟨fun x hx => ?_, hvalid.2.imp fun hab heq => ?_⟩
    · have := hvalid.1 x hx
      simp only [Bool.and_eq_true] at this
      exact this.1.1.2
    · rw [cStrEq_eq_true.mpr heq] at hab
      simp at hab

/-- The group lookup finds the one group of the session. -/
theorem findSessionTable_of_mem (h : ValidGroups groups) {g : SessionMsgTable F}
    (hg : g ∈ groups) (hs : g.sessionInst = some s) :
    findSessionTable (some groups) (some s) = some g := by
  refine find?_of_unique (h.insts.2.imp fun hne hx => ?_) hg ?_
  · rw [Bool.and_eq_true, cStrEq_eq_true] at hx
    rw [Bool.and_eq_false_iff, ← Bool.not_eq_true, ← Bool.not_eq_true, cStrEq_eq_true]
    exact Or.inr fun hy => hne (hx.2.trans hy.symm)
  · rw [Bool.and_eq_true, cStrEq_eq_true]
    exact ⟨by rw [hs]; rfl, hs⟩

theorem dispatchGroups_of_registered (h : ValidGroups groups) {msgId : UInt32} {fn : F}
    (hreg : Registered groups s msgId fn) (msg : Option Bytes) (len : UInt32) :
    dispatchGroups groups (some s) msgId msg len = [⟨fn, msg, len⟩] := by
  obtain ⟨g, hg, hs, e, he, rfl, hfn⟩ := hreg
  have htable := (allPairs_eq_true _).mp (h.unique g hg)
  have hfind : MsgTable.find (g.entries.getD []) e.msgId = some e :=
    find?_of_unique (htable.imp fun hne hx => by
      rw [← beq_iff_eq.mp hx, beq_eq_false_iff_ne]
      exact Ne.symm (bne_iff_ne.mp hne)) he (beq_self_eq_true _)
  simp only [dispatchGroups, findSessionTable_of_mem h hg hs, MsgTable.dispatch, hfind, hfn]

theorem dispatchGroups_of_not_registered {msgId : UInt32}
    (hnone : ∀ fn, ¬ Registered groups s msgId fn) (msg : Option Bytes) (len : UInt32) :
    dispatchGroups groups (some s) msgId msg len = [] := by
  unfold dispatchGroups
  cases hfind : findSessionTable (some groups) (some s) with
  | none => rfl
  | some g =>
    have hmem := List.mem_of_find?_eq_some hfind
    have hs := List.find?_some hfind
    rw [Bool.and_eq_true, cStrEq_eq_true] at hs
    simp only [MsgTable.dispatch]
    cases htable : MsgTable.find (g.entries.getD []) msgId with
    | none => rfl
    | some e =>
      have he := List.mem_of_find?_eq_some htable
      have hid := List.find?_some htable
      cases hfn : e.fn with
      | none => simp only [hfn]
      | some fn => exact absurd ⟨g, hmem, hs.2, e, he, beq_iff_eq.mp hid, hfn⟩ (hnone fn)

/-- The groups alone route exactly. -/
theorem dispatchGroups_routes (h : ValidGroups groups) (msgId : UInt32) (msg : Option Bytes)
    (len : UInt32) : RoutesExactly groups s msgId msg len
      ((dispatchGroups groups (some s) msgId msg len).map .handler) where
  hit := fun fn hreg => by rw [dispatchGroups_of_registered h hreg]; rfl
  miss := fun hnone => by rw [dispatchGroups_of_not_registered hnone]; rfl

/-- A dispatcher that invokes nothing on the timer loses the handlers under its id. -/
theorem routes_empty_iff (h : ValidGroups groups) (msgId : UInt32) (msg : Option Bytes)
    (len : UInt32) :
    RoutesExactly groups s msgId msg len
        (msgHandlerDispatch [] groups (some s) msgId msg len) ↔
      (msgId ≠ msgIdTimer ∨ ∀ fn, ¬ Registered groups s msgIdTimer fn) := by
  unfold msgHandlerDispatch
  by_cases ht : msgId = msgIdTimer
  · subst ht
    simp only [beq_self_eq_true, if_true, ne_eq, not_true_eq_false, false_or]
    constructor
    · intro hr fn hreg
      simpa using hr.hit fn hreg
    · exact fun hnone => ⟨fun fn hreg => absurd hreg (hnone fn), fun _ => rfl⟩
  · rw [if_neg (by simpa using ht)]
    exact ⟨fun _ => Or.inl ht, fun _ => dispatchGroups_routes h msgId msg len⟩

/-- A dispatcher that runs its tick on the timer never routes its id. -/
theorem routes_tick_iff (h : ValidGroups groups) (msgId : UInt32) (msg : Option Bytes)
    (len : UInt32) :
    RoutesExactly groups s msgId msg len
        (msgHandlerDispatch [.onTick msg len] groups (some s) msgId msg len) ↔
      msgId ≠ msgIdTimer := by
  unfold msgHandlerDispatch
  by_cases ht : msgId = msgIdTimer
  · subst ht
    simp only [beq_self_eq_true, if_true, ne_eq, not_true_eq_false, iff_false]
    intro hr
    -- with a handler the wrong function runs, without one a function runs at all
    by_cases hreg : ∃ fn, Registered groups s msgIdTimer fn
    · obtain ⟨fn, hreg⟩ := hreg
      simpa using hr.hit fn hreg
    · simpa using hr.miss (not_exists.mp hreg)
  · rw [if_neg (by simpa using ht)]
    exact ⟨fun _ => ht, fun _ => dispatchGroups_routes h msgId msg len⟩

/--
**Routing of session messages.** For every valid group array and every message of a session, the
dispatcher of the data thread routes exactly when the id is not that of the timer; those of the
task and log threads also when nothing is registered under it.
-/
theorem routing_iff (h : ValidGroups groups) (msgId : UInt32) (msg : Option Bytes)
    (len : UInt32) :
    (RoutesExactly groups s msgId msg len (dataMsgHandlerDispatch groups (some s) msgId msg len)
      ↔ msgId ≠ msgIdTimer) ∧
    (RoutesExactly groups s msgId msg len (taskMsgHandlerDispatch groups (some s) msgId msg len)
      ↔ (msgId ≠ msgIdTimer ∨ ∀ fn, ¬ Registered groups s msgIdTimer fn)) ∧
    (RoutesExactly groups s msgId msg len (logMsgHandlerDispatch groups (some s) msgId msg len)
      ↔ (msgId ≠ msgIdTimer ∨ ∀ fn, ¬ Registered groups s msgIdTimer fn)) :=
  ⟨routes_tick_iff h msgId msg len, routes_empty_iff h msgId msg len,
    routes_empty_iff h msgId msg len⟩

/-- Ids 2 and 3 of the data group, and id 9 of a second group. -/
def timerIdGroups : List (SessionMsgTable String) := [
  ⟨sessionTypeDts, sessionInstData,
    some [⟨msgIdDataTaskActive, some "data_task_active"⟩, ⟨msgIdAgentData, some "agent_data"⟩]⟩,
  ⟨sessionTypeDts, sessionInstOam, some [⟨9, some "oam_stats_req"⟩]⟩]

theorem timerIdGroups_valid : ValidGroups timerIdGroups := ⟨by decide, by decide⟩

/-- The handler of another id in those groups is reached. -/
theorem routing_agent_data : RoutesExactly timerIdGroups ['d', 'a', 't', 'a'] msgIdAgentData none 0
    (dataMsgHandlerDispatch timerIdGroups sessionInstData msgIdAgentData none 0) :=
  (routing_iff timerIdGroups_valid msgIdAgentData none 0).1.mpr (by decide)

/-- A message with id 9 of the second group runs the tick of the data thread instead. -/
theorem routing_fails_at_timer_id :
    ¬ RoutesExactly timerIdGroups ['o', 'a', 'm'] 9 none 0
      (dataMsgHandlerDispatch timerIdGroups sessionInstOam 9 none 0) := by
  intro hr
  have hreg : Registered timerIdGroups ['o', 'a', 'm'] 9 "oam_stats_req" :=
    ⟨_, List.mem_cons_of_mem _ List.mem_cons_self, rfl, _, List.mem_cons_self, rfl, rfl⟩
  have hcalls := hr.hit _ hreg
  simp [dataMsgHandlerDispatch, msgHandlerDispatch, msgIdTimer] at hcalls

end Dts.Routing
