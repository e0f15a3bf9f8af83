import Dts.Routing.MsgTable
import Mathlib.Data.List.Forall2

/-!
# The compile-time checks of message tables

`msg_table.h`. Lookup in a table takes the first match, so a row behind another one with the same
key is never reached. The checks `MsgIdsUnique` and `SessionGroupsValid` are there to exclude
that. This file says exactly which tables pass them, and what follows: each key has one row, and the
order of the groups and of their rows does not matter (`msgTable_law`). The threads dispatch in this
way: `dispatchGroups_eq`.
-/

namespace Dts.Routing

open Infra

variable {F : Type*}

/-! ## The way of a message -/

/-- `FindSessionTable`, then `MsgTable::Dispatch` in the group found. -/
def findAndDispatch (groups : Option (List (SessionMsgTable F))) (sessionInst : CStr)
    (msgId : UInt32) (msg : Option Bytes) (len : UInt32) : Bool × List (Call F) :=
  match findSessionTable groups sessionInst with
  | none => (false, [])
  | some g => MsgTable.dispatch (g.entries.getD []) msgId msg len

/-- The dispatchers of the threads select and invoke in this way. -/
theorem dispatchGroups_eq (groups : List (SessionMsgTable F)) (sessionInst : CStr)
    (msgId : UInt32) (msg : Option Bytes) (len : UInt32) :
    dispatchGroups groups sessionInst msgId msg len
      = (findAndDispatch (some groups) sessionInst msgId msg len).2 := by
  unfold dispatchGroups findAndDispatch
  cases findSessionTable (some groups) sessionInst with
  | none => rfl
  | some g => rfl

/-! ## What the tables mean -/

/-- The row `h` stands under the key `(sessionInst, msgId)`. -/
def RowAt (groups : List (SessionMsgTable F)) (sessionInst : List Char) (msgId : UInt32)
    (h : MsgHandler F) : Prop :=
  ∃ g ∈ groups, g.sessionInst = some sessionInst ∧ h ∈ g.entries.getD [] ∧ h.msgId = msgId

/-- What a row does with a message: a row without function does nothing. -/
def MsgHandler.outcome (h : MsgHandler F) (msg : Option Bytes) (len : UInt32) :
    Bool × List (Call F) :=
  match h.fn with
  | none => (false, [])
  | some fn => (true, [⟨fn, msg, len⟩])

/-- The array of groups that the comment at `SessionGroupsValid` asks for. -/
structure WellFormedGroups (groups : Option (List (SessionMsgTable F))) : Prop where
  nonempty : groups.getD [] ≠ []
  nonnull : ∀ g ∈ groups.getD [], g.sessionType ≠ none ∧ g.sessionInst ≠ none ∧ g.entries ≠ none
  sameType : ∀ g ∈ groups.getD [], ∀ g' ∈ groups.getD [], g.sessionType = g'.sessionType
  distinct : (groups.getD []).Pairwise fun g g' => g.sessionInst ≠ g'.sessionInst

/-- The same group with its rows in another order. -/
structure SessionMsgTable.Reordered (g g' : SessionMsgTable F) : Prop where
  sessionType : g.sessionType = g'.sessionType
  sessionInst : g.sessionInst = g'.sessionInst
  isSome : g.entries.isSome = g'.entries.isSome
  entries : (g.entries.getD []).Perm (g'.entries.getD [])

/-- The groups, and the rows inside them, in another order. -/
def Shuffled (groups groups' : List (SessionMsgTable F)) : Prop :=
  ∃ mid, groups.Perm mid ∧ List.Forall₂ SessionMsgTable.Reordered mid groups'

/-! ## The checks -/

theorem msgIdsUnique_iff (entries : List (MsgHandler F)) :
    msgIdsUnique entries = true ↔ entries.Pairwise fun a b => a.msgId ≠ b.msgId := by
  rw [msgIdsUnique, allPairs_eq_true]
  simp only [bne_iff_ne]

/-- Every group is compared with the first one, so all have one session type. -/
theorem sessionGroupsValid_iff (groups : Option (List (SessionMsgTable F))) :
    sessionGroupsValid groups = true ↔ WellFormedGroups groups := by
  rcases groups with _ | _ | ⟨g, gs⟩
  · exact ⟨fun h => (by cases h), fun h => absurd rfl h.nonempty⟩
  · exact ⟨fun h => (by cases h), fun h => absurd rfl h.nonempty⟩
  · have hdiff : ∀ a b : SessionMsgTable F,
        (!cStrEq a.sessionInst b.sessionInst) = true ↔ a.sessionInst ≠ b.sessionInst := by
      intro a b
      rw [Bool.not_eq_true', ← Bool.not_eq_true, cStrEq_eq_true]
    simp only [sessionGroupsValid, Bool.and_eq_true, List.all_eq_true, allPairs_eq_true, hdiff,
      cStrEq_eq_true, Option.isSome_iff_ne_none]
    constructor
    · rintro ⟨hall, hdist⟩
      refine ⟨by simp, ?_, ?_, hdist⟩
      · intro x hx
        obtain ⟨⟨⟨ht, hi⟩, he⟩, -⟩ := hall x hx
        exact ⟨ht, hi, he⟩
      · intro x hx y hy
        exact (hall x hx).2.symm.trans (hall y hy).2
    · intro h
      refine ⟨?_, h.distinct⟩
      intro x hx
      obtain ⟨ht, hi, he⟩ := h.nonnull x hx
      exact ⟨⟨⟨ht, hi⟩, he⟩, h.sameType g List.mem_cons_self x hx⟩

/-! ## One row for each key -/

variable {groups groups' : List (SessionMsgTable F)} {s : List Char} {msgId : UInt32}

theorem find_of_mem {entries : List (MsgHandler F)} (huniq : msgIdsUnique entries = true)
    {e : MsgHandler F} (he : e ∈ entries) : MsgTable.find entries e.msgId = some e := by
  refine find?_of_unique (((msgIdsUnique_iff _).mp huniq).imp ?_) he (beq_self_eq_true _)
  intro a b hne ha
  rw [← beq_iff_eq.mp ha]
  exact beq_eq_false_iff_ne.mpr hne.symm

/-- **The row of a key is the one that acts.** -/
theorem findAndDispatch_of_rowAt (h : ValidGroups groups) {e : MsgHandler F}
    (he : RowAt groups s msgId e) (msg : Option Bytes) (len : UInt32) :
    findAndDispatch (some groups) (some s) msgId msg len = e.outcome msg len := by
  obtain ⟨g, hg, hs, hmem, rfl⟩ := he
  unfold findAndDispatch
  rw [findSessionTable_of_mem h hg hs]
  show MsgTable.dispatch (g.entries.getD []) e.msgId msg len = _
  rw [MsgTable.dispatch, find_of_mem (h.unique g hg) hmem]
  rfl

/-- A key without a row has no effect. -/
theorem findAndDispatch_of_not_rowAt (hnone : ∀ e, ¬RowAt groups s msgId e)
    (msg : Option Bytes) (len : UInt32) :
    findAndDispatch (some groups) (some s) msgId msg len = (false, []) := by
  unfold findAndDispatch
  cases hfind : findSessionTable (some groups) (some s) with
  | none => rfl
  | some g =>
    have hmem := List.mem_of_find?_eq_some hfind
    have hs := List.find?_some hfind
    rw [Bool.and_eq_true, cStrEq_eq_true] at hs
    show MsgTable.dispatch (g.entries.getD []) msgId msg len = _
    unfold MsgTable.dispatch
    cases htable : MsgTable.find (g.entries.getD []) msgId with
    | none => rfl
    | some e =>
      have hid := List.find?_some htable
      exact absurd ⟨g, hmem, hs.2, List.mem_of_find?_eq_some htable, beq_iff_eq.mp hid⟩ (hnone e)

/-- Two rows of one key are the same row. -/
theorem RowAt.unique (h : ValidGroups groups) {e e' : MsgHandler F} (he : RowAt groups s msgId e)
    (he' : RowAt groups s msgId e') : e = e' := by
  obtain ⟨g, hg, hs, hmem, hid⟩ := he
  obtain ⟨g', hg', hs', hmem', hid'⟩ := he'
  have hgg : g = g' := by
    have hfind := findSessionTable_of_mem h hg hs
    rw [findSessionTable_of_mem h hg' hs'] at hfind
    exact (Option.some.inj hfind).symm
  subst hgg
  have hfind := find_of_mem (h.unique g hg) hmem
  rw [hid, ← hid', find_of_mem (h.unique g hg) hmem'] at hfind
  exact (Option.some.inj hfind).symm

/-! ## Any order -/

/-- Related lists: each element has its partner in the other list. -/
theorem exists_of_forall₂ {α β : Type*} {R : α → β → Prop} {as : List α} {bs : List β}
    (h : List.Forall₂ R as bs) :
    (∀ a ∈ as, ∃ b ∈ bs, R a b) ∧ ∀ b ∈ bs, ∃ a ∈ as, R a b := by
  induction h with
  | nil => simp
  | @cons a b as bs hab _ ih =>
    obtain ⟨ihl, ihr⟩ := ih
    constructor
    · intro x hx
      rcases List.mem_cons.mp hx with rfl | hx
      · exact ⟨b, List.mem_cons_self, hab⟩
      · obtain ⟨y, hy, hxy⟩ := ihl x hx
        exact ⟨y, List.mem_cons_of_mem _ hy, hxy⟩
    · intro y hy
      rcases List.mem_cons.mp hy with rfl | hy
      · exact ⟨a, List.mem_cons_self, hab⟩
      · obtain ⟨x, hx, hxy⟩ := ihr y hy
        exact ⟨x, List.mem_cons_of_mem _ hx, hxy⟩

namespace Shuffled

theorem exists_right (h : Shuffled groups groups') {g : SessionMsgTable F} (hg : g ∈ groups) :
    ∃ g' ∈ groups', g.Reordered g' := by
  obtain ⟨mid, hperm, hrel⟩ := h
  exact (exists_of_forall₂ hrel).1 g (hperm.mem_iff.mp hg)

theorem exists_left (h : Shuffled groups groups') {g' : SessionMsgTable F} (hg' : g' ∈ groups') :
    ∃ g ∈ groups, g.Reordered g' := by
  obtain ⟨mid, hperm, hrel⟩ := h
  obtain ⟨g, hg, hr⟩ := (exists_of_forall₂ hrel).2 g' hg'
  exact ⟨g, hperm.mem_iff.mpr hg, hr⟩

/-- The session names are the same ones, in another order. -/
theorem insts (h : Shuffled groups groups') :
    (groups.map (·.sessionInst)).Perm (groups'.map (·.sessionInst)) := by
  obtain ⟨mid, hperm, hrel⟩ := h
  have heq : mid.map (·.sessionInst) = groups'.map (·.sessionInst) := by
    clear hperm
    induction hrel with
    | nil => rfl
    | cons hab _ ih => rw [List.map_cons, List.map_cons, hab.sessionInst, ih]
  rw [← heq]
  exact hperm.map _

theorem rowAt_iff (h : Shuffled groups groups') (e : MsgHandler F) :
    RowAt groups s msgId e ↔ RowAt groups' s msgId e := by
  constructor
  · rintro ⟨g, hg, hs, hmem, hid⟩
    obtain ⟨g', hg', hr⟩ := h.exists_right hg
    exact ⟨g', hg', hr.sessionInst ▸ hs, hr.entries.mem_iff.mp hmem, hid⟩
  · rintro ⟨g', hg', hs, hmem, hid⟩
    obtain ⟨g, hg, hr⟩ := h.exists_left hg'
    exact ⟨g, hg, hr.sessionInst.trans hs, hr.entries.mem_iff.mpr hmem, hid⟩

/-- The checks do not depend on the order. -/
theorem valid (h : Shuffled groups groups') (hv : ValidGroups groups) : ValidGroups groups' := by
  have hwf := (sessionGroupsValid_iff _).mp hv.valid
  refine ⟨(sessionGroupsValid_iff _).mpr ⟨?_, ?_, ?_, ?_⟩, ?_⟩
  · intro hnil
    have hlen := h.insts.length_eq
    rw [List.length_map, List.length_map, show groups' = [] from hnil] at hlen
    exact hwf.nonempty (List.length_eq_zero_iff.mp hlen)
  · intro g' hg'
    obtain ⟨g, hg, hr⟩ := h.exists_left hg'
    obtain ⟨ht, hi, he⟩ := hwf.nonnull g hg
    refine ⟨hr.sessionType ▸ ht, hr.sessionInst ▸ hi, ?_⟩
    rw [← Option.isSome_iff_ne_none, ← hr.isSome]
    exact Option.isSome_iff_ne_none.mpr he
  · intro a ha b hb
    obtain ⟨a₀, ha₀, hra⟩ := h.exists_left ha
    obtain ⟨b₀, hb₀, hrb⟩ := h.exists_left hb
    exact hra.sessionType.symm.trans ((hwf.sameType a₀ ha₀ b₀ hb₀).trans hrb.sessionType)
  · have hnodup : (groups.map (·.sessionInst)).Nodup := List.pairwise_map.mpr hwf.distinct
    exact List.pairwise_map.mp (h.insts.nodup_iff.mp hnodup)
  · intro g' hg'
    obtain ⟨g, hg, hr⟩ := h.exists_left hg'
    have huniq := (msgIdsUnique_iff _).mp (hv.unique g hg)
    exact (msgIdsUnique_iff _).mpr (huniq.perm hr.entries Ne.symm)

/-- The order of groups and rows does not change what a message does. -/
theorem findAndDispatch_eq (h : Shuffled groups groups') (hv : ValidGroups groups)
    (sessionInst : CStr) (msgId : UInt32) (msg : Option Bytes) (len : UInt32) :
    findAndDispatch (some groups') sessionInst msgId msg len
      = findAndDispatch (some groups) sessionInst msgId msg len := by
  cases sessionInst with
  | none => rfl
  | some s =>
    by_cases hrow : ∃ e, RowAt groups s msgId e
    · obtain ⟨e, he⟩ := hrow
      rw [findAndDispatch_of_rowAt hv he,
        findAndDispatch_of_rowAt (h.valid hv) ((h.rowAt_iff e).mp he)]
    · have hnone := not_exists.mp hrow
      rw [findAndDispatch_of_not_rowAt hnone, findAndDispatch_of_not_rowAt]
      intro e he
      exact hnone e ((h.rowAt_iff e).mpr he)

end Shuffled

/--
**The message tables.** The checks accept exactly the arrays that their comments describe, and in
an array that passes them every key has at most one row, the row acts and nothing else does, and the
order of groups and rows does not matter.
-/
theorem msgTable_law :
    (∀ groups : Option (List (SessionMsgTable F)),
      sessionGroupsValid groups = true ↔ WellFormedGroups groups) ∧
    (∀ entries : List (MsgHandler F),
      msgIdsUnique entries = true ↔ entries.Pairwise fun a b => a.msgId ≠ b.msgId) ∧
    ∀ groups : List (SessionMsgTable F), ValidGroups groups →
      ∀ (msgId : UInt32) (msg : Option Bytes) (len : UInt32),
        (∀ s e, RowAt groups s msgId e →
          (∀ e', RowAt groups s msgId e' → e' = e) ∧
          findAndDispatch (some groups) (some s) msgId msg len = e.outcome msg len) ∧
        (∀ s, (∀ e, ¬RowAt groups s msgId e) →
          findAndDispatch (some groups) (some s) msgId msg len = (false, [])) ∧
        ∀ groups', Shuffled groups groups' → ∀ sessionInst,
          findAndDispatch (some groups') sessionInst msgId msg len
            = findAndDispatch (some groups) sessionInst msgId msg len := by
  refine ⟨sessionGroupsValid_iff, msgIdsUnique_iff, ?_⟩
  intro groups hv msgId msg len
  refine ⟨?_, ?_, ?_⟩
  · intro s e he
    exact ⟨fun e' he' => he'.unique hv he, findAndDispatch_of_rowAt hv he msg len⟩
  · intro s hnone
    exact findAndDispatch_of_not_rowAt hnone msg len
  · intro groups' h sessionInst
    exact h.findAndDispatch_eq hv sessionInst msgId msg len

/-- Two groups, in the order of the unit test and the other way round: the same handler. -/
def twoGroups : List (SessionMsgTable String) := [
  ⟨sessionTypeDts, some ['a'], some [⟨0x11, some "OnMsgA"⟩, ⟨0x12, some "OnMsgB"⟩]⟩,
  ⟨sessionTypeDts, some ['b'], some [⟨0x11, some "OnMsgB"⟩]⟩]

theorem msgTable_law_twoGroups :
    findAndDispatch (some twoGroups.reverse) (some ['b']) 0x11 none 0
      = (true, [⟨"OnMsgB", none, 0⟩]) := by
  have hlaw := (msgTable_law (F := String)).2.2 twoGroups ⟨by decide, by decide⟩ 0x11 none 0
  have hshuf : Shuffled twoGroups twoGroups.reverse :=
    ⟨_, (List.reverse_perm _).symm, List.forall₂_same.mpr fun _ _ => ⟨rfl, rfl, rfl, .refl _⟩⟩
  rw [hlaw.2.2 _ hshuf]
  exact (hlaw.1 ['b'] ⟨0x11, some "OnMsgB"⟩
    ⟨_, List.mem_cons_of_mem _ List.mem_cons_self, rfl, List.mem_cons_self, rfl⟩).2

end Dts.Routing
