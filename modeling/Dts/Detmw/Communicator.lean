import Dts.Detmw.FastDds

/-!
# Communicator

`detmw.cpp`: subscriptions, and the two ways to publish. `publish_external` hands the message to the
transport. `publish_internal` calls the callbacks that this process has subscribed to the endpoint
and goes to the transport only when there are none.

`internal_agrees_iff` compares the two: the short cut makes none of the checks of `Send`.
-/

namespace Dts.Detmw

open Infra

/-- A transport that `CreateFastDdsTransport` returns: its participant is up. -/
structure Transport where
  state : FastDdsState
  ready : state.participant = true

/-- `localSubs` has the callbacks of this process for each endpoint. -/
structure Communicator where
  transport : Option Transport
  localSubs : Endpoint → List Callback

/-- A call of a receive function: the function, its context and the payload it takes over. -/
structure Handed where
  fn : Nat
  ctx : Nat
  payload : List UInt8
  deriving DecidableEq

/-- The result of a publication: the code, the calls, the sample written and the communicator. -/
structure Published where
  rc : Int
  handed : List Handed
  sample : Option Sample
  comm : Communicator

/-! ## Subscribing and publishing -/

def subscribe (c : Communicator) (src : Endpoint) (listener : Callback) (dds : Created) :
    Int × Communicator :=
  match c.transport with
  | none => (-1, c)
  | some t =>
    let made := createReader t.state src listener dds
    let ready := (participant_createReader t.state src listener dds).trans t.ready
    let c := { c with transport := some ⟨made.2, ready⟩ }
    if made.1 ≠ 0 then (made.1, c)
    else
      let subs := c.localSubs src ++ [listener]
      (0, { c with localSubs := Function.update c.localSubs src subs })

/-- `transport->Send`. -/
def publishOverTransport (c : Communicator) (dst : Endpoint) (data : Payload) (dds : Written) :
    Published :=
  match c.transport with
  | none => ⟨-1, [], none, c⟩
  | some t =>
    let sent := send t.state dst data dds
    let ready := (participant_send t.state dst data dds).trans t.ready
    ⟨sent.rc, [], sent.sample, { c with transport := some ⟨sent.state, ready⟩ }⟩

def publishExternal (c : Communicator) (dst : Endpoint) (data : Payload) (dds : Written) :
    Published :=
  publishOverTransport c dst data dds

/-- The loop over the local subscribers: each gets a payload of its own, a `nullptr` none. -/
def handOut (subs : List Callback) (data : Payload) : List Handed :=
  subs.filterMap fun s => s.fn.map fun fn => ⟨fn, s.ctx, data.bytes⟩

def publishInternal (c : Communicator) (dst : Endpoint) (data : Payload) (dds : Written) :
    Published :=
  let subs := c.localSubs dst
  if !subs.isEmpty then ⟨0, handOut subs data, none, c⟩
  else publishOverTransport c dst data dds

/-! ## Agreement -/

/-- What the internal publication promises: code 0, and one copy for each local subscriber. -/
def HandsOut (c : Communicator) (dst : Endpoint) (data : Payload) (dds : Written) : Prop :=
  (publishInternal c dst data dds).rc = 0 ∧
    (publishInternal c dst data dds).handed
      = ((c.localSubs dst).filter fun s => s.fn.isSome).map
          fun s => ⟨s.fn.getD 0, s.ctx, data.bytes⟩

theorem handOut_eq (subs : List Callback) (data : Payload) :
    handOut subs data
      = (subs.filter fun s => s.fn.isSome).map fun s => ⟨s.fn.getD 0, s.ctx, data.bytes⟩ := by
  induction subs with
  | nil => rfl
  | cons s subs ih =>
    unfold handOut at ih ⊢
    cases hfn : s.fn with
    | none =>
      rw [List.filterMap_cons_none (by rw [hfn]; rfl), List.filter_cons_of_neg (by simp [hfn]), ih]
    | some fn =>
      rw [List.filterMap_cons_some (b := ⟨fn, s.ctx, data.bytes⟩) (by rw [hfn]; rfl),
        List.filter_cons_of_pos (by simp [hfn]), List.map_cons, ih, hfn, Option.getD_some]

/-- With a local subscriber the internal publication always succeeds. -/
theorem handsOut_of_sub {c : Communicator} {dst : Endpoint}
    (hsub : ∃ s ∈ c.localSubs dst, s.fn.isSome = true) (data : Payload) (dds : Written) :
    HandsOut c dst data dds := by
  obtain ⟨s, hs, -⟩ := hsub
  have hne : (!(c.localSubs dst).isEmpty) = true := by
    simpa using List.ne_nil_of_mem hs
  unfold HandsOut publishInternal
  simp only [hne, if_true]
  exact ⟨trivial, handOut_eq _ _⟩

/-- When the internal publication succeeds: with a local subscriber, or over the transport. -/
theorem publishInternal_rc_eq_zero (c : Communicator) (dst : Endpoint) (data : Payload)
    (dds : Written) : (publishInternal c dst data dds).rc = 0 ↔
      c.localSubs dst ≠ [] ∨ ∃ t, c.transport = some t ∧ (send t.state dst data dds).rc = 0 := by
  unfold publishInternal
  cases hsubs : c.localSubs dst with
  | cons s subs => simp
  | nil =>
    unfold publishOverTransport
    cases c.transport with
    | none => simp
    | some t => simp

/--
**Internal and external publication.** For an endpoint with a writer and a local subscriber, when the
write itself succeeds, the internal publication delivers exactly when the external one is accepted
if and only if the topic has no fixed size or the payload has that size.
-/
theorem internal_agrees_iff (c : Communicator) (t : Transport) (dst : Endpoint) (data : Payload)
    (dds : Written) (ht : c.transport = some t) (hwriter : makeTopic dst ∈ t.state.writers)
    (hsub : ∃ s ∈ c.localSubs dst, s.fn.isSome = true) (hwrite : dds.write = true) :
    (HandsOut c dst data dds ↔ (publishExternal c dst data dds).rc = 0) ↔
      ((t.state.plainSizes (makeTopic dst)).getD 0 = 0 ∨
        data.len = (t.state.plainSizes (makeTopic dst)).getD 0) := by
  have hin := handsOut_of_sub hsub data dds
  have hout : (publishExternal c dst data dds).rc = 0 ↔ (send t.state dst data dds).rc = 0 := by
    unfold publishExternal publishOverTransport
    rw [ht]
  rw [hout, send_rc_eq_zero, iff_true_left hin]
  constructor
  · rintro ⟨-, -, hlen, -⟩
    exact hlen
  · intro hlen
    exact ⟨t.ready, hwriter, hlen, hwrite⟩

/-- A communicator with a writer for one endpoint, of the given fixed size, and one subscriber. -/
def oneSubscriber (size : Option UInt32) : Communicator where
  transport := some {
    state := {
      participant := true
      typeObjs := fun _ => none
      plainSizes := fun _ => size
      topics := ["DTS_data_3"]
      writers := ["DTS_data_3"]
      readers := []
      writeCount := fun _ => 0 }
    ready := rfl }
  localSubs := fun ep => if ep = ⟨"DTS", "data", 3⟩ then [⟨some 0, 0⟩] else []

/-- Without a fixed size the two agree on a payload of one byte. -/
theorem internal_agrees_bytes :
    HandsOut (oneSubscriber none) ⟨"DTS", "data", 3⟩ ⟨[7], by decide⟩ ⟨false, true⟩ ↔
      (publishExternal (oneSubscriber none) ⟨"DTS", "data", 3⟩ ⟨[7], by decide⟩ ⟨false, true⟩).rc = 0 :=
  (internal_agrees_iff (oneSubscriber none) _ ⟨"DTS", "data", 3⟩ ⟨[7], by decide⟩ ⟨false, true⟩ rfl
    (by decide) ⟨⟨some 0, 0⟩, by decide, rfl⟩ rfl).mpr (Or.inl rfl)

/-- One byte on a topic of size 4: handed out inside the process, refused by the transport. -/
theorem internal_disagrees_short :
    HandsOut (oneSubscriber (some 4)) ⟨"DTS", "data", 3⟩ ⟨[7], by decide⟩ ⟨false, true⟩ ∧
      (publishExternal (oneSubscriber (some 4)) ⟨"DTS", "data", 3⟩ ⟨[7], by decide⟩
        ⟨false, true⟩).rc = -1 := by
  unfold HandsOut
  decide

end Dts.Detmw
