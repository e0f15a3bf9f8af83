import Dts.Infra.Bytes
import Mathlib.Logic.Function.Basic

/-!
# FastDDS transport

`detmw_fastdds.cpp`. Writers, readers, types and the table of fixed sizes are all kept under the DDS
topic name, which `makeTopic` makes of an endpoint.

What the library answers is part of the input of each call: whether a topic, a writer or a reader
could be created, whether a sample could be loaned, and whether it could be written.
-/

namespace Dts.Detmw

open Infra

/-- The address of a message. -/
structure Endpoint where
  sessionType : String
  sessionInst : String
  msgId : UInt32
  deriving DecidableEq

/-- A receive function and its context; the function may be `nullptr`. -/
structure Callback where
  fn : Option Nat
  ctx : Nat
  deriving DecidableEq

def makeTopic (ep : Endpoint) : String :=
  ep.sessionType ++ "_" ++ ep.sessionInst ++ "_" ++ ep.msgId.toNat.repr

structure DataReader where
  topic : String
  listener : Callback
  plainSize : UInt32

/-- A sample on the wire. -/
structure Sample where
  topic : String
  bytes : Bytes

/-- `typeObjs` holds the names of the registered types. -/
structure FastDdsState where
  participant : Bool
  typeObjs : String → Option String
  plainSizes : String → Option UInt32
  topics : List String
  writers : List String
  readers : List DataReader
  writeCount : String → UInt64

/-! ## Types and topics -/

/-- The name that `BytesType` or `FixedBytesType` registers under. -/
def typeName (size : Option UInt32) : String :=
  match size with
  | none => "detmw::Bytes"
  | some n => if 0 < n then "detmw::FixedBytes_" ++ n.toNat.repr else "detmw::Bytes"

def getOrCreateType (s : FastDdsState) (topic : String) : String × FastDdsState :=
  match s.typeObjs topic with
  | some type => (type, s)
  | none =>
    let type := typeName (s.plainSizes topic)
    (type, { s with typeObjs := Function.update s.typeObjs topic (some type) })

/-- `false` when `create_topic` fails. -/
def findOrCreateTopic (s : FastDdsState) (topic : String) (created : Bool) :
    Bool × FastDdsState :=
  if topic ∈ s.topics then (true, s)
  else
    let s := (getOrCreateType s topic).2
    if created then (true, { s with topics := s.topics ++ [topic] }) else (false, s)

/-- What the library answers to the creation of an endpoint. -/
structure Created where
  topic : Bool
  endpoint : Bool

def createReader (s : FastDdsState) (ep : Endpoint) (listener : Callback) (dds : Created) :
    Int × FastDdsState :=
  if !s.participant then (-1, s)
  else
    let topic := makeTopic ep
    match findOrCreateTopic s topic dds.topic with
    | (false, s) => (-1, s)
    | (true, s) =>
      let plainSize := (s.plainSizes topic).getD 0
      if dds.endpoint then
        (0, { s with readers := s.readers ++ [⟨topic, listener, plainSize⟩] })
      else (-1, s)

def createWriter (s : FastDdsState) (ep : Endpoint) (dds : Created) : Int × FastDdsState :=
  if !s.participant then (-1, s)
  else
    let topic := makeTopic ep
    if topic ∈ s.writers then (0, s)
    else
      match findOrCreateTopic s topic dds.topic with
      | (false, s) => (-1, s)
      | (true, s) =>
        if dds.endpoint then (0, { s with writers := s.writers ++ [topic] }) else (-1, s)

/-! ## Sending -/

/-- What the library answers to `loan_sample` and `write`. -/
structure Written where
  loan : Bool
  write : Bool

/-- The result of `Send`: the code, the sample written and the state. -/
structure Sent where
  rc : Int
  sample : Option Sample
  state : FastDdsState

/-- `write` of a loan or of a copy; both hand the same bytes to the library. -/
def writeSample (s : FastDdsState) (topic : String) (data : Payload) (write : Bool) : Sent :=
  if write then
    let writeCount := Function.update s.writeCount topic (s.writeCount topic + 1)
    ⟨0, some ⟨topic, data.bytes⟩, { s with writeCount := writeCount }⟩
  else ⟨-1, none, s⟩

def send (s : FastDdsState) (ep : Endpoint) (data : Payload) (dds : Written) : Sent :=
  if !s.participant then ⟨-1, none, s⟩
  else
    let topic := makeTopic ep
    if topic ∉ s.writers then ⟨-1, none, s⟩
    else
      let size := (s.plainSizes topic).getD 0
      let plain := 0 < size
      if plain ∧ data.len ≠ size then ⟨-1, none, s⟩
      else if plain ∧ dds.loan then writeSample s topic data dds.write
      else writeSample s topic data dds.write

/--
The delivery of the library, which readers of the domain a sample may reach: only those of the topic
that it was written to.
-/
structure Delivery where
  reaches : DataReader → Sample → Prop
  ownTopic : ∀ r sample, reaches r sample → r.topic = sample.topic

/-! ## What the calls do -/

/-- `typeObjs` agrees with the table of sizes. -/
def TypesFixed (s : FastDdsState) : Prop :=
  ∀ topic type, s.typeObjs topic = some type → type = typeName (s.plainSizes topic)

theorem getOrCreateType_fst {s : FastDdsState} (h : TypesFixed s) (topic : String) :
    (getOrCreateType s topic).1 = typeName (s.plainSizes topic) := by
  unfold getOrCreateType
  cases htype : s.typeObjs topic with
  | none => rfl
  | some type => exact h topic type htype

/-- Only `typeObjs` can change. -/
theorem getOrCreateType_snd (s : FastDdsState) (topic : String) :
    ∃ types, (getOrCreateType s topic).2 = { s with typeObjs := types } := by
  unfold getOrCreateType
  split
  · exact ⟨s.typeObjs, rfl⟩
  · exact ⟨_, rfl⟩

theorem typesFixed_getOrCreateType {s : FastDdsState} (h : TypesFixed s) (topic : String) :
    TypesFixed (getOrCreateType s topic).2 := by
  unfold getOrCreateType
  split
  · exact h
  · intro t type htype
    change Function.update s.typeObjs topic (some (typeName (s.plainSizes topic))) t = some type
      at htype
    show type = typeName (s.plainSizes t)
    by_cases ht : t = topic
    · rw [ht, Function.update_self] at htype
      rw [ht, ← Option.some.inj htype]
    · rw [Function.update_of_ne ht] at htype
      exact h t type htype

/-- Only `typeObjs` and `topics` can change. -/
theorem findOrCreateTopic_snd (s : FastDdsState) (topic : String) (created : Bool) :
    ∃ types topics, (findOrCreateTopic s topic created).2
      = { s with typeObjs := types, topics := topics } := by
  obtain ⟨types, htypes⟩ := getOrCreateType_snd s topic
  unfold findOrCreateTopic
  split
  · exact ⟨s.typeObjs, s.topics, rfl⟩
  · simp only [htypes]
    split
    · exact ⟨types, s.topics ++ [topic], rfl⟩
    · exact ⟨types, s.topics, rfl⟩

theorem typesFixed_findOrCreateTopic {s : FastDdsState} (h : TypesFixed s) (topic : String)
    (created : Bool) : TypesFixed (findOrCreateTopic s topic created).2 := by
  have hfixed := typesFixed_getOrCreateType h topic
  unfold findOrCreateTopic
  split
  · exact h
  · cases created with
    | false => exact hfixed
    | true => exact hfixed

/-- A call of `CreateReader` adds at most one reader, behind what it does to the topics. -/
theorem createReader_state (s : FastDdsState) (ep : Endpoint) (listener : Callback)
    (dds : Created) :
    ∃ t added, (t = s ∨ t = (findOrCreateTopic s (makeTopic ep) dds.topic).2) ∧
      (∀ r ∈ added, r.topic = makeTopic ep) ∧
      (createReader s ep listener dds).2 = { t with readers := t.readers ++ added } := by
  have hnone : ∀ t : FastDdsState, t = { t with readers := t.readers ++ [] } := by
    intro t
    rw [List.append_nil]
  unfold createReader
  split
  · exact ⟨s, [], Or.inl rfl, by simp, hnone s⟩
  · simp only
    generalize findOrCreateTopic s (makeTopic ep) dds.topic = found
    obtain ⟨ok, t⟩ := found
    cases ok with
    | false => exact ⟨t, [], Or.inr rfl, by simp, hnone t⟩
    | true =>
      simp only
      split
      · refine ⟨t, [⟨makeTopic ep, listener, (t.plainSizes (makeTopic ep)).getD 0⟩], Or.inr rfl,
          ?_, rfl⟩
        intro r hr
        rw [List.mem_singleton.mp hr]
      · exact ⟨t, [], Or.inr rfl, by simp, hnone t⟩

/-- A call of `CreateWriter` adds at most one writer, behind what it does to the topics. -/
theorem createWriter_state (s : FastDdsState) (ep : Endpoint) (dds : Created) :
    ∃ t added, (t = s ∨ t = (findOrCreateTopic s (makeTopic ep) dds.topic).2) ∧
      (createWriter s ep dds).2 = { t with writers := t.writers ++ added } := by
  have hnone : ∀ t : FastDdsState, t = { t with writers := t.writers ++ [] } := by
    intro t
    rw [List.append_nil]
  unfold createWriter
  simp only
  split
  · exact ⟨s, [], Or.inl rfl, hnone s⟩
  · split
    · exact ⟨s, [], Or.inl rfl, hnone s⟩
    · generalize findOrCreateTopic s (makeTopic ep) dds.topic = found
      obtain ⟨ok, t⟩ := found
      cases ok with
      | false => exact ⟨t, [], Or.inr rfl, hnone t⟩
      | true =>
        simp only
        split
        · exact ⟨t, [makeTopic ep], Or.inr rfl, rfl⟩
        · exact ⟨t, [], Or.inr rfl, hnone t⟩

/-- A new reader is entered under the topic of its endpoint. -/
theorem topic_of_createReader {s : FastDdsState} {ep : Endpoint} {listener : Callback}
    {dds : Created} {r : DataReader} (hr : r ∈ (createReader s ep listener dds).2.readers)
    (hnew : r ∉ s.readers) : r.topic = makeTopic ep := by
  obtain ⟨t, added, ht, hadded, hstate⟩ := createReader_state s ep listener dds
  obtain ⟨types, topics, hfind⟩ := findOrCreateTopic_snd s (makeTopic ep) dds.topic
  have hreaders : t.readers = s.readers := by
    rcases ht with rfl | rfl
    · rfl
    · rw [hfind]
  rw [hstate] at hr
  rcases List.mem_append.mp hr with hold | hnew'
  · exact absurd (hreaders ▸ hold) hnew
  · exact hadded r hnew'

theorem participant_createReader (s : FastDdsState) (ep : Endpoint) (listener : Callback)
    (dds : Created) : (createReader s ep listener dds).2.participant = s.participant := by
  obtain ⟨t, added, ht, -, hstate⟩ := createReader_state s ep listener dds
  obtain ⟨types, topics, hfind⟩ := findOrCreateTopic_snd s (makeTopic ep) dds.topic
  rw [hstate]
  rcases ht with rfl | rfl
  · rfl
  · rw [hfind]

/-- Only `writeCount` can change. -/
theorem send_state (s : FastDdsState) (ep : Endpoint) (data : Payload) (dds : Written) :
    ∃ count, (send s ep data dds).state = { s with writeCount := count } := by
  have hwrite : ∀ topic write, ∃ count,
      (writeSample s topic data write).state = { s with writeCount := count } := by
    intro topic write
    unfold writeSample
    split
    · exact ⟨_, rfl⟩
    · exact ⟨s.writeCount, rfl⟩
  unfold send
  simp only
  split
  · exact ⟨s.writeCount, rfl⟩
  · split
    · exact ⟨s.writeCount, rfl⟩
    · split
      · exact ⟨s.writeCount, rfl⟩
      · split
        · exact hwrite _ _
        · exact hwrite _ _

theorem participant_send (s : FastDdsState) (ep : Endpoint) (data : Payload) (dds : Written) :
    (send s ep data dds).state.participant = s.participant := by
  obtain ⟨count, hsend⟩ := send_state s ep data dds
  rw [hsend]

/-- A sample goes out under the topic of its endpoint. -/
theorem topic_of_send {s : FastDdsState} {ep : Endpoint} {data : Payload} {dds : Written}
    {sample : Sample} (h : (send s ep data dds).sample = some sample) :
    sample.topic = makeTopic ep := by
  have hwrite : ∀ write, (writeSample s (makeTopic ep) data write).sample = some sample →
      sample.topic = makeTopic ep := by
    intro write hw
    unfold writeSample at hw
    split at hw
    · rw [← Option.some.inj hw]
    · cases hw
  unfold send at h
  split at h
  · cases h
  · simp only at h
    split at h
    · cases h
    · split at h
      · cases h
      · split at h
        · exact hwrite _ h
        · exact hwrite _ h

/-- `Send` succeeds exactly when the writer is there, the length fits and the library writes. -/
theorem send_rc_eq_zero (s : FastDdsState) (ep : Endpoint) (data : Payload) (dds : Written) :
    (send s ep data dds).rc = 0 ↔ s.participant = true ∧ makeTopic ep ∈ s.writers ∧
      ((s.plainSizes (makeTopic ep)).getD 0 = 0 ∨
        data.len = (s.plainSizes (makeTopic ep)).getD 0) ∧ dds.write = true := by
  have hwrite : (writeSample s (makeTopic ep) data dds.write).rc = 0 ↔ dds.write = true := by
    unfold writeSample
    split <;> simp_all
  have hpos : 0 < (s.plainSizes (makeTopic ep)).getD 0 ↔
      (s.plainSizes (makeTopic ep)).getD 0 ≠ 0 := UInt32.pos_iff_ne_zero
  unfold send
  cases s.participant with
  | false => simp
  | true =>
    simp only [Bool.not_true, Bool.false_eq_true, if_false, true_and, hpos]
    by_cases hw : makeTopic ep ∈ s.writers
    · simp only [hw, not_true_eq_false, if_false, true_and]
      split
      · rename_i hmis
        simp [hmis.1, hmis.2]
      · rename_i hfits
        have hlen : (s.plainSizes (makeTopic ep)).getD 0 = 0 ∨
            data.len = (s.plainSizes (makeTopic ep)).getD 0 := by
          by_cases hzero : (s.plainSizes (makeTopic ep)).getD 0 = 0
          · exact Or.inl hzero
          · exact Or.inr (by by_contra hne; exact hfits ⟨hzero, hne⟩)
        split
        · rw [hwrite]
          exact (and_iff_right hlen).symm
        · rw [hwrite]
          exact (and_iff_right hlen).symm
    · simp [hw]

end Dts.Detmw
