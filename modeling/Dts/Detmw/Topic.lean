import Dts.Detmw.FastDds
import Dts.Infra.Text

/-!
# Topic names

The rule from an endpoint to its DDS topic is written down three times: in the transport
(`makeTopic`), in the configuration of the communicator (`configTopic`) and in `gen_detmw.py`
(`topicName`). The parts are joined by `_`, which a session type or instance may contain itself.

`topicRule_iff` says for which two endpoints the rule keeps them apart.
-/

namespace Dts.Detmw

open Infra

/-! ## The two other copies of the rule -/

/-- `MakeTopic` of `detmw.cpp`. -/
def configTopic (st si : String) (mid : UInt32) : String :=
  st ++ "_" ++ si ++ "_" ++ mid.toNat.repr

/-- `topic_name` of `gen_detmw.py`, over the texts of its arguments. -/
def topicName (sessionType sessionInst msgId : String) : String :=
  sessionType ++ "_" ++ sessionInst ++ "_" ++ msgId

/-- The entry that a fixed size of an endpoint makes in the table of the communicator. -/
def setPlainSize (plainTopics : String → Option UInt32) (ep : Endpoint) (size : UInt32) :
    String → Option UInt32 :=
  Function.update plainTopics (configTopic ep.sessionType ep.sessionInst ep.msgId) (some size)

/-! ## When two names are equal -/

/-- The copies of the rule agree. -/
theorem configTopic_eq (ep : Endpoint) :
    configTopic ep.sessionType ep.sessionInst ep.msgId = makeTopic ep := rfl

theorem topicName_eq (ep : Endpoint) :
    topicName ep.sessionType ep.sessionInst (Int.repr ep.msgId.toNat) = makeTopic ep := rfl

/-- A piece of the session instance has moved over the separator. -/
def Shifted (e₁ e₂ : Endpoint) : Prop :=
  e₁.msgId = e₂.msgId ∧ ∃ piece : String, e₂.sessionType = e₁.sessionType ++ "_" ++ piece ∧
    e₁.sessionInst = piece ++ "_" ++ e₂.sessionInst

theorem toList_joined (st si : String) :
    (st ++ "_" ++ si).toList = st.toList ++ '_' :: si.toList := by
  simp [String.toList_append]

theorem toList_makeTopic (ep : Endpoint) :
    (makeTopic ep).toList = (ep.sessionType.toList ++ '_' :: ep.sessionInst.toList) ++
      '_' :: ep.msgId.toNat.repr.toList := by
  simp [makeTopic, String.toList_append]

theorem sep_notMem_repr (n : Nat) : '_' ∉ n.repr.toList := by
  intro h
  have hdigit := isDigit_of_mem_repr h
  revert hdigit
  decide

/-- Equal names have the same message id and the same text before it. -/
theorem makeTopic_eq_iff (e₁ e₂ : Endpoint) :
    makeTopic e₁ = makeTopic e₂ ↔
      e₁.sessionType.toList ++ '_' :: e₁.sessionInst.toList
          = e₂.sessionType.toList ++ '_' :: e₂.sessionInst.toList ∧ e₁.msgId = e₂.msgId := by
  rw [← String.toList_inj, toList_makeTopic, toList_makeTopic,
    append_sep_inj (sep_notMem_repr _) (sep_notMem_repr _), String.toList_inj, repr_inj,
    UInt32.toNat_inj]

theorem shifted_iff (e₁ e₂ : Endpoint) :
    Shifted e₁ e₂ ↔ e₁.msgId = e₂.msgId ∧
      ∃ m, e₂.sessionType.toList = e₁.sessionType.toList ++ '_' :: m ∧
        e₁.sessionInst.toList = m ++ '_' :: e₂.sessionInst.toList := by
  refine and_congr_right ?_
  intro _
  constructor
  · rintro ⟨piece, htype, hinst⟩
    exact ⟨piece.toList, by rw [htype, toList_joined], by rw [hinst, toList_joined]⟩
  · rintro ⟨m, htype, hinst⟩
    refine ⟨String.ofList m, ?_, ?_⟩
    · rw [← String.toList_inj, toList_joined, String.toList_ofList, htype]
    · rw [← String.toList_inj, toList_joined, String.toList_ofList, hinst]

/-- **Collisions.** Two endpoints share a name when they are equal or one is the other shifted. -/
theorem makeTopic_eq_cases (e₁ e₂ : Endpoint) :
    makeTopic e₁ = makeTopic e₂ ↔ e₁ = e₂ ∨ Shifted e₁ e₂ ∨ Shifted e₂ e₁ := by
  rw [makeTopic_eq_iff, append_sep_eq_iff, shifted_iff, shifted_iff]
  constructor
  · rintro ⟨⟨htype, hinst⟩ | ⟨m, htype, hinst⟩ | ⟨m, htype, hinst⟩, hid⟩
    · left
      cases e₁
      cases e₂
      rw [Endpoint.mk.injEq]
      exact ⟨String.toList_inj.mp htype, String.toList_inj.mp hinst, hid⟩
    · exact Or.inr (Or.inl ⟨hid, m, htype, hinst⟩)
    · exact Or.inr (Or.inr ⟨hid.symm, m, htype, hinst⟩)
  · rintro (rfl | ⟨hid, m, htype, hinst⟩ | ⟨hid, m, htype, hinst⟩)
    · exact ⟨Or.inl ⟨rfl, rfl⟩, rfl⟩
    · exact ⟨Or.inr (Or.inl ⟨m, htype, hinst⟩), hid⟩
    · exact ⟨Or.inr (Or.inr ⟨m, htype, hinst⟩), hid.symm⟩

/-- A shift changes the session type. -/
theorem Shifted.ne {e₁ e₂ : Endpoint} (h : Shifted e₁ e₂) : e₁ ≠ e₂ := by
  rintro rfl
  obtain ⟨-, m, htype, -⟩ := (shifted_iff e₁ e₁).mp h
  have hlen := congrArg List.length htype
  rw [List.length_append, List.length_cons] at hlen
  omega

/-! ## The rule -/

/-- **The rule keeps the two endpoints apart**, and with the names all that is kept under them. -/
structure TopicRule (dds : Delivery) (e₁ e₂ : Endpoint) : Prop where
  injective : makeTopic e₁ = makeTopic e₂ → e₁ = e₂
  copies : ∀ ep : Endpoint, configTopic ep.sessionType ep.sessionInst ep.msgId = makeTopic ep ∧
    topicName ep.sessionType ep.sessionInst (Int.repr ep.msgId.toNat) = makeTopic ep
  /-- a publication on `e₁` does not reach a reader made for `e₂` -/
  delivery : ∀ (s t : FastDdsState) (data : Payload) (written : Written) (sample : Sample)
    (listener : Callback) (made : Created) (r : DataReader),
    (send s e₁ data written).sample = some sample →
    r ∈ (createReader t e₂ listener made).2.readers → r ∉ t.readers →
    dds.reaches r sample → e₁ = e₂
  /-- a fixed size of `e₁` does not change that of `e₂` -/
  plainSize : ∀ (plainTopics : String → Option UInt32) (size : UInt32),
    setPlainSize plainTopics e₁ size (makeTopic e₂) ≠ plainTopics (makeTopic e₂) → e₁ = e₂

theorem topicRule_of_injective (dds : Delivery) {e₁ e₂ : Endpoint}
    (h : makeTopic e₁ = makeTopic e₂ → e₁ = e₂) : TopicRule dds e₁ e₂ where
  injective := h
  copies := fun ep => ⟨configTopic_eq ep, topicName_eq ep⟩
  delivery := by
    intro s t data written sample listener made r hsend hr hnew hreaches
    have hsame := dds.ownTopic r sample hreaches
    rw [topic_of_createReader hr hnew, topic_of_send hsend] at hsame
    exact h hsame.symm
  plainSize := by
    intro plainTopics size hchanged
    by_contra hne
    refine hchanged ?_
    rw [setPlainSize, configTopic_eq, Function.update_of_ne fun heq => hne (h heq.symm)]

/--
**Topic names.** The rule keeps two endpoints apart if and only if none of them is the other with a
piece moved over the separator.
-/
theorem topicRule_iff (dds : Delivery) (e₁ e₂ : Endpoint) :
    TopicRule dds e₁ e₂ ↔ ¬ Shifted e₁ e₂ ∧ ¬ Shifted e₂ e₁ := by
  constructor
  · intro h
    refine ⟨fun hs => hs.ne ?_, fun hs => hs.ne.symm ?_⟩
    · exact h.injective ((makeTopic_eq_cases e₁ e₂).mpr (Or.inr (Or.inl hs)))
    · exact h.injective ((makeTopic_eq_cases e₁ e₂).mpr (Or.inr (Or.inr hs)))
  · rintro ⟨h₁, h₂⟩
    refine topicRule_of_injective dds ?_
    intro heq
    rcases (makeTopic_eq_cases e₁ e₂).mp heq with h | h | h
    · exact h
    · exact absurd h h₁
    · exact absurd h h₂

/-- A sample reaches every reader of its topic. -/
def byName : Delivery where
  reaches := fun r sample => r.topic = sample.topic
  ownTopic := fun _ _ h => h

/-- Two endpoints with separators in their parts that are kept apart. -/
theorem topicRule_separators :
    TopicRule byName ⟨"DTS", "x_data", 3⟩ ⟨"DTS_x", "data_x", 3⟩ := by
  refine (topicRule_iff byName _ _).mpr ⟨?_, ?_⟩
  · intro h
    obtain ⟨-, m, htype, hinst⟩ := (shifted_iff _ _).mp h
    have htype : ['D', 'T', 'S', '_'] ++ ['x'] = ['D', 'T', 'S', '_'] ++ m := htype
    obtain rfl : ['x'] = m := List.append_cancel_left htype
    revert hinst
    decide
  · intro h
    obtain ⟨-, m, htype, -⟩ := (shifted_iff _ _).mp h
    have hlen := congrArg List.length htype
    rw [List.length_append] at hlen
    change 3 = 5 + _ at hlen
    omega

/-- Instance `x_data` of type `DTS` and instance `data` of type `DTS_x` share the topic of id 3. -/
theorem topicRule_fails_shifted :
    makeTopic ⟨"DTS", "x_data", 3⟩ = makeTopic ⟨"DTS_x", "data", 3⟩ ∧
      ¬ TopicRule byName ⟨"DTS", "x_data", 3⟩ ⟨"DTS_x", "data", 3⟩ := by
  have heq : makeTopic ⟨"DTS", "x_data", 3⟩ = makeTopic ⟨"DTS_x", "data", 3⟩ := by decide
  refine ⟨heq, ?_⟩
  intro h
  have hsame := h.injective heq
  revert hsame
  decide

end Dts.Detmw
