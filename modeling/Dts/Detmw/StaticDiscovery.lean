import Dts.Detmw.Topic
import Dts.Infra.MapM
import Mathlib.Data.List.Find

/-!
# Static discovery

`gen_detmw.py` writes one XML endpoint for every topic entry of a process, and the communicator of
the process makes an endpoint of the same entry at run time. With static discovery the two have to
agree on the topic name, the direction and the data type.

Every field of an entry is read twice. Python looks a key up as it is spelled and keeps the text of a
number. cJSON takes the first key that is equal up to case, ends every text at a NUL, and the
communicator casts a number to `uint32_t`. `gen_static_xml` writes the names without the escapes of
XML; what the XML reader of the library makes of such a text is a parameter.

`static_agrees_iff` says for which entries both sides agree, and what that means for an entry whose
keys are all plain.
-/

namespace Dts.Detmw

open Infra

/-! ## JSON values -/

/-- A number that Python reads as a `float`; its text always has a character that is no digit. -/
structure JsonFloat where
  text : String
  trunc : Int
  positive : Bool
  notDecimal : ∃ c ∈ text.toList, c.isDigit = false

/-- A JSON value; `other` has the text that Python prints for it. -/
inductive JsonValue where
  | str (s : String)
  | int (v : Int)
  | float (v : JsonFloat)
  | other (text : String)

namespace JsonValue

/-- The text of the value in an f-string. -/
def text : JsonValue → String
  | str s => s
  | int v => v.repr
  | float v => v.text
  | other text => text

/-- The characters before the first NUL. -/
def cString (s : String) : String :=
  String.ofList (s.toList.takeWhile (· ≠ '\x00'))

/-- `cJSON_GetStringValue`. -/
def string? : JsonValue → Option String
  | str s => some (cString s)
  | _ => none

/-- The integral part of `valuedouble`, for a number. -/
def number? : JsonValue → Option Int
  | int v => some v
  | float v => some v.trunc
  | _ => none

/-- A number greater than 0. -/
def isPositive : JsonValue → Bool
  | int v => 0 < v
  | float v => v.positive
  | _ => false

end JsonValue

/-- `static_cast<uint32_t>` of a `double`; the outcome is defined only for values in range. -/
structure CastU32 where
  apply : Int → UInt32
  inRange : ∀ v : Int, 0 ≤ v → v < 2 ^ 32 → ((apply v).toNat : Int) = v

/-- A topic entry, its fields in their order, with the ids that `main` of the generator gives it. -/
structure TopicEntry where
  fields : List (String × JsonValue)
  entityId : Nat
  userId : Nat

/-- `t[key]` of the dictionary. -/
def TopicEntry.dictItem (t : TopicEntry) (key : String) : Option JsonValue :=
  (t.fields.find? fun f => f.1 = key).map (·.2)

/-- `case_insensitive_strcmp(name, key) == 0`, for a key of the file. -/
def sameKey (name key : String) : Bool :=
  name.toList.map Char.toLower = (JsonValue.cString key).toList.map Char.toLower

/-- `cJSON_GetObjectItem`. -/
def TopicEntry.objectItem (t : TopicEntry) (name : String) : Option JsonValue :=
  (t.fields.find? fun f => sameKey name f.1).map (·.2)

structure ProcessConfig where
  process : String
  topics : List TopicEntry

/-! ## The generator -/

/-- A text that stands for itself between two tags: no control character, no markup, no reference. -/
def PlainText (s : String) : Prop :=
  ∀ c ∈ s.toList, ' ' ≤ c ∧ c ≠ '&' ∧ c ≠ '<' ∧ c ≠ '>'

/--
The XML reader of the library: the value of an element with this text between its tags, if it takes
it at all. Plain text is its own value, unless it is blank.
-/
structure XmlReader where
  text : String → Option String
  plain : ∀ s, PlainText s → (∃ c ∈ s.toList, c ≠ ' ') → text s = some s

/-- An endpoint of the file, with the text between the tags of its name. -/
structure XmlEndpoint where
  writer : Bool
  entityId : Nat
  userId : Nat
  topicName : String
  topicDataType : String
  deriving DecidableEq

/-- `role == "publish"`. -/
def isPublishRole : Option JsonValue → Bool
  | some (.str role) => role = "publish"
  | _ => false

/-- The loop body of `gen_static_xml`; `none` is a `KeyError`. -/
def xmlEndpoint (t : TopicEntry) : Option XmlEndpoint :=
  match t.dictItem "session_type", t.dictItem "session_inst", t.dictItem "msg_id" with
  | some st, some si, some mid => some {
      writer := isPublishRole (t.dictItem "role")
      entityId := t.entityId
      userId := t.userId
      topicName := topicName st.text si.text mid.text
      topicDataType := "detmw::Bytes" }
  | _, _, _ => none

/-- The endpoints of every participant. -/
def genStaticXml (procs : List ProcessConfig) : Option (List (String × List XmlEndpoint)) :=
  procs.mapM fun p => (p.topics.mapM xmlEndpoint).map fun endpoints => (p.process, endpoints)

/-! ## The communicator -/

structure ConfigEntry where
  ep : Endpoint
  isPublish : Bool
  plainSize : UInt32
  topic : String

variable (cast : CastU32)

/-- A `plain_size` greater than 0. -/
def TopicEntry.plain (t : TopicEntry) : Option UInt32 :=
  (t.objectItem "plain_size").bind fun ps => if ps.isPositive then ps.number?.map cast.apply else none

/-- The entry as the constructor of `Communicator` reads it; `none` when it is skipped. -/
def parseEntry (t : TopicEntry) : Option ConfigEntry :=
  match (t.objectItem "session_type").bind (·.string?),
    (t.objectItem "session_inst").bind (·.string?), (t.objectItem "msg_id").bind (·.number?),
    (t.objectItem "role").bind (·.string?) with
  | some st, some si, some mid, some role =>
    let msgId := cast.apply mid
    some {
      ep := ⟨st, si, msgId⟩
      isPublish := role = "publish"
      plainSize := (t.plain cast).getD 0
      topic := configTopic st si msgId }
  | _, _, _, _ => none

structure Config where
  config : List ConfigEntry
  plainTopics : String → Option UInt32

def loadEntry (c : Config) (t : TopicEntry) : Config :=
  match parseEntry cast t with
  | none => c
  | some e =>
    let plainTopics := match t.plain cast with
      | some size => setPlainSize c.plainTopics e.ep size
      | none => c.plainTopics
    ⟨c.config ++ [e], plainTopics⟩

def loadConfig (topics : List TopicEntry) : Config :=
  topics.foldl (loadEntry cast) ⟨[], fun _ => none⟩

/-- The transport as `CreateFastDdsTransport` returns it. -/
def createTransport (c : Config) : FastDdsState where
  participant := true
  typeObjs := fun _ => none
  plainSizes := c.plainTopics
  topics := []
  writers := []
  readers := []
  writeCount := fun _ => 0

/-- A call of the communicator to the transport. -/
inductive TransportCall where
  | createWriter (ep : Endpoint) (dds : Created)
  | createReader (ep : Endpoint) (listener : Callback) (dds : Created)
  | send (ep : Endpoint) (data : Payload) (dds : Written)

def runCall (s : FastDdsState) : TransportCall → FastDdsState
  | .createWriter ep dds => (createWriter s ep dds).2
  | .createReader ep listener dds => (createReader s ep listener dds).2
  | .send ep data dds => (send s ep data dds).state

structure RuntimeEndpoint where
  writer : Bool
  topic : String
  typeName : String
  deriving DecidableEq

/-- The endpoint of an entry: a writer if it publishes, under the type registered for its topic. -/
def runtimeEndpoint (s : FastDdsState) (e : ConfigEntry) : RuntimeEndpoint where
  writer := e.isPublish
  topic := makeTopic e.ep
  typeName := (getOrCreateType s (makeTopic e.ep)).1

/-- Both sides mean the same endpoint. -/
def Agrees (xml : XmlReader) (x : XmlEndpoint) (r : RuntimeEndpoint) : Prop :=
  xml.text x.topicName = some r.topic ∧ x.writer = r.writer ∧ x.topicDataType = r.typeName

/-! ## The table of fixed sizes -/

/-- The size that an accepted entry gives to a topic. -/
def TopicEntry.declares (t : TopicEntry) (topic : String) : Option UInt32 :=
  (parseEntry cast t).bind fun e => if e.topic = topic then t.plain cast else none

/-- The last size given to a topic, 0 when there is none. -/
def declaredSize (topics : List TopicEntry) (topic : String) : UInt32 :=
  ((topics.filterMap fun t => t.declares cast topic).getLast?).getD 0

theorem topic_of_parseEntry {t : TopicEntry} {e : ConfigEntry} (h : parseEntry cast t = some e) :
    e.topic = makeTopic e.ep := by
  unfold parseEntry at h
  split at h
  · cases h
    rfl
  · cases h

theorem plainTopics_loadEntry (c : Config) (t : TopicEntry) (topic : String) :
    (loadEntry cast c t).plainTopics topic = (t.declares cast topic).or (c.plainTopics topic) := by
  unfold loadEntry TopicEntry.declares
  cases hparse : parseEntry cast t with
  | none => rfl
  | some e =>
    simp only [Option.bind_some]
    cases hplain : t.plain cast with
    | none => simp
    | some size =>
      show setPlainSize c.plainTopics e.ep size topic = _
      rw [setPlainSize, configTopic_eq, ← topic_of_parseEntry cast hparse]
      by_cases htopic : e.topic = topic
      · rw [if_pos htopic, htopic, Function.update_self, Option.some_or]
      · rw [if_neg htopic, Function.update_of_ne (Ne.symm htopic), Option.none_or]

theorem plainTopics_foldl (topics : List TopicEntry) (c : Config) (topic : String) :
    (topics.foldl (loadEntry cast) c).plainTopics topic =
      ((topics.filterMap fun t => t.declares cast topic).getLast?).or (c.plainTopics topic) := by
  induction topics generalizing c with
  | nil => rfl
  | cons t topics ih =>
    rw [List.foldl_cons, ih, plainTopics_loadEntry]
    cases hdecl : t.declares cast topic with
    | none => simp only [List.filterMap_cons, hdecl, Option.none_or]
    | some size =>
      simp only [List.filterMap_cons, hdecl, List.getLast?_cons]
      cases (topics.filterMap fun t => t.declares cast topic).getLast? with
      | none => rfl
      | some last => rfl

/-- The table has the last size that was given to the topic. -/
theorem plainTopics_loadConfig (topics : List TopicEntry) (topic : String) :
    ((loadConfig cast topics).plainTopics topic).getD 0 = declaredSize cast topics topic := by
  rw [loadConfig, plainTopics_foldl, Option.or_none]
  rfl

/-! ## Types at run time -/

/-- What holds of the transport from its creation on. -/
structure Serves (c : Config) (s : FastDdsState) : Prop where
  types : TypesFixed s
  sizes : s.plainSizes = c.plainTopics

theorem serves_createTransport (c : Config) : Serves c (createTransport c) where
  types := fun _ _ h => by cases h
  sizes := rfl

theorem Serves.findOrCreateTopic {c : Config} {s : FastDdsState} (h : Serves c s) (topic : String)
    (created : Bool) : Serves c (findOrCreateTopic s topic created).2 where
  types := typesFixed_findOrCreateTopic h.types topic created
  sizes := by
    obtain ⟨types, topics, hfind⟩ := findOrCreateTopic_snd s topic created
    rw [hfind]
    exact h.sizes

theorem Serves.runCall {c : Config} {s : FastDdsState} (h : Serves c s) (call : TransportCall) :
    Serves c (runCall s call) := by
  cases call with
  | createWriter ep dds =>
    obtain ⟨t, added, ht, hstate⟩ := createWriter_state s ep dds
    show Serves c (Detmw.createWriter s ep dds).2
    rw [hstate]
    rcases ht with rfl | rfl
    · exact ⟨h.types, h.sizes⟩
    · have htopic := h.findOrCreateTopic (makeTopic ep) dds.topic
      exact ⟨htopic.types, htopic.sizes⟩
  | createReader ep listener dds =>
    obtain ⟨t, added, ht, -, hstate⟩ := createReader_state s ep listener dds
    show Serves c (Detmw.createReader s ep listener dds).2
    rw [hstate]
    rcases ht with rfl | rfl
    · exact ⟨h.types, h.sizes⟩
    · have htopic := h.findOrCreateTopic (makeTopic ep) dds.topic
      exact ⟨htopic.types, htopic.sizes⟩
  | send ep data dds =>
    obtain ⟨count, hsend⟩ := send_state s ep data dds
    unfold Detmw.runCall
    simp only [hsend]
    exact ⟨h.types, h.sizes⟩

theorem Serves.runCalls {c : Config} {s : FastDdsState} (h : Serves c s)
    (calls : List TransportCall) : Serves c (calls.foldl Detmw.runCall s) := by
  induction calls generalizing s with
  | nil => exact h
  | cons call calls ih => exact ih (h.runCall call)

/-- The type of a topic is `detmw::Bytes` when its size is 0. -/
theorem typeName_eq_bytes (size : Option UInt32) :
    "detmw::Bytes" = typeName size ↔ size.getD 0 = 0 := by
  cases size with
  | none => exact iff_of_true rfl rfl
  | some n =>
    unfold typeName
    simp only [Option.getD_some]
    split
    · rename_i hpos
      refine iff_of_false (fun h => ?_) (UInt32.pos_iff_ne_zero.mp hpos)
      have hlist := congrArg (fun s => s.toList.take 8) h
      rw [String.toList_append] at hlist
      revert hlist
      simp
    · rename_i hpos
      exact iff_of_true rfl (by_contra fun h => hpos (UInt32.pos_iff_ne_zero.mpr h))

/-! ## Agreement -/

/-- The words of a text between the separators of a topic name. -/
def words (s : String) : List (List Char) :=
  s.toList.splitOn '_'

/-- The text of a value in the name that the generator writes. -/
def TopicEntry.writtenText (t : TopicEntry) (key : String) : String :=
  ((t.dictItem key).map (·.text)).getD ""

/-- The words of the three values that the generator joins to the name. -/
def TopicEntry.writtenWords (t : TopicEntry) : List (List Char) :=
  ["session_type", "session_inst", "msg_id"].flatMap fun key => words (t.writtenText key)

/-- The words of the name that the XML reader finds. -/
def TopicEntry.xmlWords (xml : XmlReader) (t : TopicEntry) : Option (List (List Char)) :=
  (xml.text (topicName (t.writtenText "session_type") (t.writtenText "session_inst")
    (t.writtenText "msg_id"))).map words

/-- The words of the three values that the communicator finds. -/
def TopicEntry.readWords (t : TopicEntry) : List (List Char) :=
  (["session_type", "session_inst"].flatMap fun key =>
    words (((t.objectItem key).bind (·.string?)).getD "")) ++
    [(((t.objectItem "msg_id").bind (·.number?)).map fun v => (cast.apply v).toNat.repr.toList).getD []]

/-- The role is `publish` for both readers of the entry, or for none. -/
def TopicEntry.SameRole (t : TopicEntry) : Prop :=
  t.dictItem "role" = some (.str "publish") ↔
    (t.objectItem "role").bind (·.string?) = some "publish"

/-- The message id is written as an integer that fits into 32 bits. -/
def MsgIdInRange (t : TopicEntry) : Prop :=
  ∃ v : Int, t.dictItem "msg_id" = some (.int v) ∧ 0 ≤ v ∧ v < 2 ^ 32

/-- The three texts of the name stand for themselves in XML. -/
def TopicEntry.PlainName (t : TopicEntry) : Prop :=
  ∀ key ∈ ["session_type", "session_inst", "msg_id"], PlainText (t.writtenText key)

/-- cJSON finds what Python finds, and no text is cut at a NUL. -/
structure TopicEntry.Plain (t : TopicEntry) : Prop where
  keys : ∀ key ∈ ["session_type", "session_inst", "msg_id", "role"],
    t.objectItem key = t.dictItem key
  texts : ∀ f ∈ t.fields, ∀ s, f.2 = .str s → JsonValue.cString s = s

/-- The text of a number is the decimal text of its cast only for an integer in range. -/
theorem text_eq_repr_iff {mid : JsonValue} {v : Int} (hmid : mid.number? = some v) :
    mid.text = (cast.apply v).toNat.repr ↔ mid = .int v ∧ 0 ≤ v ∧ v < 2 ^ 32 := by
  cases mid with
  | str s => cases hmid
  | other text => cases hmid
  | int w =>
    cases hmid
    show v.repr = _ ↔ _
    rw [repr_int_inj]
    constructor
    · intro h
      have hlt := (cast.apply v).toNat_lt
      exact ⟨rfl, by omega, by omega⟩
    · rintro ⟨-, h0, hlt⟩
      exact (cast.inRange v h0 hlt).symm
  | float w =>
    obtain ⟨c, hc, hdigit⟩ := w.notDecimal
    exact iff_of_false (ne_repr hc hdigit _) (fun h => by cases h.1)

theorem words_repr (n : Nat) : words n.repr = [n.repr.toList] :=
  List.splitOn_eq_singleton (sep_notMem_repr n)

/-- A text is put together again from its words. -/
theorem words_inj {s t : String} : words s = words t ↔ s = t := by
  constructor
  · intro h
    have hlist := congrArg (['_'].intercalate ·) h
    unfold words at hlist
    simp only [List.intercalate_splitOn] at hlist
    exact String.toList_inj.mp hlist
  · rintro rfl
    rfl

theorem words_topicName (st si m : String) :
    words (topicName st si m) = words st ++ (words si ++ words m) := by
  have hname : (topicName st si m).toList = st.toList ++ '_' :: (si.toList ++ '_' :: m.toList) := by
    simp [topicName, String.toList_append]
  unfold words
  rw [hname, List.splitOn_append_cons_self, List.splitOn_append_cons_self]

/-- What an entry accepted by the communicator looks like. -/
theorem parseEntry_eq_some {t : TopicEntry} {e : ConfigEntry} (h : parseEntry cast t = some e) :
    ∃ st si mid v role, t.objectItem "session_type" = some (.str st) ∧
      t.objectItem "session_inst" = some (.str si) ∧ t.objectItem "msg_id" = some mid ∧
      mid.number? = some v ∧ t.objectItem "role" = some (.str role) ∧
      e.ep = ⟨JsonValue.cString st, JsonValue.cString si, cast.apply v⟩ ∧
      e.isPublish = decide (JsonValue.cString role = "publish") := by
  have hstring : ∀ {o : Option JsonValue} {s : String}, o.bind (·.string?) = some s →
      ∃ s', o = some (.str s') ∧ s = JsonValue.cString s' := by
    intro o s hs
    obtain ⟨val, rfl, hval⟩ := Option.bind_eq_some_iff.mp hs
    cases val with
    | str s' => exact ⟨s', rfl, (Option.some.inj hval).symm⟩
    | int v => cases hval
    | float v => cases hval
    | other text => cases hval
  unfold parseEntry at h
  split at h
  · rename_i st si v role hst hsi hmid hrole
    cases h
    obtain ⟨mid, hmid, hv⟩ := Option.bind_eq_some_iff.mp hmid
    obtain ⟨st, htype, rfl⟩ := hstring hst
    obtain ⟨si, hinst, rfl⟩ := hstring hsi
    obtain ⟨role, hrole', rfl⟩ := hstring hrole
    exact ⟨st, si, mid, v, role, htype, hinst, hmid, hv, hrole', rfl, rfl⟩
  · cases h

/-- What an entry accepted by the generator looks like. -/
theorem xmlEndpoint_eq_some {t : TopicEntry} {x : XmlEndpoint} (h : xmlEndpoint t = some x) :
    ∃ st si mid, t.dictItem "session_type" = some st ∧ t.dictItem "session_inst" = some si ∧
      t.dictItem "msg_id" = some mid ∧ x.topicName = topicName st.text si.text mid.text ∧
      x.writer = isPublishRole (t.dictItem "role") ∧ x.topicDataType = "detmw::Bytes" := by
  unfold xmlEndpoint at h
  split at h
  · rename_i st si mid hst hsi hmid
    cases h
    exact ⟨st, si, mid, hst, hsi, hmid, rfl, rfl, rfl⟩
  · cases h

theorem isPublishRole_iff (o : Option JsonValue) :
    isPublishRole o = true ↔ o = some (.str "publish") := by
  unfold isPublishRole
  split
  · rw [decide_eq_true_iff, Option.some_inj, JsonValue.str.injEq]
  · rename_i hne
    refine iff_of_false Bool.false_ne_true ?_
    rintro rfl
    exact hne "publish" rfl

theorem topicName_of_xmlEndpoint {t : TopicEntry} {x : XmlEndpoint} (hx : xmlEndpoint t = some x) :
    x.topicName = topicName (t.writtenText "session_type") (t.writtenText "session_inst")
      (t.writtenText "msg_id") := by
  obtain ⟨st, si, mid, hst, hsi, hmid, hname, -⟩ := xmlEndpoint_eq_some hx
  rw [hname, TopicEntry.writtenText, TopicEntry.writtenText, TopicEntry.writtenText, hst, hsi, hmid]
  rfl

/-- The two names of an entry are equal when the words are. -/
theorem topicName_eq_iff (xml : XmlReader) {t : TopicEntry} {e : ConfigEntry} {x : XmlEndpoint}
    (he : parseEntry cast t = some e) (hx : xmlEndpoint t = some x) :
    xml.text x.topicName = some (makeTopic e.ep) ↔ t.xmlWords xml = some (t.readWords cast) := by
  obtain ⟨st, si, mid, v, -, hst, hsi, hmid, hv, -, hep, -⟩ := parseEntry_eq_some cast he
  have hmake : makeTopic e.ep =
      topicName (JsonValue.cString st) (JsonValue.cString si) (cast.apply v).toNat.repr := by
    rw [hep]
    rfl
  have hread : t.readWords cast = words (makeTopic e.ep) := by
    rw [hmake, words_topicName, words_repr]
    unfold TopicEntry.readWords
    simp [hst, hsi, hmid, hv, JsonValue.string?]
  have hwords : Function.Injective words := fun _ _ h => words_inj.mp h
  have hsome : some (words (makeTopic e.ep)) = (some (makeTopic e.ep)).map words := rfl
  rw [TopicEntry.xmlWords, ← topicName_of_xmlEndpoint hx, hread, hsome,
    (Option.map_injective hwords).eq_iff]

/-- Of plain text the XML reader finds the words that are written. -/
theorem TopicEntry.PlainName.xmlWords {t : TopicEntry} (h : t.PlainName) (xml : XmlReader) :
    t.xmlWords xml = some t.writtenWords := by
  have hname : (topicName (t.writtenText "session_type") (t.writtenText "session_inst")
      (t.writtenText "msg_id")).toList = (t.writtenText "session_type").toList ++
        '_' :: ((t.writtenText "session_inst").toList ++ '_' :: (t.writtenText "msg_id").toList) := by
    simp [topicName, String.toList_append]
  have hsep : ' ' ≤ '_' ∧ '_' ≠ '&' ∧ '_' ≠ '<' ∧ '_' ≠ '>' := by decide
  rw [TopicEntry.xmlWords, xml.plain, Option.map_some, words_topicName, TopicEntry.writtenWords]
  · simp
  · intro c hc
    rw [hname] at hc
    simp only [List.mem_append, List.mem_cons] at hc
    rcases hc with hc | rfl | hc | rfl | hc
    · exact h "session_type" (by simp) c hc
    · exact hsep
    · exact h "session_inst" (by simp) c hc
    · exact hsep
    · exact h "msg_id" (by simp) c hc
  · exact ⟨'_', by simp [hname], by decide⟩

/-- The two directions of an entry are equal when its role is the same for both readers. -/
theorem writer_eq_iff {t : TopicEntry} {e : ConfigEntry} {x : XmlEndpoint}
    (he : parseEntry cast t = some e) (hx : xmlEndpoint t = some x) :
    x.writer = e.isPublish ↔ t.SameRole := by
  obtain ⟨-, -, -, -, role, -, -, -, -, hrole, -, hpub⟩ := parseEntry_eq_some cast he
  obtain ⟨-, -, -, -, -, -, -, hwriter, -⟩ := xmlEndpoint_eq_some hx
  unfold TopicEntry.SameRole
  rw [hwriter, hpub, Bool.eq_iff_iff, isPublishRole_iff, decide_eq_true_iff, hrole]
  exact iff_congr Iff.rfl Option.some_inj.symm

/-- cJSON finds what Python finds when a key occurs in one spelling only. -/
theorem objectItem_eq_dictItem {t : TopicEntry} {key : String}
    (h : ∀ f ∈ t.fields, sameKey key f.1 = decide (f.1 = key)) :
    t.objectItem key = t.dictItem key := by
  unfold TopicEntry.objectItem TopicEntry.dictItem
  rw [List.find?_congr h]

/-- A text that cJSON finds in a plain entry is whole. -/
theorem TopicEntry.Plain.cString_eq {t : TopicEntry} (h : t.Plain) {name s : String}
    (hfind : t.objectItem name = some (.str s)) : JsonValue.cString s = s := by
  obtain ⟨f, hf, hval⟩ := Option.map_eq_some_iff.mp hfind
  exact h.texts f (List.mem_of_find?_eq_some hf) s hval

/-- **Plain entries.** The role is the same, and the words are when the message id is in range. -/
theorem TopicEntry.Plain.same {t : TopicEntry} (h : t.Plain) {e : ConfigEntry}
    (he : parseEntry cast t = some e) :
    t.SameRole ∧ (t.writtenWords = t.readWords cast ↔ MsgIdInRange t) := by
  obtain ⟨st, si, mid, v, role, hst, hsi, hmid, hv, hrole, -, -⟩ := parseEntry_eq_some cast he
  have hdst := (h.keys "session_type" (by simp)).symm.trans hst
  have hdsi := (h.keys "session_inst" (by simp)).symm.trans hsi
  have hdmid := (h.keys "msg_id" (by simp)).symm.trans hmid
  have hdrole := (h.keys "role" (by simp)).symm.trans hrole
  constructor
  · unfold TopicEntry.SameRole
    rw [hdrole, hrole, Option.some_inj, JsonValue.str.injEq]
    show role = "publish" ↔ some (JsonValue.cString role) = some "publish"
    rw [h.cString_eq hrole, Option.some_inj]
  · have hread : t.readWords cast = words st ++ (words si ++ words (cast.apply v).toNat.repr) := by
      rw [words_repr]
      unfold TopicEntry.readWords
      simp [hst, hsi, hmid, hv, JsonValue.string?, h.cString_eq hst, h.cString_eq hsi]
    have hwritten : t.writtenWords = words st ++ (words si ++ words mid.text) := by
      unfold TopicEntry.writtenWords TopicEntry.writtenText
      simp [hdst, hdsi, hdmid, JsonValue.text]
    rw [hread, hwritten, List.append_cancel_left_eq, List.append_cancel_left_eq, words_inj,
      text_eq_repr_iff cast hv]
    constructor
    · rintro ⟨rfl, hrange⟩
      exact ⟨v, hdmid, hrange⟩
    · rintro ⟨w, hw, hrange⟩
      cases hdmid.symm.trans hw
      cases hv
      exact ⟨rfl, hrange⟩

/-- The generator lists the endpoints of every process. -/
theorem mem_genStaticXml {procs : List ProcessConfig} {xml : List (String × List XmlEndpoint)}
    (h : genStaticXml procs = some xml) {p : ProcessConfig} (hp : p ∈ procs) {t : TopicEntry}
    (ht : t ∈ p.topics) :
    ∃ x, xmlEndpoint t = some x ∧ ∃ q ∈ xml, q.1 = p.process ∧ x ∈ q.2 := by
  obtain ⟨q, hq, hrow⟩ := exists_of_mapM h hp
  obtain ⟨endpoints, hendpoints, rfl⟩ := Option.map_eq_some_iff.mp hrow
  obtain ⟨x, hx, hxt⟩ := exists_of_mapM hendpoints ht
  exact ⟨x, hxt, _, hq, rfl, hx⟩

/--
**Static discovery.** For every group that the generator accepts and every entry of it that the
communicator accepts, the two endpoints agree if and only if the XML reader finds the words of the
communicator in the name, both find the same role, and no fixed size is declared for the topic of the
entry. Of plain text the XML reader finds the words written, and for a plain entry these are the words
of the communicator when the message id is an integer of 32 bits.
-/
theorem static_agrees_iff (xml : XmlReader) (procs : List ProcessConfig)
    (file : List (String × List XmlEndpoint)) (hfile : genStaticXml procs = some file)
    (p : ProcessConfig) (hp : p ∈ procs) (t : TopicEntry) (ht : t ∈ p.topics) (e : ConfigEntry)
    (he : parseEntry cast t = some e) (calls : List TransportCall) :
    (∃ x, xmlEndpoint t = some x ∧ (∃ q ∈ file, q.1 = p.process ∧ x ∈ q.2) ∧
      (Agrees xml x (runtimeEndpoint
          (calls.foldl runCall (createTransport (loadConfig cast p.topics))) e) ↔
        t.xmlWords xml = some (t.readWords cast) ∧ t.SameRole ∧
          declaredSize cast p.topics e.topic = 0)) ∧
      (t.PlainName → t.xmlWords xml = some t.writtenWords) ∧
      (t.Plain → t.SameRole ∧ (t.writtenWords = t.readWords cast ↔ MsgIdInRange t)) := by
  obtain ⟨x, hx, hlisted⟩ := mem_genStaticXml hfile hp ht
  refine ⟨⟨x, hx, hlisted, ?_⟩, fun hname => hname.xmlWords xml, fun hplain => hplain.same cast he⟩
  have hserves := (serves_createTransport (loadConfig cast p.topics)).runCalls calls
  obtain ⟨-, -, -, -, -, -, -, -, hbytes⟩ := xmlEndpoint_eq_some hx
  have htype : x.topicDataType = (getOrCreateType
        (calls.foldl runCall (createTransport (loadConfig cast p.topics))) (makeTopic e.ep)).1 ↔
      declaredSize cast p.topics e.topic = 0 := by
    rw [hbytes, getOrCreateType_fst hserves.types, typeName_eq_bytes, hserves.sizes,
      ← topic_of_parseEntry cast he, plainTopics_loadConfig]
  show (xml.text x.topicName = some (makeTopic e.ep) ∧ x.writer = e.isPublish ∧ _) ↔ _
  rw [topicName_eq_iff cast xml he hx, writer_eq_iff cast he hx]
  exact and_congr_right fun _ => and_congr_right fun _ => htype

/-- The cast that keeps the low bits of the number's absolute value. -/
def lowBits : CastU32 where
  apply := fun v => UInt32.ofNat v.toNat
  inRange := by
    intro v h0 hlt
    rw [UInt32.toNat_ofNat']
    omega

/-- Message 3 of the data group, published, with further fields. -/
def publishEntry (more : List (String × JsonValue)) : TopicEntry where
  fields := [("session_type", .str "DTS"), ("session_inst", .str "data"), ("msg_id", .int 3),
    ("role", .str "publish")] ++ more
  entityId := 1
  userId := 1

theorem plain_publishEntry : (publishEntry []).Plain where
  keys := by
    have hkeys : ∀ key ∈ ["session_type", "session_inst", "msg_id", "role"],
        ∀ name ∈ ["session_type", "session_inst", "msg_id", "role"],
          sameKey key name = decide (name = key) := by decide +kernel
    intro key hkey
    refine objectItem_eq_dictItem fun f hf => hkeys key hkey f.1 ?_
    exact List.mem_map_of_mem (f := Prod.fst) hf
  texts := by
    intro f hf s hs
    simp only [publishEntry, List.append_nil, List.mem_cons, List.not_mem_nil, or_false] at hf
    rcases hf with rfl | rfl | rfl | rfl <;> cases hs <;> decide

theorem plainName_publishEntry : (publishEntry []).PlainName := by
  intro key hkey c hc
  simp only [List.mem_cons, List.not_mem_nil, or_false] at hkey
  rcases hkey with rfl | rfl | rfl
  · replace hc : c ∈ ['D', 'T', 'S'] := hc
    simp only [List.mem_cons, List.not_mem_nil, or_false] at hc
    rcases hc with rfl | rfl | rfl <;> decide
  · replace hc : c ∈ ['d', 'a', 't', 'a'] := hc
    simp only [List.mem_cons, List.not_mem_nil, or_false] at hc
    rcases hc with rfl | rfl | rfl | rfl <;> decide
  · replace hc : c ∈ ['3'] := hc
    simp only [List.mem_cons, List.not_mem_nil, or_false] at hc
    subst hc
    decide

/-- A reader that takes every text as it stands. -/
def verbatim : XmlReader where
  text := some
  plain := fun _ _ _ => rfl

/-- Without a fixed size both sides have a writer on `DTS_data_3` of type `detmw::Bytes`. -/
theorem static_agrees_bytes :
    ∃ x, xmlEndpoint (publishEntry []) = some x ∧
      Agrees verbatim x (runtimeEndpoint (createTransport (loadConfig lowBits [publishEntry []]))
        ⟨⟨"DTS", "data", 3⟩, true, 0, "DTS_data_3"⟩) := by
  obtain ⟨⟨x, hx, -, hiff⟩, hname, hplain⟩ := static_agrees_iff lowBits verbatim
    [⟨"a", [publishEntry []]⟩] _ rfl ⟨"a", [publishEntry []]⟩ List.mem_cons_self (publishEntry [])
    List.mem_cons_self _ rfl []
  have hplain := hplain plain_publishEntry
  have hname := hname plainName_publishEntry
  refine ⟨x, hx, hiff.mpr ⟨?_, hplain.1, by decide⟩⟩
  rw [hname, hplain.2.mpr ⟨3, rfl, by decide, by decide⟩]

/-- With `plain_size` 4 the XML still says `detmw::Bytes`. -/
theorem static_disagrees_plain :
    genStaticXml [⟨"a", [publishEntry [("plain_size", .int 4)]]⟩]
        = some [("a", [⟨true, 1, 1, "DTS_data_3", "detmw::Bytes"⟩])] ∧
      (parseEntry lowBits (publishEntry [("plain_size", .int 4)])).map (runtimeEndpoint
        (createTransport (loadConfig lowBits [publishEntry [("plain_size", .int 4)]])))
        = some ⟨true, "DTS_data_3", "detmw::FixedBytes_4"⟩ := by
  decide

end Dts.Detmw
