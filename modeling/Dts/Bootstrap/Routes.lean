import Dts.Detmw.Communicator
import Dts.Detmw.StaticDiscovery
import Dts.Infra.Run
import Dts.Routing.TaskActive

/-!
# From the configuration to the mailboxes

`gen_detmw.py` prints the topic entries of a process as route headers, one for each thread, and as the
configuration file that the communicator loads. At run time the process makes a writer for every
entry that publishes and subscribes the rows of the headers; a message then goes over the transport,
or directly inside the process, to a callback that pushes it to the mailbox of a thread or to the
commands of the control thread.

`RegisterSubRoutes` takes the session type of a row from a constant and not from the row. Which samples
FastDDS gives a reader is part of the actions.

* `routingLaw_iff` — every run of a group routes messages as the configurations say exactly when the
  rows have that session type
-/

namespace Dts.Bootstrap

open Infra Detmw
open Routing (MailMsg)

/-! ## The generator -/

/-- The threads, `INSTS`. -/
inductive Inst where
  | task
  | data
  | log
  | control
  deriving DecidableEq

def Inst.name : Inst → String
  | .task => "task"
  | .data => "data"
  | .log => "log"
  | .control => "control"

/-- A row of a route table as it is printed. -/
structure RouteLine where
  sessionType : String
  sessionInst : String
  msgId : String

/-- `t.get(key)` in an f-string. -/
def printed (t : TopicEntry) (key : String) : String :=
  ((t.dictItem key).map (·.text)).getD "None"

/-- `t.get(key) is not None`. -/
def isSet (t : TopicEntry) (key : String) : Bool :=
  match t.dictItem key with
  | none => false
  | some (.other text) => text ≠ "None"
  | some _ => true

/-- `t.get(key) == text`. -/
def isText (t : TopicEntry) (key text : String) : Bool :=
  match t.dictItem key with
  | some (.str s) => s = text
  | _ => false

/-- The `Sub` or the `Pub` table in the header of a thread. -/
def genRoutesH (p : ProcessConfig) (inst : Inst) (role : String) : List RouteLine :=
  (p.topics.filter fun t =>
    isText t "thread" inst.name && isSet t "msg_id" && isText t "role" role).map fun t =>
      ⟨printed t "session_type", printed t "session_inst", printed t "msg_id"⟩

/-! ## The compiler -/

/-- A row of a route table of the program. -/
structure Route where
  sessionType : String
  sessionInst : String
  msgId : UInt32
  deriving DecidableEq

/-- The character stands for itself in a string literal. -/
def isLiteral (c : Char) : Bool :=
  c ≠ '\x22' && c ≠ '\x5c' && c ≠ '\x0a' && c ≠ '\x0d' && c ≠ '\x00'

/-- A decimal literal that is not narrowed. -/
def decimalLiteral (text : String) : Option UInt32 :=
  let n := Nat.ofDigitChars 10 text.toList 0
  if n.repr = text ∧ n < 2 ^ 32 then some (UInt32.ofNat n) else none

/-- A row `{"…", "…", …}`; `none` when it does not compile or has an escape. -/
def compileRow (line : RouteLine) : Option Route :=
  if line.sessionType.toList.all isLiteral && line.sessionInst.toList.all isLiteral then
    (decimalLiteral line.msgId).map fun msgId => ⟨line.sessionType, line.sessionInst, msgId⟩
  else none

variable (cast : CastU32)

/-- A process whose headers compile and whose configuration has entries. -/
structure Launch where
  config : ProcessConfig
  domain : Int
  routes : Inst → List Route
  compiled : ∀ inst, (genRoutesH config inst "subscribe").mapM compileRow = some (routes inst)
  loaded : (loadConfig cast config.topics).config ≠ []

/-! ## Coming up -/

/-- The target has no thread for the control channel. -/
structure Subscription where
  ep : Endpoint
  thread : Option Inst
  deriving DecidableEq

def fnOnRouteMsg : ℕ := 0
def fnOnRouteCtl : ℕ := 1

/-- A subscription is handed to its callback by its place in `subs`. -/
structure Process where
  domain : Int
  comm : Communicator
  subs : List Subscription

def sessionTypeDts : String := "DTS"

/-- The body of both loops: a subscription that fails is dropped again. -/
def registerRoute (fn : ℕ) (thread : Option Inst) (p : Process) (route : Route) (dds : Created) :
    Process :=
  let sub : Subscription := ⟨⟨sessionTypeDts, route.sessionInst, route.msgId⟩, thread⟩
  let made := subscribe p.comm sub.ep ⟨some fn, p.subs.length⟩ dds
  if made.1 = 0 then { p with comm := made.2, subs := p.subs ++ [sub] }
  else { p with comm := made.2 }

def registerSubRoutes (p : Process) (thread : Inst) (routes : List Route) (dds : ℕ → Created) :
    Process :=
  routes.zipIdx.foldl (fun p r => registerRoute fnOnRouteMsg (some thread) p r.1 (dds r.2)) p

def registerCtlRoutes (p : Process) (routes : List Route) (dds : ℕ → Created) : Process :=
  routes.zipIdx.foldl (fun p r => registerRoute fnOnRouteCtl none p r.1 (dds r.2)) p

/-- What the library answers, and whether the control thread starts. -/
structure Answers where
  writer : ℕ → Created
  reader : Inst → ℕ → Created
  control : Bool

/-- The writers that the constructor of `Communicator` makes. -/
def createWriters (s : FastDdsState) (entries : List ConfigEntry) (dds : ℕ → Created) :
    FastDdsState :=
  (entries.filter (·.isPublish)).zipIdx.foldl (fun s e => (createWriter s e.1.ep (dds e.2)).2) s

theorem participant_createWriters (s : FastDdsState) (entries : List ConfigEntry)
    (dds : ℕ → Created) : (createWriters s entries dds).participant = s.participant := by
  have hfold : ∀ (es : List (ConfigEntry × ℕ)) (s : FastDdsState),
      (es.foldl (fun s e => (createWriter s e.1.ep (dds e.2)).2) s).participant = s.participant := by
    intro es
    induction es with
    | nil => exact fun s => rfl
    | cons e es ih =>
      intro s
      rw [List.foldl_cons, ih]
      obtain ⟨t, added, ht, hstate⟩ := createWriter_state s e.1.ep (dds e.2)
      obtain ⟨types, topics, hfind⟩ := findOrCreateTopic_snd s (makeTopic e.1.ep) (dds e.2).topic
      rw [hstate]
      rcases ht with rfl | rfl
      · rfl
      · rw [hfind]
  exact hfold _ s

/-- The communicator of a configuration. -/
def communicator (c : Config) (dds : ℕ → Created) : Communicator where
  transport := some {
    state := createWriters (createTransport c) c.config dds
    ready := participant_createWriters (createTransport c) c.config dds }
  localSubs := fun _ => []

/-- `Run` up to the end of `Start`, all threads being there. -/
def start (l : Launch cast) (a : Answers) : Process :=
  let p : Process := ⟨l.domain, communicator (loadConfig cast l.config.topics) a.writer, []⟩
  let p := registerSubRoutes p .task (l.routes .task) (a.reader .task)
  let p := registerSubRoutes p .data (l.routes .data) (a.reader .data)
  let p := registerSubRoutes p .log (l.routes .log) (a.reader .log)
  if a.control then registerCtlRoutes p (l.routes .control) (a.reader .control) else p

/-! ## The running group -/

variable {ι : Type*}

/--
A call of the callback of a subscription, with the process that has written the sample; a
publication inside the process has none.
-/
structure Arrival (ι : Type*) where
  sub : ℕ
  payload : Bytes
  origin : Option ι

/--
A process that runs. The mailboxes and the commands have all that was pushed. The last two fields are
the history: the calls of the callbacks, and the samples that FastDDS has given each reader, with the
process that has written them.
-/
structure Node (ι : Type*) where
  proc : Process
  mailbox : Inst → List MailMsg
  commands : List Bytes
  arrivals : List (Arrival ι)
  given : ℕ → List (ι × Bytes)

/-- A sample that was written, with the name of its type. -/
structure WrittenSample (ι : Type*) where
  process : ι
  typeName : Option String
  sample : Sample

/-- A publication that has returned 0. -/
structure Publication (ι : Type*) where
  process : ι
  ep : Endpoint
  payload : Bytes
  handedOut : Bool

structure Net (ι : Type*) where
  nodes : ι → Node ι
  written : List (WrittenSample ι)
  published : List (Publication ι)

def Net.init (procs : ι → Process) : Net ι where
  nodes := fun i => ⟨procs i, fun _ => [], [], [], fun _ => []⟩
  written := []
  published := []

/-- `OnRouteMsg`: the message gets the names of the subscription. -/
def onRouteMsg (n : Node ι) (userCtx : ℕ) (data : Bytes) : Node ι :=
  match n.proc.subs[userCtx]? with
  | none => n
  | some sub =>
    match sub.thread with
    | none => n
    | some thread =>
      let msg : MailMsg :=
        ⟨sub.ep.msgId, some (JsonValue.cString sub.ep.sessionInst).toList, some data⟩
      { n with mailbox := Function.update n.mailbox thread (n.mailbox thread ++ [msg]) }

/-- `OnRouteCtl`: the call of `control_submit_dds`. -/
def onRouteCtl (n : Node ι) (data : Bytes) : Node ι :=
  { n with commands := n.commands ++ [data] }

/-- `fn(ctx, data)`. -/
def callback (n : Node ι) (fn ctx : ℕ) (data : Bytes) (origin : Option ι) : Node ι :=
  let n := { n with arrivals := n.arrivals ++ [⟨ctx, data, origin⟩] }
  if fn = fnOnRouteMsg then onRouteMsg n ctx data else onRouteCtl n data

/-- `deserialize` of the type of a reader, into the vector of its listener. -/
def deserialize (plainSize : UInt32) (payload : Bytes) : Bytes :=
  if 0 < plainSize then payload.take plainSize.toNat else payload

def Process.readers (p : Process) : List DataReader :=
  match p.comm.transport with
  | none => []
  | some t => t.state.readers

/-- The name of the type of a topic. -/
def Process.typeOf (p : Process) (topic : String) : Option String :=
  p.comm.transport.map fun t => (getOrCreateType t.state topic).1

/-- `on_data_available`: a reader is given a sample of process `j`. -/
def Node.take (n : Node ι) (r : ℕ) (j : ι) (data : Bytes) : Option (Node ι) :=
  n.proc.readers[r]?.map fun reader =>
    let n := { n with given := Function.update n.given r (n.given r ++ [(j, data)]) }
    match reader.listener.fn with
    | none => n
    | some fn => callback n fn reader.listener.ctx (deserialize reader.plainSize data) (some j)

variable [DecidableEq ι]

/-- What a publication of process `i` has done to the group. -/
def Net.publish (s : Net ι) (i : ι) (ep : Endpoint) (data : Payload) (result : Published) : Net ι :=
  let sender := { (s.nodes i).proc with comm := result.comm }
  { nodes := Function.update s.nodes i (result.handed.foldl
      (fun n h => callback n h.fn h.ctx h.payload none) { s.nodes i with proc := sender })
    written := match result.sample with
      | none => s.written
      | some sample => s.written ++ [⟨i, sender.typeOf sample.topic, sample⟩]
    published :=
      if result.rc = 0 then s.published ++ [⟨i, ep, data.bytes, result.sample.isNone⟩]
      else s.published }

/-- Publications, all with `SESSION_TYPE_DTS`, and the samples that FastDDS gives the readers. -/
inductive NetAct (ι : Type*) where
  | publishExternal (i : ι) (inst : String) (msgId : UInt32) (data : Payload) (dds : Written)
  | publishInternal (i : ι) (inst : String) (msgId : UInt32) (data : Payload) (dds : Written)
  | take (i : ι) (r : ℕ) (j : ι) (data : Bytes)

def netStep (s : Net ι) : NetAct ι → Option (Net ι)
  | .publishExternal i inst msgId data dds =>
    let ep : Endpoint := ⟨sessionTypeDts, inst, msgId⟩
    some (s.publish i ep data (publishExternal (s.nodes i).proc.comm ep data dds))
  | .publishInternal i inst msgId data dds =>
    let ep : Endpoint := ⟨sessionTypeDts, inst, msgId⟩
    some (s.publish i ep data (publishInternal (s.nodes i).proc.comm ep data dds))
  | .take i r j data =>
    ((s.nodes i).take r j data).map fun n => { s with nodes := Function.update s.nodes i n }

/-! ## FastDDS -/

/-- What a reader was given of the samples of process `j`. -/
def Node.givenFrom (n : Node ι) (r : ℕ) (j : ι) : List Bytes :=
  ((n.given r).filter fun x => x.1 = j).map (·.2)

/-- The samples of process `j` that match a reader: of its domain, with its topic and its type. -/
def Net.samplesFor (s : Net ι) (i : ι) (reader : DataReader) (j : ι) : List Bytes :=
  (s.written.filter fun w => w.process = j ∧
    (s.nodes j).proc.domain = (s.nodes i).proc.domain ∧ w.sample.topic = reader.topic ∧
      w.typeName = (s.nodes i).proc.typeOf reader.topic).map (·.sample.bytes)

/--
What FastDDS promises: a reader is given samples that match it, and those of a writer in their order
and none twice. It may not be given all: some are on the way or lost, or the writer is not known yet.
-/
def FastDds (s : Net ι) : Prop :=
  ∀ i r reader, (s.nodes i).proc.readers[r]? = some reader →
    ∀ j, ((s.nodes i).givenFrom r j).Sublist (s.samplesFor i reader j)

/-- Reader `r` of process `i` was given every sample of process `j` that matches it. -/
def Delivered (s : Net ι) (i : ι) (r : ℕ) (j : ι) : Prop :=
  ∀ reader, (s.nodes i).proc.readers[r]? = some reader →
    (s.nodes i).givenFrom r j = s.samplesFor i reader j

/-! ## The law -/

/-- The control thread has no mailbox. -/
def Inst.mailbox : Inst → Option Inst
  | .control => none
  | inst => some inst

/-- The subscriptions of a table, each row under the session type that `sessionType` gives it. -/
def subscriptionsOf (sessionType : Route → String) (thread : Option Inst) (routes : List Route) :
    List Subscription :=
  routes.map fun r => ⟨⟨sessionType r, r.sessionInst, r.msgId⟩, thread⟩

def subscriptions (sessionType : Route → String) (l : Launch cast) : List Subscription :=
  [Inst.task, .data, .log, .control].flatMap fun inst =>
    subscriptionsOf sessionType inst.mailbox (l.routes inst)

/-- What the configuration asks for. -/
def wanted (l : Launch cast) : List Subscription := subscriptions cast (·.sessionType) l

/-- Every reader is created, and the control thread is there. -/
structure Answers.Ready (a : Answers) : Prop where
  readers : ∀ inst n, a.reader inst n = ⟨true, true⟩
  control : a.control = true

/-- The calls of a callback for one subscription, with the samples of a process or from inside. -/
def Node.heard (n : Node ι) (k : ℕ) (origin : Option ι) : List Bytes :=
  (n.arrivals.filter fun a => a.sub = k ∧ a.origin = origin).map (·.payload)

/-- What a call of a callback pushes to the mailbox of a thread. -/
def messageFor (subs : List Subscription) (thread : Inst) (a : Arrival ι) : Option MailMsg :=
  subs[a.sub]?.bind fun sub =>
    if sub.thread = some thread then
      some ⟨sub.ep.msgId, some (JsonValue.cString sub.ep.sessionInst).toList, some a.payload⟩
    else none

/-- What a call of a callback submits as a command. -/
def commandFor (subs : List Subscription) (a : Arrival ι) : Option Bytes :=
  subs[a.sub]?.bind fun sub => if sub.thread = none then some a.payload else none

variable {cast} (launches : ι → Launch cast)

/--
A publication of process `j` over the transport reaches a subscription: its endpoint, in the same
domain, and both configurations give the same size.
-/
def Reaches (i : ι) (sub : Subscription) (j : ι) (pub : Publication ι) : Prop :=
  pub.handedOut = false ∧ pub.process = j ∧ pub.ep = sub.ep ∧
    (launches j).domain = (launches i).domain ∧
    declaredSize cast (launches j).config.topics (makeTopic sub.ep)
      = declaredSize cast (launches i).config.topics (makeTopic sub.ep)

instance (i : ι) (sub : Subscription) (j : ι) : DecidablePred (Reaches launches i sub j) :=
  fun _ => inferInstanceAs (Decidable (_ ∧ _))

/-- A publication inside the process goes to the subscriptions of its endpoint. -/
def HandedTo (i : ι) (sub : Subscription) (pub : Publication ι) : Prop :=
  pub.handedOut = true ∧ pub.process = i ∧ pub.ep = sub.ep

instance (i : ι) (sub : Subscription) :
    DecidablePred fun pub : Publication ι => HandedTo i sub pub :=
  fun _ => inferInstanceAs (Decidable (_ ∧ _))

def payloads (pubs : List (Publication ι)) (P : Publication ι → Prop) [DecidablePred P] :
    List Bytes :=
  (pubs.filter P).map (·.payload)

/-- The messages of a process. -/
structure NodeLaw (s : Net ι) (i : ι) : Prop where
  /-- a callback gets what the reader is given, as it was sent -/
  taken : FastDds s → ∀ k sub, (s.nodes i).proc.subs[k]? = some sub →
    ∀ j, (s.nodes i).heard k (some j) = (s.nodes i).givenFrom k j
  /-- these are publications that reach the subscription, those of a process in their order -/
  transported : FastDds s → ∀ k sub, (s.nodes i).proc.subs[k]? = some sub →
    ∀ j, ((s.nodes i).heard k (some j)).Sublist (payloads s.published (Reaches launches i sub j))
  /-- and all of them when FastDDS has delivered all -/
  complete : FastDds s → ∀ k sub, (s.nodes i).proc.subs[k]? = some sub →
    ∀ j, Delivered s i k j →
      (s.nodes i).heard k (some j) = payloads s.published (Reaches launches i sub j)
  /-- a callback gets every publication inside the process -/
  handedOut : ∀ k sub, (s.nodes i).proc.subs[k]? = some sub →
    (s.nodes i).heard k none = payloads s.published (HandedTo i sub)
  /-- the callbacks push to the mailboxes, each message under the names of its subscription -/
  pushed : ∀ thread, (s.nodes i).mailbox thread =
    (s.nodes i).arrivals.filterMap (messageFor (s.nodes i).proc.subs thread)
  submitted : (s.nodes i).commands =
    (s.nodes i).arrivals.filterMap (commandFor (s.nodes i).proc.subs)

/-- **The law.** -/
structure RoutingLaw (answers : ι → Answers) (s : Net ι) : Prop where
  /-- the subscriptions are those of the configuration, up to what could not be created -/
  subscribed : ∀ i, (s.nodes i).proc.subs.Sublist (wanted cast (launches i)) ∧
    ((answers i).Ready → (s.nodes i).proc.subs = wanted cast (launches i))
  messages : ∀ i, NodeLaw launches s i

/-! ## Subscribing -/

/-- The callback that a subscription is registered with. -/
def fnOf (thread : Option Inst) : ℕ := if thread.isSome then fnOnRouteMsg else fnOnRouteCtl

/-- The reader of the subscription at place `k`. -/
def readerOf (c : Config) (sub : Subscription) (k : ℕ) : DataReader :=
  ⟨makeTopic sub.ep, ⟨some (fnOf sub.thread), k⟩, (c.plainTopics (makeTopic sub.ep)).getD 0⟩

/-- The local subscribers of an endpoint. -/
def callbacksOf (subs : List Subscription) (ep : Endpoint) : List Callback :=
  (subs.zipIdx.filter fun s => s.1.ep = ep).map fun s => ⟨some (fnOf s.1.thread), s.2⟩

/-- The readers and the local subscribers are those of `subs`. -/
structure Wired (l : Launch cast) (p : Process) : Prop where
  domain : p.domain = l.domain
  transport : ∃ t, p.comm.transport = some t ∧ Serves (loadConfig cast l.config.topics) t.state ∧
    t.state.readers =
      p.subs.zipIdx.map fun s => readerOf (loadConfig cast l.config.topics) s.1 s.2
  localSubs : ∀ ep, p.comm.localSubs ep = callbacksOf p.subs ep
  typed : ∀ sub ∈ p.subs, sub.ep.sessionType = sessionTypeDts

/-- `CreateReader` adds the reader, or fails and leaves the readers alone. -/
theorem createReader_cases {c : Config} {s : FastDdsState} (hs : Serves c s)
    (hready : s.participant = true) (ep : Endpoint) (listener : Callback) (dds : Created) :
    ∃ t, Serves c t ∧ t.readers = s.readers ∧
      ((createReader s ep listener dds = (0, { t with
          readers := t.readers ++ [⟨makeTopic ep, listener, (c.plainTopics (makeTopic ep)).getD 0⟩] })) ∨
        (createReader s ep listener dds = (-1, t) ∧ dds ≠ ⟨true, true⟩)) := by
  have hfind := hs.findOrCreateTopic (makeTopic ep) dds.topic
  obtain ⟨types, topics, hstate⟩ := findOrCreateTopic_snd s (makeTopic ep) dds.topic
  have hfound : dds.topic = true → (findOrCreateTopic s (makeTopic ep) dds.topic).1 = true := by
    intro htopic
    rw [htopic]
    unfold findOrCreateTopic
    split
    · rfl
    · rfl
  refine ⟨(findOrCreateTopic s (makeTopic ep) dds.topic).2, hfind, by rw [hstate], ?_⟩
  unfold createReader
  rw [hready]
  simp only [Bool.not_true, Bool.false_eq_true, if_false]
  generalize hfound' : findOrCreateTopic s (makeTopic ep) dds.topic = found at hfind hfound ⊢
  obtain ⟨ok, t⟩ := found
  cases ok with
  | false =>
    refine Or.inr ⟨rfl, ?_⟩
    rintro rfl
    cases hfound rfl
  | true =>
    simp only
    split
    · left
      rw [hfind.sizes]
    · rename_i hend
      refine Or.inr ⟨rfl, ?_⟩
      rintro rfl
      exact hend rfl

theorem callbacksOf_append (subs : List Subscription) (sub : Subscription) (ep : Endpoint) :
    callbacksOf (subs ++ [sub]) ep =
      callbacksOf subs ep ++ if sub.ep = ep then [⟨some (fnOf sub.thread), subs.length⟩] else [] := by
  unfold callbacksOf
  rw [List.zipIdx_append, List.filter_append, List.map_append, Nat.zero_add]
  congr 1
  split
  · rename_i hep
    simp [hep]
  · rename_i hep
    simp [hep]

/-- `subscribe` adds the reader and the local subscriber, or neither. -/
theorem subscribe_cases {cfg : Config} {c : Communicator} {t : Transport}
    (ht : c.transport = some t) (hs : Serves cfg t.state) (ep : Endpoint) (listener : Callback)
    (dds : Created) :
    ∃ t' : Transport, Serves cfg t'.state ∧
      ((subscribe c ep listener dds = (0, ⟨some t', Function.update c.localSubs ep
          (c.localSubs ep ++ [listener])⟩) ∧
        t'.state.readers = t.state.readers ++
          [⟨makeTopic ep, listener, (cfg.plainTopics (makeTopic ep)).getD 0⟩]) ∨
      (∃ rc ≠ 0, subscribe c ep listener dds = (rc, ⟨some t', c.localSubs⟩) ∧
        t'.state.readers = t.state.readers ∧ dds ≠ ⟨true, true⟩)) := by
  obtain ⟨u, hu, hsame, hmade⟩ := createReader_cases hs t.ready ep listener dds
  have hready := (participant_createReader t.state ep listener dds).trans t.ready
  refine ⟨⟨(createReader t.state ep listener dds).2, hready⟩, ?_⟩
  unfold subscribe
  rw [ht]
  simp only
  rcases hmade with hmade | ⟨hmade, hdds⟩
  · have hrc : (createReader t.state ep listener dds).1 = 0 := by rw [hmade]
    rw [if_neg (fun hne => hne hrc)]
    refine ⟨?_, Or.inl ⟨rfl, ?_⟩⟩
    · rw [hmade]
      exact ⟨hu.types, hu.sizes⟩
    · rw [hmade, ← hsame]
  · have hrc : (createReader t.state ep listener dds).1 ≠ 0 := by
      rw [hmade]
      exact Int.neg_ne_zero.mpr one_ne_zero
    rw [if_pos hrc]
    refine ⟨?_, Or.inr ⟨_, hrc, rfl, ?_, hdds⟩⟩
    · rw [hmade]
      exact hu
    · rw [hmade, ← hsame]

/-- One row: its subscription is added, or nothing is. -/
theorem wired_registerRoute {l : Launch cast} {p : Process} (h : Wired l p) (thread : Option Inst)
    (route : Route) (dds : Created) :
    let sub : Subscription := ⟨⟨sessionTypeDts, route.sessionInst, route.msgId⟩, thread⟩
    Wired l (registerRoute (fnOf thread) thread p route dds) ∧
      ((registerRoute (fnOf thread) thread p route dds).subs = p.subs ++ [sub] ∨
        (registerRoute (fnOf thread) thread p route dds).subs = p.subs ∧ dds ≠ ⟨true, true⟩) := by
  intro sub
  obtain ⟨t, ht, hserves, hreaders⟩ := h.transport
  obtain ⟨t', hserves', hmade⟩ :=
    subscribe_cases ht hserves sub.ep ⟨some (fnOf thread), p.subs.length⟩ dds
  unfold registerRoute
  rcases hmade with ⟨hmade, hreaders'⟩ | ⟨rc, hrc, hmade, hreaders', hdds⟩
  · simp only [sub] at hmade
    simp only [hmade, if_true]
    refine ⟨⟨h.domain, ⟨t', rfl, hserves', ?_⟩, ?_, ?_⟩, Or.inl rfl⟩
    · rw [hreaders', hreaders, List.zipIdx_append, List.map_append, Nat.zero_add]
      rfl
    · intro ep
      rw [callbacksOf_append]
      by_cases hep : sub.ep = ep
      · rw [if_pos hep, ← hep]
        show Function.update p.comm.localSubs sub.ep _ sub.ep = _
        rw [Function.update_self, h.localSubs]
      · rw [if_neg hep, List.append_nil]
        show Function.update p.comm.localSubs sub.ep _ ep = _
        rw [Function.update_of_ne (Ne.symm hep), h.localSubs]
    · intro x hx
      rcases List.mem_append.mp hx with hx | hx
      · exact h.typed x hx
      · rw [List.mem_singleton.mp hx]
  · simp only [sub] at hmade
    simp only [hmade, if_neg hrc]
    exact ⟨⟨h.domain, ⟨t', rfl, hserves', by rw [hreaders', hreaders]⟩, h.localSubs, h.typed⟩,
      Or.inr ⟨trivial, hdds⟩⟩

/-- The rows of one table. -/
theorem wired_registerRoutes {l : Launch cast} (thread : Option Inst) (dds : ℕ → Created)
    (routes : List Route) (k : ℕ) {p : Process} (h : Wired l p) :
    let q := (routes.zipIdx k).foldl
      (fun p r => registerRoute (fnOf thread) thread p r.1 (dds r.2)) p
    let asked := subscriptionsOf (fun _ => sessionTypeDts) thread routes
    Wired l q ∧ ∃ added, q.subs = p.subs ++ added ∧ added.Sublist asked ∧
      ((∀ n, dds n = ⟨true, true⟩) → added = asked) := by
  induction routes generalizing k p with
  | nil => exact ⟨h, [], (List.append_nil _).symm, .slnil, fun _ => rfl⟩
  | cons r routes ih =>
    obtain ⟨hwired, hsubs⟩ := wired_registerRoute h thread r (dds k)
    obtain ⟨hall, added, hadded, hsub, hfull⟩ := ih (k + 1) hwired
    refine ⟨hall, ?_⟩
    rw [List.zipIdx_cons, List.foldl_cons, hadded]
    rcases hsubs with hsubs | ⟨hsubs, hdds⟩
    · refine ⟨_ :: added, ?_, hsub.cons_cons _, fun hyes => ?_⟩
      · rw [hsubs, List.append_assoc, List.singleton_append]
      · rw [hfull hyes]
        rfl
    · exact ⟨added, by rw [hsubs], hsub.cons _, fun hyes => absurd (hyes k) hdds⟩

theorem readers_createWriter (s : FastDdsState) (ep : Endpoint) (dds : Created) :
    (createWriter s ep dds).2.readers = s.readers := by
  obtain ⟨t, added, ht, hstate⟩ := createWriter_state s ep dds
  obtain ⟨types, topics, hfind⟩ := findOrCreateTopic_snd s (makeTopic ep) dds.topic
  rw [hstate]
  rcases ht with rfl | rfl
  · rfl
  · rw [hfind]

theorem serves_createWriters {c : Config} (dds : ℕ → Created) (entries : List ConfigEntry)
    {s : FastDdsState} (hs : Serves c s) :
    Serves c (createWriters s entries dds) ∧ (createWriters s entries dds).readers = s.readers := by
  have hfold : ∀ (es : List (ConfigEntry × ℕ)) {s : FastDdsState}, Serves c s →
      Serves c (es.foldl (fun s e => (createWriter s e.1.ep (dds e.2)).2) s) ∧
        (es.foldl (fun s e => (createWriter s e.1.ep (dds e.2)).2) s).readers = s.readers := by
    intro es
    induction es with
    | nil => exact fun hs => ⟨hs, rfl⟩
    | cons e es ih =>
      intro s hs
      obtain ⟨hserves, hreaders⟩ := ih (hs.runCall (.createWriter e.1.ep (dds e.2)))
      exact ⟨hserves, hreaders.trans (readers_createWriter s e.1.ep (dds e.2))⟩
  exact hfold _ hs

theorem subscriptions_eq (sessionType : Route → String) (l : Launch cast) :
    subscriptions cast sessionType l =
      subscriptionsOf sessionType (some .task) (l.routes .task) ++
        (subscriptionsOf sessionType (some .data) (l.routes .data) ++
          (subscriptionsOf sessionType (some .log) (l.routes .log) ++
            subscriptionsOf sessionType none (l.routes .control))) := by
  unfold subscriptions
  simp only [List.flatMap_cons, List.flatMap_nil, List.append_nil]
  rfl

/-- A process that is up has the subscriptions asked for, up to what could not be created. -/
theorem wired_start (l : Launch cast) (a : Answers) :
    Wired l (start cast l a) ∧
      (start cast l a).subs.Sublist (subscriptions cast (fun _ => sessionTypeDts) l) ∧
      (a.Ready → (start cast l a).subs = subscriptions cast (fun _ => sessionTypeDts) l) := by
  obtain ⟨hserves, hreaders⟩ := serves_createWriters a.writer
    (loadConfig cast l.config.topics).config (serves_createTransport (loadConfig cast l.config.topics))
  have h₀ : Wired l ⟨l.domain, communicator (loadConfig cast l.config.topics) a.writer, []⟩ :=
    ⟨rfl, ⟨_, rfl, hserves, hreaders⟩, fun _ => rfl, fun _ h => by cases h⟩
  obtain ⟨h₁, task, htask, hsub₁, hfull₁⟩ :=
    wired_registerRoutes (some .task) (a.reader .task) (l.routes .task) 0 h₀
  obtain ⟨h₂, data, hdata, hsub₂, hfull₂⟩ :=
    wired_registerRoutes (some .data) (a.reader .data) (l.routes .data) 0 h₁
  obtain ⟨h₃, log, hlog, hsub₃, hfull₃⟩ :=
    wired_registerRoutes (some .log) (a.reader .log) (l.routes .log) 0 h₂
  obtain ⟨h₄, ctl, hctl, hsub₄, hfull₄⟩ :=
    wired_registerRoutes none (a.reader .control) (l.routes .control) 0 h₃
  rw [subscriptions_eq]
  rw [hlog, hdata, htask, List.nil_append] at hctl
  rw [hdata, htask, List.nil_append] at hlog
  by_cases hcontrol : a.control = true
  · have hstart : start cast l a = registerCtlRoutes (registerSubRoutes (registerSubRoutes
        (registerSubRoutes _ .task _ _) .data _ _) .log _ _) (l.routes .control)
        (a.reader .control) := if_pos hcontrol
    rw [hstart]
    refine ⟨h₄, ?_, fun hready => ?_⟩
    · rw [← List.append_assoc, ← List.append_assoc]
      exact hctl ▸ ((hsub₁.append hsub₂).append hsub₃).append hsub₄
    · rw [← hfull₁ (hready.readers _), ← hfull₂ (hready.readers _), ← hfull₃ (hready.readers _),
        ← hfull₄ (hready.readers _), ← List.append_assoc, ← List.append_assoc]
      exact hctl
  · have hstart : start cast l a = registerSubRoutes (registerSubRoutes
        (registerSubRoutes _ .task _ _) .data _ _) .log _ _ := if_neg hcontrol
    rw [hstart]
    refine ⟨h₃, ?_, fun hready => absurd hready.control hcontrol⟩
    rw [← List.append_assoc]
    refine hlog ▸ ((hsub₁.append hsub₂).append ?_)
    exact hsub₃.trans (List.sublist_append_left _ _)

/-! ## The callbacks -/

/-- The node behind the calls `as`. -/
def Node.hear (n : Node ι) (as : List (Arrival ι)) : Node ι :=
  { n with
    arrivals := n.arrivals ++ as
    mailbox := fun thread => n.mailbox thread ++ as.filterMap (messageFor n.proc.subs thread)
    commands := n.commands ++ as.filterMap (commandFor n.proc.subs) }

omit [DecidableEq ι] in
theorem hear_nil (n : Node ι) : n.hear [] = n := by
  simp only [Node.hear, List.filterMap_nil, List.append_nil]

omit [DecidableEq ι] in
theorem hear_append (n : Node ι) (as bs : List (Arrival ι)) :
    (n.hear as).hear bs = n.hear (as ++ bs) := by
  simp only [Node.hear, List.filterMap_append, List.append_assoc]

omit [DecidableEq ι] in
theorem callback_eq {n : Node ι} {k : ℕ} {sub : Subscription} (hsub : n.proc.subs[k]? = some sub)
    (data : Bytes) (origin : Option ι) :
    callback n (fnOf sub.thread) k data origin = n.hear [⟨k, data, origin⟩] := by
  have hmsg : ∀ thread, messageFor n.proc.subs thread ⟨k, data, origin⟩ =
      if sub.thread = some thread then some
        ⟨sub.ep.msgId, some (JsonValue.cString sub.ep.sessionInst).toList, some data⟩ else none := by
    intro thread
    rw [messageFor, hsub]
    rfl
  have hcmd : commandFor n.proc.subs ⟨k, data, origin⟩ =
      if sub.thread = none then some data else none := by
    rw [commandFor, hsub]
    rfl
  unfold callback Node.hear
  simp only [List.filterMap_cons, List.filterMap_nil, hmsg, hcmd]
  cases hthread : sub.thread with
  | none => simp [fnOf, fnOnRouteMsg, fnOnRouteCtl, onRouteCtl]
  | some thread =>
    simp only [fnOf, Option.isSome_some, if_true, onRouteMsg, hsub, hthread, Node.mk.injEq, true_and]
    refine ⟨?_, by simp, trivial⟩
    funext other
    by_cases hother : thread = other
    · rw [hother, Function.update_self, if_pos rfl]
    · rw [Function.update_of_ne (Ne.symm hother), if_neg fun h => hother (Option.some.inj h),
        List.append_nil]

/-- The calls for one publication inside the process. -/
def arrivalsOf (subs : List Subscription) (ep : Endpoint) (data : Bytes) : List (Arrival ι) :=
  (subs.zipIdx.filter fun s => s.1.ep = ep).map fun s => ⟨s.2, data, none⟩

omit [DecidableEq ι] in
theorem foldl_callback (data : Bytes) (subs : List (Subscription × ℕ)) {n : Node ι}
    (hsubs : ∀ s ∈ subs, n.proc.subs[s.2]? = some s.1) :
    (subs.map fun s => (⟨fnOf s.1.thread, s.2, data⟩ : Handed)).foldl
        (fun n h => callback n h.fn h.ctx h.payload none) n =
      n.hear (subs.map fun s => ⟨s.2, data, none⟩) := by
  induction subs generalizing n with
  | nil => exact (hear_nil n).symm
  | cons s subs ih =>
    have hrest := ih (n := n.hear [⟨s.2, data, none⟩]) fun t ht =>
      hsubs t (List.mem_cons_of_mem s ht)
    rw [List.map_cons, List.foldl_cons, callback_eq (hsubs s List.mem_cons_self)]
    exact hrest.trans (hear_append n _ _)

omit [DecidableEq ι] in
/-- The loop over the local subscribers. -/
theorem foldl_handOut (n : Node ι) (ep : Endpoint) (data : Payload) :
    (handOut (callbacksOf n.proc.subs ep) data).foldl
        (fun n h => callback n h.fn h.ctx h.payload none) n =
      n.hear (arrivalsOf n.proc.subs ep data.bytes) := by
  have hhanded : handOut (callbacksOf n.proc.subs ep) data =
      (n.proc.subs.zipIdx.filter fun s => s.1.ep = ep).map fun s =>
        ⟨fnOf s.1.thread, s.2, data.bytes⟩ := by
    unfold handOut callbacksOf
    rw [List.filterMap_map]
    exact congrFun List.filterMap_eq_map' _
  rw [hhanded, foldl_callback]
  · rfl
  · intro s hs
    exact List.mem_zipIdx_iff_getElem?.mp (List.mem_of_mem_filter hs)

/-- A list has one element at each place. -/
theorem filter_zipIdx {α : Type*} (xs : List α) (start k : ℕ) :
    (xs.zipIdx start).filter (fun x => x.2 = start + k) =
      (xs[k]?.map fun x => (x, start + k)).toList := by
  induction xs generalizing start k with
  | nil => rfl
  | cons x xs ih =>
    rw [List.zipIdx_cons]
    cases k with
    | zero =>
      have hrest : (xs.zipIdx (start + 1)).filter (fun x => x.2 = start + 0) = [] := by
        refine List.filter_eq_nil_iff.mpr ?_
        intro y hy
        have hle := List.le_snd_of_mem_zipIdx hy
        simp only [Nat.add_zero, decide_eq_true_eq]
        omega
      rw [List.filter_cons_of_pos (by simp), hrest]
      rfl
    | succ k =>
      rw [List.filter_cons_of_neg (by simp), List.getElem?_cons_succ, Nat.add_succ,
        ← Nat.succ_add, ← ih (start + 1) k]

/-- Every subscription of the endpoint is called once. -/
theorem filter_arrivalsOf {subs : List Subscription} {k : ℕ} {sub : Subscription}
    (hsub : subs[k]? = some sub) (ep : Endpoint) (data : Bytes) (origin : Option ι) :
    ((arrivalsOf subs ep data).filter fun a => a.sub = k ∧ a.origin = origin).map (·.payload) =
      if origin = none ∧ sub.ep = ep then [data] else [] := by
  have hplace := filter_zipIdx subs 0 k
  rw [hsub, Nat.zero_add] at hplace
  unfold arrivalsOf
  rw [List.filter_map, List.filter_filter, List.map_map]
  have hfilter : (subs.zipIdx.filter fun s =>
      (((fun a : Arrival ι => decide (a.sub = k ∧ a.origin = origin)) ∘ fun s =>
        (⟨s.2, data, none⟩ : Arrival ι)) s && decide (s.1.ep = ep))) =
      (subs.zipIdx.filter fun s => s.2 = k).filter fun s => origin = none ∧ s.1.ep = ep := by
    rw [List.filter_filter]
    refine List.filter_congr ?_
    intro s hs
    rw [Bool.eq_iff_iff]
    simp only [Function.comp, Bool.and_eq_true, decide_eq_true_eq, eq_comm (a := none)]
    tauto
  rw [hfilter, hplace]
  by_cases hcase : origin = none ∧ sub.ep = ep
  · rw [if_pos hcase]
    simp [hcase]
  · rw [if_neg hcase]
    simp [hcase]

/-! ## The transport -/

/-- With the session type fixed, an endpoint has a topic of its own. -/
theorem makeTopic_inj {e₁ e₂ : Endpoint} (h₁ : e₁.sessionType = sessionTypeDts)
    (h₂ : e₂.sessionType = sessionTypeDts) : makeTopic e₁ = makeTopic e₂ ↔ e₁ = e₂ := by
  have hshift : ∀ {e₁ e₂ : Endpoint}, e₁.sessionType = e₂.sessionType → ¬ Shifted e₁ e₂ := by
    intro e₁ e₂ htype h
    obtain ⟨-, m, hm, -⟩ := (shifted_iff e₁ e₂).mp h
    rw [htype] at hm
    have hlen := congrArg List.length hm
    rw [List.length_append, List.length_cons] at hlen
    omega
  rw [makeTopic_eq_cases]
  constructor
  · rintro (heq | h | h)
    · exact heq
    · exact absurd h (hshift (h₁.trans h₂.symm))
    · exact absurd h (hshift (h₂.trans h₁.symm))
  · exact Or.inl

/-- Types have the same name when the sizes are the same. -/
theorem typeName_eq_iff (m n : Option UInt32) : typeName m = typeName n ↔ m.getD 0 = n.getD 0 := by
  by_cases hm : m.getD 0 = 0
  · rw [← (typeName_eq_bytes m).mpr hm, typeName_eq_bytes, hm, eq_comm]
  · by_cases hn : n.getD 0 = 0
    · rw [← (typeName_eq_bytes n).mpr hn, eq_comm, typeName_eq_bytes, hn]
    · have hname : ∀ k : Option UInt32, k.getD 0 ≠ 0 →
          typeName k = "detmw::FixedBytes_" ++ (k.getD 0).toNat.repr := by
        intro k hk
        cases k with
        | none => exact absurd rfl hk
        | some k => exact if_pos (UInt32.pos_iff_ne_zero.mpr hk)
      rw [hname m hm, hname n hn]
      constructor
      · intro h
        have hlist := congrArg String.toList h
        rw [String.toList_append, String.toList_append, List.append_cancel_left_eq,
          String.toList_inj, repr_inj, UInt32.toNat_inj] at hlist
        exact hlist
      · intro h
        rw [h]

/-- `Send` has written a sample of the topic when it returns 0, else none. -/
theorem send_cases (s : FastDdsState) (ep : Endpoint) (data : Payload) (dds : Written) :
    ((send s ep data dds).rc = 0 ∧
      (send s ep data dds).sample = some ⟨makeTopic ep, data.bytes⟩) ∨
    ((send s ep data dds).rc ≠ 0 ∧ (send s ep data dds).sample = none) := by
  have hfail : (-1 : Int) ≠ 0 := by decide
  have hwrite : ((writeSample s (makeTopic ep) data dds.write).rc = 0 ∧
      (writeSample s (makeTopic ep) data dds.write).sample = some ⟨makeTopic ep, data.bytes⟩) ∨
      ((writeSample s (makeTopic ep) data dds.write).rc ≠ 0 ∧
        (writeSample s (makeTopic ep) data dds.write).sample = none) := by
    unfold writeSample
    split
    · exact Or.inl ⟨rfl, rfl⟩
    · exact Or.inr ⟨hfail, rfl⟩
  unfold send
  split
  · exact Or.inr ⟨hfail, rfl⟩
  · simp only
    split
    · exact Or.inr ⟨hfail, rfl⟩
    · split
      · exact Or.inr ⟨hfail, rfl⟩
      · split
        · exact hwrite
        · exact hwrite

namespace Wired

variable {l : Launch cast} {p : Process}

theorem readers_getElem? (h : Wired l p) (k : ℕ) :
    p.readers[k]? =
      p.subs[k]?.map fun sub => readerOf (loadConfig cast l.config.topics) sub k := by
  obtain ⟨t, ht, -, hreaders⟩ := h.transport
  unfold Process.readers
  rw [ht]
  simp only [hreaders, List.getElem?_map, List.getElem?_zipIdx, Nat.zero_add, Option.map_map]
  rfl

theorem typeOf_eq (h : Wired l p) (topic : String) :
    p.typeOf topic = some (typeName ((loadConfig cast l.config.topics).plainTopics topic)) := by
  obtain ⟨t, ht, hserves, -⟩ := h.transport
  unfold Process.typeOf
  rw [ht, Option.map_some, getOrCreateType_fst hserves.types, hserves.sizes]

/-- A publication over the transport leaves the process wired. -/
theorem publishOverTransport (h : Wired l p) (ep : Endpoint) (data : Payload) (dds : Written) :
    let result := Detmw.publishOverTransport p.comm ep data dds
    let size := ((loadConfig cast l.config.topics).plainTopics (makeTopic ep)).getD 0
    Wired l { p with comm := result.comm } ∧ result.handed = [] ∧
      ((result.rc = 0 ∧ result.sample = some ⟨makeTopic ep, data.bytes⟩ ∧
        (size = 0 ∨ data.len = size)) ∨ (result.rc ≠ 0 ∧ result.sample = none)) := by
  intro result size
  obtain ⟨t, ht, hserves, hreaders⟩ := h.transport
  obtain ⟨count, hstate⟩ := send_state t.state ep data dds
  have hresult : result = ⟨(send t.state ep data dds).rc, [], (send t.state ep data dds).sample,
      { p.comm with transport := some ⟨(send t.state ep data dds).state,
        (participant_send t.state ep data dds).trans t.ready⟩ }⟩ := by
    show Detmw.publishOverTransport p.comm ep data dds = _
    unfold Detmw.publishOverTransport
    rw [ht]
  rw [hresult]
  refine ⟨⟨h.domain, ⟨_, rfl, ?_, ?_⟩, h.localSubs, h.typed⟩, rfl, ?_⟩
  · show Serves _ (send t.state ep data dds).state
    rw [hstate]
    exact ⟨hserves.types, hserves.sizes⟩
  · have hsame : (send t.state ep data dds).state.readers = t.state.readers := by rw [hstate]
    exact hsame.trans hreaders
  · rcases send_cases t.state ep data dds with ⟨hrc, hsample⟩ | hfail
    · obtain ⟨-, -, hsize, -⟩ := (send_rc_eq_zero t.state ep data dds).mp hrc
      rw [hserves.sizes] at hsize
      exact Or.inl ⟨hrc, hsample, hsize⟩
    · exact Or.inr hfail

end Wired

/-- A sample of the right length comes out as it went in. -/
theorem deserialize_eq {size : UInt32} {data : Payload} (h : size = 0 ∨ data.len = size) :
    deserialize size data.bytes = data.bytes := by
  unfold deserialize
  split
  · rename_i hpos
    rcases h with rfl | h
    · exact absurd hpos (by decide)
    · have hlen : data.len.toNat = data.bytes.length := by
        rw [Payload.len, UInt32.toNat_ofNat', Nat.mod_eq_of_lt data.sizeT]
      rw [← h, hlen, List.take_length]
  · rfl

/-! ## What a step does to a node -/

/-- The size that the configuration of a process gives a topic. -/
def sizeOf (i : ι) (topic : String) : UInt32 :=
  ((loadConfig cast (launches i).config.topics).plainTopics topic).getD 0

/-- What holds in a process, with the publications so far. -/
structure NodeInv (pubs : List (Publication ι)) (i : ι) (n : Node ι) : Prop where
  wired : Wired (launches i) n.proc
  taken : ∀ k sub, n.proc.subs[k]? = some sub → ∀ j, n.heard k (some j) =
    (n.givenFrom k j).map (deserialize (sizeOf launches i (makeTopic sub.ep)))
  handedOut : ∀ k sub, n.proc.subs[k]? = some sub → n.heard k none = payloads pubs (HandedTo i sub)
  pushed : ∀ thread, n.mailbox thread = n.arrivals.filterMap (messageFor n.proc.subs thread)
  submitted : n.commands = n.arrivals.filterMap (commandFor n.proc.subs)

omit [DecidableEq ι] in
theorem payloads_append (pubs : List (Publication ι)) (pub : Publication ι)
    (P : Publication ι → Prop) [DecidablePred P] :
    payloads (pubs ++ [pub]) P = payloads pubs P ++ if P pub then [pub.payload] else [] := by
  unfold payloads
  rw [List.filter_append, List.map_append]
  congr 1
  split
  · rename_i hpub
    simp [hpub]
  · rename_i hpub
    simp [hpub]

theorem heard_hear (n : Node ι) (as : List (Arrival ι)) (k : ℕ) (origin : Option ι) :
    (n.hear as).heard k origin = n.heard k origin ++
      (as.filter fun a => a.sub = k ∧ a.origin = origin).map (·.payload) := by
  unfold Node.heard Node.hear
  rw [List.filter_append, List.map_append]

namespace NodeInv

variable {launches} {pubs : List (Publication ι)} {i : ι} {n : Node ι}

/-- Another communicator with the same readers and local subscribers. -/
theorem withComm (h : NodeInv launches pubs i n) {comm : Communicator}
    (hwired : Wired (launches i) { n.proc with comm := comm }) :
    NodeInv launches pubs i { n with proc := { n.proc with comm := comm } } :=
  ⟨hwired, h.taken, h.handedOut, h.pushed, h.submitted⟩

/-- A publication that the process does not hand out to itself. -/
theorem otherPublication (h : NodeInv launches pubs i n) {pub : Publication ι}
    (hother : ¬ (pub.handedOut = true ∧ pub.process = i)) :
    NodeInv launches (pubs ++ [pub]) i n := by
  refine ⟨h.wired, h.taken, ?_, h.pushed, h.submitted⟩
  intro k sub hsub
  have hno : ¬ HandedTo i sub pub := fun hto => hother ⟨hto.1, hto.2.1⟩
  rw [payloads_append, if_neg hno, List.append_nil]
  exact h.handedOut k sub hsub

/-- A publication that the process hands out to its own subscriptions. -/
theorem handOut (h : NodeInv launches pubs i n) (ep : Endpoint) (data : Bytes) :
    NodeInv launches (pubs ++ [⟨i, ep, data, true⟩]) i (n.hear (arrivalsOf n.proc.subs ep data)) where
  wired := h.wired
  taken := by
    intro k sub hsub j
    have hsub : n.proc.subs[k]? = some sub := hsub
    have hnone := filter_arrivalsOf hsub ep data (some j)
    rw [if_neg (fun hremote => nomatch hremote.1)] at hnone
    rw [heard_hear, hnone, List.append_nil]
    exact h.taken k sub hsub j
  handedOut := by
    intro k sub hsub
    have hsub : n.proc.subs[k]? = some sub := hsub
    have hiff : HandedTo i sub ⟨i, ep, data, true⟩ ↔ (none : Option ι) = none ∧ sub.ep = ep := by
      constructor
      · rintro ⟨-, -, hep⟩
        exact ⟨rfl, hep.symm⟩
      · rintro ⟨-, hep⟩
        exact ⟨rfl, rfl, hep.symm⟩
    rw [heard_hear, payloads_append, h.handedOut k sub hsub,
      filter_arrivalsOf hsub ep data none, if_congr hiff rfl rfl]
  pushed := by
    intro thread
    show n.mailbox thread ++ _ = List.filterMap _ (n.arrivals ++ _)
    rw [List.filterMap_append, h.pushed thread]
    rfl
  submitted := by
    show n.commands ++ _ = List.filterMap _ (n.arrivals ++ _)
    rw [List.filterMap_append, h.submitted]
    rfl

/-- A reader is given a sample. -/
theorem take (h : NodeInv launches pubs i n) {r : ℕ} {j : ι} {data : Bytes} {m : Node ι}
    (hstep : n.take r j data = some m) : NodeInv launches pubs i m ∧ m.proc = n.proc := by
  obtain ⟨reader, hreader, rfl⟩ := Option.map_eq_some_iff.mp hstep
  rw [h.wired.readers_getElem?] at hreader
  obtain ⟨sub, hsub, rfl⟩ := Option.map_eq_some_iff.mp hreader
  have hcall := callback_eq (n := { n with
    given := Function.update n.given r (n.given r ++ [(j, data)]) }) hsub
      (deserialize (sizeOf launches i (makeTopic sub.ep)) data) (some j)
  simp only [readerOf]
  rw [sizeOf] at hcall
  rw [hcall]
  refine ⟨⟨h.wired, ?_, ?_, ?_, ?_⟩, rfl⟩
  · intro k sub' hsub' j'
    have hold := h.taken k sub' hsub' j'
    rw [heard_hear]
    show n.heard k (some j') ++ _ =
      (((Function.update n.given r _ k).filter _).map _).map _
    by_cases hk : k = r
    · subst hk
      cases hsub.symm.trans hsub'
      rw [Function.update_self, List.filter_append, List.map_append, List.map_append, hold]
      by_cases hj : j = j'
      · simp [hj, Node.givenFrom, sizeOf]
      · simp [hj, Node.givenFrom]
    · rw [Function.update_of_ne hk, hold]
      simp [Ne.symm hk, Node.givenFrom]
  · intro k sub' hsub'
    rw [heard_hear, ← h.handedOut k sub' hsub']
    show n.heard k none ++ _ = _
    simp
  · intro thread
    show n.mailbox thread ++ _ = List.filterMap _ (n.arrivals ++ _)
    rw [List.filterMap_append, h.pushed thread]
    rfl
  · show n.commands ++ _ = List.filterMap _ (n.arrivals ++ _)
    rw [List.filterMap_append, h.submitted]
    rfl

end NodeInv

/-! ## Runs -/

/-- What a publication over the transport has written. -/
def writtenFor (pub : Publication ι) : WrittenSample ι :=
  ⟨pub.process, some (typeName ((loadConfig cast (launches pub.process).config.topics).plainTopics
    (makeTopic pub.ep))), ⟨makeTopic pub.ep, pub.payload⟩⟩

structure NetInv (answers : ι → Answers) (s : Net ι) : Prop where
  nodes : ∀ i, NodeInv launches s.published i (s.nodes i)
  subs : ∀ i, (s.nodes i).proc.subs = (start cast (launches i) (answers i)).subs
  written : s.written = (s.published.filter fun pub => pub.handedOut = false).map
    (writtenFor launches)
  /-- what was written has the size that the process gives the topic -/
  fits : ∀ pub ∈ s.published, pub.handedOut = false → pub.ep.sessionType = sessionTypeDts ∧
    deserialize (sizeOf launches pub.process (makeTopic pub.ep)) pub.payload = pub.payload

variable {launches} {answers : ι → Answers} {s : Net ι}

theorem netInv_init :
    NetInv launches answers (Net.init fun i => start cast (launches i) (answers i)) where
  nodes := fun i => ⟨(wired_start (launches i) (answers i)).1, fun _ _ _ _ => rfl, fun _ _ _ => rfl,
    fun _ => rfl, rfl⟩
  subs := fun _ => rfl
  written := rfl
  fits := fun _ h => by cases h

/-- One node goes on by itself. -/
theorem NetInv.update (h : NetInv launches answers s) {i : ι} {n : Node ι}
    (hn : NodeInv launches s.published i n) (hsubs : n.proc.subs = (s.nodes i).proc.subs) :
    NetInv launches answers { s with nodes := Function.update s.nodes i n } := by
  refine ⟨fun j => ?_, fun j => ?_, h.written, h.fits⟩
  · by_cases hj : j = i
    · subst hj
      simpa only [Function.update_self] using hn
    · simpa only [Function.update_of_ne hj] using h.nodes j
  · by_cases hj : j = i
    · subst hj
      simpa only [Function.update_self] using hsubs.trans (h.subs j)
    · simpa only [Function.update_of_ne hj] using h.subs j

/-- A publication that is handed out. -/
theorem NetInv.publish_handedOut (h : NetInv launches answers s) (i : ι) (ep : Endpoint)
    (data : Payload) : NetInv launches answers (s.publish i ep data
      ⟨0, handOut (callbacksOf (s.nodes i).proc.subs ep) data, none, (s.nodes i).proc.comm⟩) := by
  have hnode := (h.nodes i).handOut ep data.bytes
  have hpublish : s.publish i ep data
      ⟨0, handOut (callbacksOf (s.nodes i).proc.subs ep) data, none, (s.nodes i).proc.comm⟩ =
        ⟨Function.update s.nodes i ((s.nodes i).hear (arrivalsOf (s.nodes i).proc.subs ep data.bytes)),
          s.written, s.published ++ [⟨i, ep, data.bytes, true⟩]⟩ := by
    rw [← foldl_handOut]
    rfl
  rw [hpublish]
  refine ⟨fun j => ?_, fun j => ?_, ?_, fun pub hpub hout => ?_⟩
  · by_cases hj : j = i
    · subst hj
      simpa only [Function.update_self] using hnode
    · simpa only [Function.update_of_ne hj] using
        (h.nodes j).otherPublication fun hto => hj hto.2.symm
  · by_cases hj : j = i
    · subst hj
      show (Function.update s.nodes j _ j).proc.subs = _
      rw [Function.update_self]
      exact h.subs j
    · simpa only [Function.update_of_ne hj] using h.subs j
  · rw [List.filter_append, List.map_append, ← h.written]
    exact (List.append_nil _).symm
  · rcases List.mem_append.mp hpub with hpub | hpub
    · exact h.fits pub hpub hout
    · rw [List.mem_singleton.mp hpub] at hout
      cases hout

/-- A publication over the transport. -/
theorem NetInv.publish_overTransport (h : NetInv launches answers s) (i : ι) {ep : Endpoint}
    (hep : ep.sessionType = sessionTypeDts) (data : Payload) (dds : Written) :
    NetInv launches answers
      (s.publish i ep data (publishOverTransport (s.nodes i).proc.comm ep data dds)) := by
  obtain ⟨hwired, hhanded, hresult⟩ := (h.nodes i).wired.publishOverTransport ep data dds
  generalize publishOverTransport (s.nodes i).proc.comm ep data dds = result at *
  obtain ⟨rc, handed, sample, comm⟩ := result
  simp only at hwired hhanded hresult
  subst hhanded
  have hall := h.update ((h.nodes i).withComm hwired) rfl
  rcases hresult with ⟨rfl, rfl, hsize⟩ | ⟨hrc, rfl⟩
  · refine {
      nodes := fun j => (hall.nodes j).otherPublication fun hto => nomatch hto.1
      subs := hall.subs
      written := ?_
      fits := fun pub hpub hout => ?_ }
    · show s.written ++ [_] = List.map _ (List.filter _ (s.published ++ [_]))
      rw [List.filter_append, List.map_append, ← h.written, hwired.typeOf_eq]
      rfl
    · rcases List.mem_append.mp hpub with hpub | hpub
      · exact h.fits pub hpub hout
      · rw [List.mem_singleton.mp hpub]
        exact ⟨hep, deserialize_eq hsize⟩
  · unfold Net.publish
    simp only [if_neg hrc]
    exact hall

/-- **Step lemma.** -/
theorem netInv_step {act : NetAct ι} {t : Net ι} (h : NetInv launches answers s)
    (hstep : netStep s act = some t) : NetInv launches answers t := by
  cases act with
  | publishExternal i inst msgId data dds =>
    cases hstep
    exact h.publish_overTransport i rfl data dds
  | publishInternal i inst msgId data dds =>
    cases hstep
    unfold publishInternal
    simp only [(h.nodes i).wired.localSubs]
    split
    · exact h.publish_handedOut i _ data
    · exact h.publish_overTransport i rfl data dds
  | take i r j data =>
    obtain ⟨n, hn, rfl⟩ := Option.map_eq_some_iff.mp hstep
    obtain ⟨hnode, hproc⟩ := (h.nodes i).take hn
    exact h.update hnode (by rw [hproc])

/-! ## What the readers are given -/

/-- Which readers a sample matches. -/
theorem NetInv.matches_iff (h : NetInv launches answers s) {i : ι} {k : ℕ} {sub : Subscription}
    (hsub : (s.nodes i).proc.subs[k]? = some sub) {pub : Publication ι}
    (htype : pub.ep.sessionType = sessionTypeDts) :
    ((s.nodes pub.process).proc.domain = (s.nodes i).proc.domain ∧
        (writtenFor launches pub).sample.topic = makeTopic sub.ep ∧
        (writtenFor launches pub).typeName = (s.nodes i).proc.typeOf (makeTopic sub.ep)) ↔
      pub.ep = sub.ep ∧ (launches pub.process).domain = (launches i).domain ∧
        declaredSize cast (launches pub.process).config.topics (makeTopic sub.ep)
          = declaredSize cast (launches i).config.topics (makeTopic sub.ep) := by
  have hwired := (h.nodes i).wired
  have htyped := hwired.typed sub (List.mem_of_getElem? hsub)
  rw [(h.nodes pub.process).wired.domain, hwired.domain, hwired.typeOf_eq, writtenFor,
    Option.some_inj, typeName_eq_iff, plainTopics_loadConfig, plainTopics_loadConfig,
    makeTopic_inj htype htyped]
  constructor
  · rintro ⟨hdomain, hep, hsize⟩
    exact ⟨hep, hdomain, hep ▸ hsize⟩
  · rintro ⟨hep, hdomain, hsize⟩
    exact ⟨hdomain, hep, hep ▸ hsize⟩

/-- The samples for the reader of a subscription are the publications that reach it. -/
theorem NetInv.samplesFor_eq (h : NetInv launches answers s) {i : ι} {k : ℕ} {sub : Subscription}
    (hsub : (s.nodes i).proc.subs[k]? = some sub) (j : ι) :
    s.samplesFor i (readerOf (loadConfig cast (launches i).config.topics) sub k) j =
      payloads s.published (Reaches launches i sub j) := by
  unfold Net.samplesFor payloads
  rw [h.written, List.filter_map, List.filter_filter, List.map_map]
  refine congrArg (List.map _) (List.filter_congr fun pub hpub => ?_)
  rw [Bool.eq_iff_iff]
  simp only [Function.comp_apply, Bool.and_eq_true, decide_eq_true_eq]
  constructor
  · rintro ⟨⟨hfrom, hmatch⟩, hout⟩
    have hfrom : pub.process = j := hfrom
    subst hfrom
    exact ⟨hout, rfl, (h.matches_iff hsub (h.fits pub hpub hout).1).mp hmatch⟩
  · rintro ⟨hout, hfrom, hreaches⟩
    subst hfrom
    exact ⟨⟨rfl, (h.matches_iff hsub (h.fits pub hpub hout).1).mpr hreaches⟩, hout⟩

theorem NetInv.given_sublist (h : NetInv launches answers s) (hdds : FastDds s) {i : ι} {k : ℕ}
    {sub : Subscription} (hsub : (s.nodes i).proc.subs[k]? = some sub) (j : ι) :
    ((s.nodes i).givenFrom k j).Sublist (payloads s.published (Reaches launches i sub j)) := by
  have hreader : (s.nodes i).proc.readers[k]? =
      some (readerOf (loadConfig cast (launches i).config.topics) sub k) := by
    rw [(h.nodes i).wired.readers_getElem?, hsub]
    rfl
  exact h.samplesFor_eq hsub j ▸ hdds i k _ hreader j

/-- A sample that reaches a subscription has the size of its reader. -/
theorem NetInv.heard_eq (h : NetInv launches answers s) (hdds : FastDds s) {i : ι} {k : ℕ}
    {sub : Subscription} (hsub : (s.nodes i).proc.subs[k]? = some sub) (j : ι) :
    (s.nodes i).heard k (some j) = (s.nodes i).givenFrom k j := by
  rw [(h.nodes i).taken k sub hsub j]
  refine (List.map_congr_left fun data hdata => ?_).trans (List.map_id _)
  obtain ⟨pub, hpub, rfl⟩ := List.mem_map.mp ((h.given_sublist hdds hsub j).subset hdata)
  obtain ⟨hpublished, hreaches⟩ := List.mem_filter.mp hpub
  obtain ⟨hout, rfl, hep, -, hsize⟩ := of_decide_eq_true hreaches
  have hfits := (h.fits pub hpublished hout).2
  have hsame : sizeOf launches i (makeTopic sub.ep) =
      sizeOf launches pub.process (makeTopic pub.ep) := by
    rw [sizeOf, sizeOf, plainTopics_loadConfig, plainTopics_loadConfig, hep, hsize]
  rw [hsame]
  exact hfits

theorem NetInv.law (h : NetInv launches answers s) (i : ι) : NodeLaw launches s i where
  taken := fun hdds _ _ hsub j => h.heard_eq hdds hsub j
  transported := by
    intro hdds k sub hsub j
    rw [h.heard_eq hdds hsub j]
    exact h.given_sublist hdds hsub j
  complete := by
    intro hdds k sub hsub j hdelivered
    rw [h.heard_eq hdds hsub j, ← h.samplesFor_eq hsub j]
    refine hdelivered _ ?_
    rw [(h.nodes i).wired.readers_getElem?, hsub]
    rfl
  handedOut := (h.nodes i).handedOut
  pushed := (h.nodes i).pushed
  submitted := (h.nodes i).submitted

/-! ## Configurations -/

/-- The rows that are subscribed under the constant are those of the configuration. -/
theorem subscriptions_eq_wanted_iff (l : Launch cast) :
    subscriptions cast (fun _ => sessionTypeDts) l = wanted cast l ↔
      ∀ sub ∈ wanted cast l, sub.ep.sessionType = sessionTypeDts := by
  have hretype : subscriptions cast (fun _ => sessionTypeDts) l =
      (wanted cast l).map fun sub => { sub with ep.sessionType := sessionTypeDts } := by
    unfold wanted subscriptions subscriptionsOf
    rw [List.map_flatMap]
    simp only [List.map_map]
    rfl
  rw [hretype]
  nth_rewrite 2 [← List.map_id (wanted cast l)]
  rw [List.map_inj_left]
  refine forall₂_congr fun sub _ => ?_
  constructor
  · intro h
    exact (congrArg (·.ep.sessionType) h).symm
  · intro h
    rw [← h]
    rfl

/--
**Routing.** In every run of every group, whatever could be created and whatever samples FastDDS
gives the readers, the subscriptions are those of the configurations, a message that is published
inside the process reaches exactly the subscriptions of its endpoint, what a subscription gets over
the transport are publications of its endpoint, those of a process in their order and once each, and
all of them that were delivered, and every one goes to the mailbox that its row names — exactly when
every row that subscribes has the session type `DTS`.
-/
theorem routingLaw_iff (launches : ι → Launch cast) :
    (∀ (answers : ι → Answers) (run : List (NetAct ι)) (s : Net ι),
      exec netStep (Net.init fun i => start cast (launches i) (answers i)) run = some s →
        RoutingLaw launches answers s) ↔
      ∀ i, ∀ sub ∈ wanted cast (launches i), sub.ep.sessionType = sessionTypeDts := by
  constructor
  · intro h i
    let ready : Answers := ⟨fun _ => ⟨true, true⟩, fun _ _ => ⟨true, true⟩, true⟩
    have hready : ready.Ready := ⟨fun _ _ => rfl, rfl⟩
    have hlaw := ((h (fun _ => ready) [] _ rfl).subscribed i).2 hready
    exact (subscriptions_eq_wanted_iff (launches i)).mp
      (((wired_start (launches i) ready).2.2 hready).symm.trans hlaw)
  · intro htyped answers run s hrun
    have hinv := Reachable.invariant ⟨run, hrun⟩ netInv_init fun _ _ _ => netInv_step
    refine ⟨fun i => ?_, fun i => hinv.law i⟩
    obtain ⟨-, hsub, hfull⟩ := wired_start (launches i) (answers i)
    rw [hinv.subs i, ← (subscriptions_eq_wanted_iff (launches i)).mpr (htyped i)]
    exact ⟨hsub, hfull⟩

/-- Message 3 of the data group, sent by the task thread to the data thread. -/
def agentDataConfig : ProcessConfig where
  process := "cpf-dts"
  topics := [publishEntry [("thread", .str "task")],
    ⟨[("session_type", .str "DTS"), ("session_inst", .str "data"), ("msg_id", .int 3),
      ("role", .str "subscribe"), ("thread", .str "data")], 2, 2⟩]

/-- Its headers compile. -/
example : ∃ l : Launch lowBits, l.config = agentDataConfig ∧
    wanted lowBits l = [⟨⟨"DTS", "data", 3⟩, some .data⟩] := by
  have hcompiled : ∀ inst, (genRoutesH agentDataConfig inst "subscribe").mapM compileRow =
      some (if inst = .data then [⟨"DTS", "data", 3⟩] else []) := by
    intro inst
    cases inst <;> decide
  exact ⟨⟨agentDataConfig, 0, _, hcompiled, by decide⟩, rfl, rfl⟩

end Dts.Bootstrap
