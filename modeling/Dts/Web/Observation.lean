import Dts.Console.Ctl
import Dts.Infra.EventStream
import Dts.Web.RequestHead
import Dts.Web.Window

/-!
# From a report to the browser

`main.cpp` of the web server. The receive thread puts every report into a Kafka topic, a consumer
thread reads all partitions of the topic from their ends at the start on, counts the reports and
broadcasts some of them as `frame` events, and the main thread broadcasts the statistics every
second. So a browser shows what comes from the topic and not what came in over DDS.

The answers of librdkafka are part of the actions: it takes a message or not, and a poll gives any
record of any partition, or none.

* `observationLaw_iff` — in every interleaving the browsers get every broadcast since they have
  connected, and it shows what the consumer has got, exactly when `send` never sends a part of a text
-/

namespace Dts.Web

open Infra
open Ctl (decimal decimalInt)
open Streams (headEnd)

/-! ## Messages -/

structure Message where
  key : Bytes
  headers : List (Bytes × Bytes)
  /-- a message of others may have none -/
  value : Option Bytes

/-- What `rd_kafka_consumer_poll` gives. -/
structure Record where
  partition : Int32
  offset : Int64
  message : Message
  /-- produced by this process -/
  own : Bool

/-- The text in a buffer of `size` bytes. -/
def snprintf (size : ℕ) (text : Bytes) : Bytes := text.take (size - 1)

/-- `OnDtsReport`: the message for `Produce`. It takes frames that `ParseReport` does not take. -/
def onDtsReport (data : Bytes) : Option Message :=
  if data.isEmpty then none
  else
    let v := (parseReport (some data) (UInt32.ofNat data.length) {}).2
    some {
      key := decimal v.taskId.toNat
      headers := [(utf8 "seq", snprintf 16 (decimal v.seq.toNat)),
        (utf8 "ts_ms", snprintf 24 (decimal v.timestampMs.toNat))]
      value := some data }

/-- What `ParseReport` makes of a message. -/
def Message.view (m : Message) : Option ReportView :=
  match parseReport m.value (UInt32.ofNat (m.value.getD []).length) {} with
  | (true, v) => some v
  | (false, _) => none

/-- A record with a report in it. -/
def Record.report (r : Record) : Option (ReportView × Record) := r.message.view.map (·, r)

/-! ## Events -/

/-- What `%.1f` or `%.2f` prints for a rate: nothing is known here but that it is one short line. -/
structure Printed where
  text : Bytes
  plain : EventStream.Plain text
  short : text.length ≤ 64

/-- The format of a `frame` event. -/
def frameText (v : ReportView) (offset : Int64) : Bytes :=
  utf8 "\x7b\"seq\":" ++ decimal v.seq.toNat ++ utf8 ",\"task\":" ++ decimal v.taskId.toNat ++
    utf8 ",\"ts_ms\":" ++ decimal v.timestampMs.toNat ++ utf8 ",\"slices\":" ++
    decimal v.sliceCount.toNat ++ utf8 ",\"data_ids\":[" ++ decimal v.dataIdMin.toNat ++ utf8 "," ++
    decimal v.dataIdMax.toNat ++ utf8 "],\"len\":" ++ decimal v.frameLen.toNat ++
    utf8 ",\"offset\":" ++ decimalInt offset.toInt ++ utf8 "\x7d"

/-- The format of `SnapshotJson`. -/
def statsText (shot : Snapshot) (fps mbps : Printed) : Bytes :=
  utf8 "\x7b\"total_frames\":" ++ decimal shot.totalFrames.toNat ++ utf8 ",\"total_bytes\":" ++
    decimal shot.totalBytes.toNat ++ utf8 ",\"gaps\":" ++ decimal shot.gaps.toNat ++
    utf8 ",\"last_seq\":" ++ decimal shot.lastSeq.toNat ++ utf8 ",\"last_task\":" ++
    decimal shot.lastTask.toNat ++ utf8 ",\"fps_5s\":" ++ fps.text ++ utf8 ",\"mbps_5s\":" ++
    mbps.text ++ utf8 "\x7d"

/--
A broadcast, with the record and the time that the consumer has read, or how many records it had got
at the snapshot.
-/
inductive Event
  | frame (v : ReportView) (r : Record) (time : ℕ)
  | stats (shot : Snapshot) (fps mbps : Printed) (position : ℕ)

namespace Event

def name : Event → Bytes
  | frame .. => utf8 "frame"
  | stats .. => utf8 "stats"

def format : Event → Bytes
  | frame v r _ => frameText v r.offset
  | stats shot fps mbps _ => statsText shot fps mbps

/-- `ev`, or the `buf` of `SnapshotJson`. -/
def json : Event → Bytes
  | frame v r _ => snprintf 256 (frameText v r.offset)
  | stats shot fps mbps _ => snprintf 512 (statsText shot fps mbps)

/-- `msg` in `Broadcast`. -/
def msg (e : Event) : Bytes :=
  utf8 "event: " ++ e.name ++ utf8 "\ndata: " ++ e.json ++ utf8 "\n\n"

/-- What a frame event shows. -/
def report : Event → Option (ReportView × Record)
  | frame v r _ => some (v, r)
  | stats .. => none

/-- The time of a frame event. -/
def time : Event → Option ℕ
  | frame _ _ time => some time
  | stats .. => none

end Event

/-! ## The process -/

/-- Where the consumer thread is. -/
inductive Consumer
  | polling
  /-- `OnReport` has returned -/
  | counted (v : ReportView) (r : Record)
  /-- the next step is `Broadcast` -/
  | pushing (v : ReportView) (r : Record) (time : ℕ)

/-- Where the main thread is. -/
inductive MainLoop
  | sleeping
  /-- the statistics are in the log -/
  | logged
  /-- the next step is `Broadcast` -/
  | pushing (shot : Snapshot) (fps mbps : Printed) (position : ℕ)

/-- A connection of `/api/stream`: the broadcasts before it, and what it has got. -/
inductive Client
  | absent
  | streaming (since : ℕ) (bytes : Bytes)
  | gone

structure Observation where
  /-- what came in over DDS -/
  received : List Bytes
  /-- what librdkafka has taken -/
  produced : List Message
  /-- what the consumer has got -/
  records : List Record
  stats : Stats
  /-- the steady clock in ms -/
  clock : ℕ
  lastFramePush : ℕ
  consumer : Consumer
  main : MainLoop
  clients : ℕ → Client
  /-- the broadcasts so far -/
  shown : List Event

def Observation.init (clock : ℕ) : Observation where
  received := []
  produced := []
  records := []
  stats := {}
  clock := clock
  lastFramePush := 0
  consumer := .polling
  main := .sleeping
  clients := fun _ => .absent
  shown := []

/-- `kSseHead` -/
def kSseHead : Bytes :=
  utf8 "HTTP/1.1 200 OK\r\nContent-Type: text/event-stream\r\nCache-Control: no-cache\r\n" ++
    utf8 "Connection: keep-alive\r\n\r\n"

/-- `send`: it fails, or it sends some of the bytes. -/
def Client.sendTo (text : Bytes) (sent : Option ℕ) : Client → Client
  | .streaming since bytes =>
    match sent with
    | none => .gone
    | some n => .streaming since (bytes ++ text.take n)
  | client => client

/-- `Broadcast`, with the answer of `send` for each connection. -/
def Observation.broadcast (s : Observation) (e : Event) (sent : ℕ → Option ℕ) : Observation :=
  { s with
    clients := fun c => (s.clients c).sendTo e.msg (sent c)
    shown := s.shown ++ [e] }

inductive ObsAction
  /-- a frame comes in over DDS; `taken` is false when librdkafka does not take the message -/
  | report (data : Bytes) (taken : Bool)
  /-- `rd_kafka_consumer_poll`; none is a timeout or an error -/
  | poll (answer : Option Record) (nowSec : ℕ)
  /-- and reads the clock -/
  | readClock
  | pushFrame (sent : ℕ → Option ℕ)
  | logStats (nowSec : ℕ)
  | snapshot (nowSec : ℕ) (fps mbps : Printed)
  | pushStats (sent : ℕ → Option ℕ)
  /-- a request for `/api/stats` -/
  | apiStats (nowSec : ℕ)
  /-- `ServeStream` has sent the head, and inserts the connection -/
  | connect (c : ℕ) (sent : Option ℕ)
  | disconnect (c : ℕ)
  | wait (ms : ℕ)

def obsStep (s : Observation) : ObsAction → Option Observation
  | .report data taken =>
    match onDtsReport data with
    | none => some s
    | some m => some { s with
        received := s.received ++ [data]
        produced := if taken then s.produced ++ [m] else s.produced }
  | .poll answer nowSec =>
    match s.consumer, answer with
    | .polling, none => some s
    | .polling, some r =>
      match r.message.view with
      | none => some { s with records := s.records ++ [r] }
      | some v => some { s with
          records := s.records ++ [r]
          stats := s.stats.onReport v nowSec
          consumer := .counted v r }
    | _, _ => none
  | .readClock =>
    match s.consumer with
    | .counted v r =>
      if s.lastFramePush + 100 ≤ s.clock then
        some { s with lastFramePush := s.clock, consumer := .pushing v r s.clock }
      else some { s with consumer := .polling }
    | _ => none
  | .pushFrame sent =>
    match s.consumer with
    | .pushing v r time =>
      some { s.broadcast (.frame v r time) sent with consumer := .polling }
    | _ => none
  | .logStats nowSec =>
    match s.main with
    | .sleeping => some { s with stats := (s.stats.snapshotJson nowSec).2, main := .logged }
    | _ => none
  | .snapshot nowSec fps mbps =>
    match s.main with
    | .logged => some { s with
        stats := (s.stats.snapshotJson nowSec).2
        main := .pushing (s.stats.snapshotJson nowSec).1 fps mbps s.records.length }
    | _ => none
  | .pushStats sent =>
    match s.main with
    | .pushing shot fps mbps position =>
      some { s.broadcast (.stats shot fps mbps position) sent with main := .sleeping }
    | _ => none
  | .apiStats nowSec => some { s with stats := (s.stats.snapshotJson nowSec).2 }
  | .connect c sent =>
    match s.clients c, sent with
    | .absent, none => some { s with clients := Function.update s.clients c .gone }
    | .absent, some n => some { s with
        clients := Function.update s.clients c (.streaming s.shown.length (kSseHead.take n)) }
    | _, _ => none
  | .disconnect c =>
    match s.clients c with
    | .streaming .. => some { s with clients := Function.update s.clients c .gone }
    | _ => none
  | .wait ms => some { s with clock := s.clock + ms }

/-! ## The law -/

/-- What `EventSource` gets from a connection: the events behind the head. -/
def browserEvents (bytes : Bytes) : Option (List (Bytes × Bytes)) :=
  (findSub headEnd bytes).map fun i => EventStream.events (bytes.drop (i + headEnd.length))

/-- The reports among the first records. -/
def Observation.reports (s : Observation) (position : ℕ) : List ReportView :=
  (s.records.take position).filterMap (·.message.view)

/-- How often a report does not follow the one before it. -/
def gapCount : List ReportView → ℕ
  | v :: w :: vs => (if w.seq = v.seq + 1 then 0 else 1) + gapCount (w :: vs)
  | _ => 0

/-- The counters are those of the reports. -/
structure Counts (vs : List ReportView) (totalFrames totalBytes gaps : UInt64)
    (lastSeq lastTask : UInt32) : Prop where
  frames : totalFrames = UInt64.ofNat vs.length
  bytes : totalBytes = UInt64.ofNat (vs.map (·.frameLen.toNat)).sum
  gaps : gaps = UInt64.ofNat (gapCount vs)
  last : ∀ v ∈ vs.getLast?, lastSeq = v.seq ∧ lastTask = v.taskId

/-- A message with a frame in it, and its task, sequence number and time in decimals. -/
def Message.Carries (m : Message) (data : Bytes) : Prop :=
  ∃ v, (parseReport (some data) (UInt32.ofNat data.length) {}).2 = v ∧ m.value = some data ∧
    m.key = decimal v.taskId.toNat ∧ m.headers =
      [(utf8 "seq", decimal v.seq.toNat), (utf8 "ts_ms", decimal v.timestampMs.toNat)]

/--
What librdkafka and the broker promise: the offsets of a partition go up, and a record of this
process is a message that it has produced.
-/
structure Kafka (produced : List Message) (records : List Record) : Prop where
  ordered : records.Pairwise fun q r => q.partition = r.partition → q.offset < r.offset
  own : ∀ r ∈ records, r.own = true → r.message ∈ produced

/-- **The law.** -/
structure ObservationLaw (s : Observation) : Prop where
  /-- a browser gets every broadcast since it has connected, with the whole text -/
  browsers : ∀ c since bytes, s.clients c = .streaming since bytes →
    browserEvents bytes = some ((s.shown.drop since).map fun e => (e.name, e.format))
  /-- it shows reports among the records in their order, and none of them twice -/
  shown : (s.shown.filterMap Event.report).Sublist (s.records.filterMap Record.report)
  /-- and not more than one in 100 ms -/
  paced : (s.shown.filterMap Event.time).Pairwise fun a b => a + 100 ≤ b
  /-- what this process puts into the topic are frames that came in over DDS, in their order -/
  produced : ∃ frames, frames.Sublist s.received ∧ List.Forall₂ Message.Carries s.produced frames
  /-- so a frame event of a message of this process shows a frame that came in over DDS -/
  own : Kafka s.produced s.records → ∀ v r, (v, r) ∈ s.shown.filterMap Event.report →
    r.own = true → ∃ data ∈ s.received, r.message.Carries data ∧
      parseReport (some data) (UInt32.ofNat data.length) {} = (true, v)
  /-- and no place of the topic is shown twice -/
  distinct : Kafka s.produced s.records → (s.shown.filterMap Event.report).Pairwise fun a b =>
    a.2.partition = b.2.partition → a.2.offset < b.2.offset
  /-- the statistics count the reports that the consumer had got -/
  counted : ∀ shot fps mbps position, .stats shot fps mbps position ∈ s.shown →
    position ≤ s.records.length ∧ Counts (s.reports position) shot.totalFrames shot.totalBytes
      shot.gaps shot.lastSeq shot.lastTask

/-- No `send` sends a part of the text only. -/
def SendsWhole (s : Observation) : ObsAction → Prop
  | .pushFrame sent => ∀ v r time, s.consumer = .pushing v r time →
    ∀ c since bytes n, s.clients c = .streaming since bytes → sent c = some n →
      (Event.frame v r time).msg.length ≤ n
  | .pushStats sent => ∀ shot fps mbps position, s.main = .pushing shot fps mbps position →
    ∀ c since bytes n, s.clients c = .streaming since bytes → sent c = some n →
      (Event.stats shot fps mbps position).msg.length ≤ n
  | .connect _ sent => ∀ n, sent = some n → kSseHead.length ≤ n
  | _ => True

/-! ## Texts -/

theorem isDigit_of_mem_toDigits {n : ℕ} {c : Char} (h : c ∈ Nat.toDigits 10 n) :
    48 ≤ c.val.toNat ∧ c.val.toNat ≤ 57 :=
  Char.isDigit_iff_toNat.mp (Nat.isDigit_of_mem_toDigits (by decide) (by decide) h)

/-- A digit is one byte. -/
theorem decimal_eq (n : ℕ) :
    decimal n = (Nat.toDigits 10 n).map fun c => UInt8.ofNat c.val.toNat := by
  rw [decimal, utf8, Nat.toList_repr, List.map_eq_flatMap]
  refine List.flatMap_congr fun c hc => ?_
  have hlt := (isDigit_of_mem_toDigits hc).2
  exact if_pos (by omega)

theorem mem_decimal {n : ℕ} {b : UInt8} (h : b ∈ decimal n) : 48 ≤ b.toNat ∧ b.toNat ≤ 57 := by
  rw [decimal_eq] at h
  obtain ⟨c, hc, rfl⟩ := List.mem_map.mp h
  have hdigit := isDigit_of_mem_toDigits hc
  rw [UInt8.toNat_ofNat', Nat.mod_eq_of_lt (by omega)]
  exact hdigit

theorem length_decimal {n k : ℕ} (hk : 0 < k) (h : n < 10 ^ k) : (decimal n).length ≤ k := by
  rw [decimal_eq, List.length_map]
  exact (Nat.length_toDigits_le_iff (by decide) hk).mpr h

instance : DecidablePred EventStream.Plain := fun bs =>
  inferInstanceAs (Decidable (EventStream.lineFeed ∉ bs ∧ EventStream.carriageReturn ∉ bs))

theorem plain_append {xs ys : Bytes} : EventStream.Plain (xs ++ ys) ↔
    EventStream.Plain xs ∧ EventStream.Plain ys := by
  simp only [EventStream.Plain, List.mem_append, not_or]
  exact and_and_and_comm

theorem plain_decimal (n : ℕ) : EventStream.Plain (decimal n) := by
  constructor
  · exact fun h => absurd (mem_decimal h).1 (by decide)
  · exact fun h => absurd (mem_decimal h).1 (by decide)

theorem plain_decimalInt (z : ℤ) : EventStream.Plain (decimalInt z) := by
  unfold decimalInt
  split
  · exact plain_append.mpr ⟨by decide, plain_decimal _⟩
  · exact plain_decimal _

theorem snprintf_of_lt {size : ℕ} {text : Bytes} (h : text.length < size) :
    snprintf size text = text :=
  List.take_of_length_le (Nat.le_sub_one_of_lt h)

theorem length_decimal_u16 (n : UInt16) : (decimal n.toNat).length ≤ 5 :=
  length_decimal (by decide) (n.toNat_lt.trans (by decide))

theorem length_decimal_u32 (n : UInt32) : (decimal n.toNat).length ≤ 10 :=
  length_decimal (by decide) (n.toNat_lt.trans (by decide))

theorem length_decimal_u64 (n : UInt64) : (decimal n.toNat).length ≤ 20 :=
  length_decimal (by decide) (n.toNat_lt.trans (by decide))

theorem length_decimal_i64 (n : Int64) : (decimalInt n.toInt).length ≤ 20 := by
  have hle := n.le_toInt
  have hlt := n.toInt_lt
  have hdigits : (decimal n.toInt.natAbs).length ≤ 19 := length_decimal (by decide) (by omega)
  have hsign : (utf8 "-").length = 1 := by decide
  unfold decimalInt
  split
  · rw [List.length_append]
    omega
  · omega

/-- The text of a frame event fits. -/
theorem length_frameText (v : ReportView) (offset : Int64) :
    (frameText v offset).length < 256 := by
  have hseq := length_decimal_u32 v.seq
  have htask := length_decimal_u32 v.taskId
  have htime := length_decimal_u64 v.timestampMs
  have hslices := length_decimal_u16 v.sliceCount
  have hmin := length_decimal_u16 v.dataIdMin
  have hmax := length_decimal_u16 v.dataIdMax
  have hlen := length_decimal_u32 v.frameLen
  have hoffset := length_decimal_i64 offset
  have hliterals : (utf8 "\x7b\"seq\":").length + (utf8 ",\"task\":").length +
      (utf8 ",\"ts_ms\":").length + (utf8 ",\"slices\":").length +
      (utf8 ",\"data_ids\":[").length + (utf8 ",").length + (utf8 "],\"len\":").length +
      (utf8 ",\"offset\":").length + (utf8 "\x7d").length = 67 := by
    decide
  simp only [frameText, List.length_append]
  omega

theorem length_statsText (shot : Snapshot) (fps mbps : Printed) :
    (statsText shot fps mbps).length < 512 := by
  have hframes := length_decimal_u64 shot.totalFrames
  have hbytes := length_decimal_u64 shot.totalBytes
  have hgaps := length_decimal_u64 shot.gaps
  have hseq := length_decimal_u32 shot.lastSeq
  have htask := length_decimal_u32 shot.lastTask
  have hfps := fps.short
  have hmbps := mbps.short
  have hliterals : (utf8 "\x7b\"total_frames\":").length + (utf8 ",\"total_bytes\":").length +
      (utf8 ",\"gaps\":").length + (utf8 ",\"last_seq\":").length +
      (utf8 ",\"last_task\":").length + (utf8 ",\"fps_5s\":").length +
      (utf8 ",\"mbps_5s\":").length + (utf8 "\x7d").length < 128 := by
    decide
  simp only [statsText, List.length_append]
  omega

theorem plain_format (e : Event) : EventStream.Plain e.format := by
  cases e with
  | frame v r time =>
    simp only [Event.format, frameText, plain_append, plain_decimal, plain_decimalInt,
      and_true]
    decide
  | stats shot fps mbps position =>
    simp only [Event.format, statsText, plain_append, plain_decimal, fps.plain, mbps.plain,
      and_true]
    decide

/-! ## The counters -/

theorem gapCount_concat (v : ReportView) : ∀ vs : List ReportView, gapCount (vs ++ [v]) =
    gapCount vs + if ∀ w ∈ vs.getLast?, v.seq = w.seq + 1 then 0 else 1
  | [] => by simp [gapCount]
  | [w] => by simp [gapCount]
  | u :: w :: vs => by
    have ih := gapCount_concat v (w :: vs)
    rw [List.cons_append, List.cons_append, gapCount, gapCount, ← List.cons_append, ih,
      List.getLast?_cons_cons, Nat.add_assoc]

/-- The statistics are those of the reports. -/
structure Tallies (vs : List ReportView) (s : Stats) : Prop where
  counts : Counts vs s.totalFrames s.totalBytes s.gaps s.lastSeq s.lastTaskId
  hasLast : s.hasLastSeq = vs.getLast?.isSome

theorem tallies_init : Tallies [] {} :=
  ⟨⟨rfl, rfl, rfl, fun _ h => (nomatch h)⟩, rfl⟩

/-- The counters do not depend on the buckets. -/
theorem Tallies.buckets {vs : List ReportView} {s : Stats} (h : Tallies vs s)
    (buckets : Fin kWindow → SecBucket) : Tallies vs { s with buckets := buckets } :=
  ⟨⟨h.counts.frames, h.counts.bytes, h.counts.gaps, h.counts.last⟩, h.hasLast⟩

theorem Tallies.rollTo {vs : List ReportView} {s : Stats} (h : Tallies vs s) (nowSec : ℕ) :
    Tallies vs (s.rollTo nowSec) := by
  unfold Stats.rollTo
  split
  · exact h.buckets _
  · exact h

theorem Tallies.addBucket {vs : List ReportView} {s : Stats} (h : Tallies vs s) (nowSec : ℕ)
    (bytes : UInt32) : Tallies vs (s.addBucket nowSec bytes) := by
  obtain ⟨buckets, hb⟩ := s.addBucket_eq nowSec bytes
  rw [hb]
  exact h.buckets buckets

/-- A report is counted. -/
theorem Tallies.onReport {vs : List ReportView} {s : Stats} (h : Tallies vs s) (v : ReportView)
    (nowSec : ℕ) : Tallies (vs ++ [v]) (s.onReport v nowSec) := by
  have hgap : (s.hasLastSeq && v.seq != s.lastSeq + 1) = true ↔
      ¬ ∀ w ∈ vs.getLast?, v.seq = w.seq + 1 := by
    rw [h.hasLast]
    cases hlast : vs.getLast? with
    | none => simp
    | some w =>
      obtain ⟨hseq, -⟩ := h.counts.last w hlast
      simp [hseq]
  have hcount : ∀ gaps, gaps = UInt64.ofNat (gapCount (vs ++ [v])) → Tallies (vs ++ [v]) { s with
      totalFrames := s.totalFrames + 1
      totalBytes := s.totalBytes + v.frameLen.toUInt64
      gaps := gaps, lastSeq := v.seq, hasLastSeq := true, lastTaskId := v.taskId } := by
    intro gaps hgaps
    refine ⟨⟨?_, ?_, hgaps, ?_⟩, by simp⟩
    · show s.totalFrames + 1 = _
      rw [h.counts.frames, List.length_append, UInt64.ofNat_add]
      rfl
    · show s.totalBytes + v.frameLen.toUInt64 = _
      rw [h.counts.bytes, List.map_append, List.sum_append, UInt64.ofNat_add]
      simp
    · intro w hw
      rw [List.getLast?_concat, Option.mem_some_iff] at hw
      rw [← hw]
      exact ⟨rfl, rfl⟩
  unfold Stats.onReport
  by_cases hnew : (s.hasLastSeq && v.seq != s.lastSeq + 1) = true
  · simp only [hnew, if_true]
    refine (hcount (s.gaps + 1) ?_).addBucket nowSec v.frameLen
    rw [gapCount_concat, if_neg (hgap.mp hnew), UInt64.ofNat_add, h.counts.gaps]
    rfl
  · simp only [hnew, Bool.false_eq_true, if_false]
    refine (hcount s.gaps ?_).addBucket nowSec v.frameLen
    rw [gapCount_concat, if_pos (not_not.mp (mt hgap.mpr hnew)), Nat.add_zero, h.counts.gaps]

/-- A snapshot has the counters. -/
theorem Tallies.snapshotJson {vs : List ReportView} {s : Stats} (h : Tallies vs s) (nowSec : ℕ) :
    Tallies vs (s.snapshotJson nowSec).2 ∧
      Counts vs (s.snapshotJson nowSec).1.totalFrames (s.snapshotJson nowSec).1.totalBytes
        (s.snapshotJson nowSec).1.gaps (s.snapshotJson nowSec).1.lastSeq
        (s.snapshotJson nowSec).1.lastTask :=
  ⟨h.rollTo nowSec, (h.rollTo nowSec).counts⟩

/-! ## What a step does -/

/-- The steps, with what they need. -/
inductive ObsEffect (s : Observation) : ObsAction → Observation → Prop
  | ignore (data : Bytes) (taken : Bool) : ObsEffect s (.report data taken) s
  | refuse (data : Bytes) (m : Message) (hm : onDtsReport data = some m) :
      ObsEffect s (.report data false) { s with received := s.received ++ [data] }
  | produce (data : Bytes) (m : Message) (hm : onDtsReport data = some m) :
      ObsEffect s (.report data true)
        { s with received := s.received ++ [data], produced := s.produced ++ [m] }
  | idle (nowSec : ℕ) (hconsumer : s.consumer = .polling) : ObsEffect s (.poll none nowSec) s
  | skip (r : Record) (nowSec : ℕ) (hconsumer : s.consumer = .polling)
      (hview : r.message.view = none) :
      ObsEffect s (.poll (some r) nowSec) { s with records := s.records ++ [r] }
  | count (r : Record) (nowSec : ℕ) (v : ReportView) (hconsumer : s.consumer = .polling)
      (hview : r.message.view = some v) : ObsEffect s (.poll (some r) nowSec) { s with
        records := s.records ++ [r]
        stats := s.stats.onReport v nowSec
        consumer := .counted v r }
  | push (v : ReportView) (r : Record) (hconsumer : s.consumer = .counted v r)
      (hclock : s.lastFramePush + 100 ≤ s.clock) : ObsEffect s .readClock
        { s with lastFramePush := s.clock, consumer := .pushing v r s.clock }
  | throttle (v : ReportView) (r : Record) (hconsumer : s.consumer = .counted v r) :
      ObsEffect s .readClock { s with consumer := .polling }
  | pushFrame (sent : ℕ → Option ℕ) (v : ReportView) (r : Record) (time : ℕ)
      (hconsumer : s.consumer = .pushing v r time) : ObsEffect s (.pushFrame sent)
        { s.broadcast (.frame v r time) sent with consumer := .polling }
  | logStats (nowSec : ℕ) (hmain : s.main = .sleeping) : ObsEffect s (.logStats nowSec)
      { s with stats := (s.stats.snapshotJson nowSec).2, main := .logged }
  | snapshot (nowSec : ℕ) (fps mbps : Printed) (hmain : s.main = .logged) :
      ObsEffect s (.snapshot nowSec fps mbps) { s with
        stats := (s.stats.snapshotJson nowSec).2
        main := .pushing (s.stats.snapshotJson nowSec).1 fps mbps s.records.length }
  | pushStats (sent : ℕ → Option ℕ) (shot : Snapshot) (fps mbps : Printed) (position : ℕ)
      (hmain : s.main = .pushing shot fps mbps position) : ObsEffect s (.pushStats sent)
        { s.broadcast (.stats shot fps mbps position) sent with main := .sleeping }
  | apiStats (nowSec : ℕ) : ObsEffect s (.apiStats nowSec)
      { s with stats := (s.stats.snapshotJson nowSec).2 }
  | connect (c n : ℕ) (hclient : s.clients c = .absent) : ObsEffect s (.connect c (some n))
      { s with
        clients := Function.update s.clients c (.streaming s.shown.length (kSseHead.take n)) }
  | leave (a : ObsAction) (c : ℕ) (ha : a = .connect c none ∨ a = .disconnect c) :
      ObsEffect s a { s with clients := Function.update s.clients c .gone }
  | wait (ms : ℕ) : ObsEffect s (.wait ms) { s with clock := s.clock + ms }

variable {s t : Observation} {a : ObsAction}

/-- **Inversion.** -/
theorem effect_of_obsStep (hstep : obsStep s a = some t) : ObsEffect s a t := by
  cases a with
  | report data taken =>
    simp only [obsStep] at hstep
    split at hstep
    · cases hstep
      exact .ignore data taken
    · rename_i m hm
      cases hstep
      cases taken with
      | false => exact .refuse data m hm
      | true => exact .produce data m hm
  | poll answer nowSec =>
    simp only [obsStep] at hstep
    split at hstep
    · rename_i hconsumer
      cases hstep
      exact .idle nowSec hconsumer
    · rename_i r hconsumer
      split at hstep
      · rename_i hview
        cases hstep
        exact .skip r nowSec hconsumer hview
      · rename_i v hview
        cases hstep
        exact .count r nowSec v hconsumer hview
    · cases hstep
  | readClock =>
    simp only [obsStep] at hstep
    split at hstep
    · rename_i v r hconsumer
      split at hstep
      · rename_i hclock
        cases hstep
        exact .push v r hconsumer hclock
      · cases hstep
        exact .throttle v r hconsumer
    · cases hstep
  | pushFrame sent =>
    simp only [obsStep] at hstep
    split at hstep
    · rename_i v r time hconsumer
      cases hstep
      exact .pushFrame sent v r time hconsumer
    · cases hstep
  | logStats nowSec =>
    simp only [obsStep] at hstep
    split at hstep
    · rename_i hmain
      cases hstep
      exact .logStats nowSec hmain
    · cases hstep
  | snapshot nowSec fps mbps =>
    simp only [obsStep] at hstep
    split at hstep
    · rename_i hmain
      cases hstep
      exact .snapshot nowSec fps mbps hmain
    · cases hstep
  | pushStats sent =>
    simp only [obsStep] at hstep
    split at hstep
    · rename_i shot fps mbps position hmain
      cases hstep
      exact .pushStats sent shot fps mbps position hmain
    · cases hstep
  | apiStats nowSec =>
    cases hstep
    exact .apiStats nowSec
  | connect c sent =>
    simp only [obsStep] at hstep
    split at hstep
    · cases hstep
      exact .leave _ c (Or.inl rfl)
    · rename_i n hclient
      cases hstep
      exact .connect c n hclient
    · cases hstep
  | disconnect c =>
    simp only [obsStep] at hstep
    split at hstep
    · cases hstep
      exact .leave _ c (Or.inr rfl)
    · cases hstep
  | wait ms =>
    cases hstep
    exact .wait ms

/-- The consumer only gets more. -/
theorem records_extends (h : ObsEffect s a t) : s.records <+: t.records := by
  cases h with
  | skip r | count r => exact List.prefix_append _ _
  | _ => exact List.prefix_refl _

/-- The events of a step. -/
theorem mem_shown (h : ObsEffect s a t) {e : Event} (he : e ∈ t.shown) : e ∈ s.shown ∨
    (∃ v r time, s.consumer = .pushing v r time ∧ e = .frame v r time) ∨
      ∃ shot fps mbps position, s.main = .pushing shot fps mbps position ∧
        e = .stats shot fps mbps position := by
  cases h with
  | pushFrame sent v r time hconsumer =>
    rcases List.mem_append.mp he with he | he
    · exact Or.inl he
    · exact Or.inr (Or.inl ⟨v, r, time, hconsumer, List.mem_singleton.mp he⟩)
  | pushStats sent shot fps mbps position hmain =>
    rcases List.mem_append.mp he with he | he
    · exact Or.inl he
    · exact Or.inr (Or.inr ⟨shot, fps, mbps, position, hmain, List.mem_singleton.mp he⟩)
  | _ => exact Or.inl he

/-! ## What is shown -/

/-- The report that the consumer thread is at. -/
def Consumer.report : Consumer → Option (ReportView × Record)
  | .counted v r | .pushing v r _ => some (v, r)
  | .polling => none

structure TopicInv (s : Observation) : Prop where
  produced : ∃ frames, frames.Sublist s.received ∧
    List.Forall₂ (fun m data => onDtsReport data = some m) s.produced frames
  shown : (s.shown.filterMap Event.report ++ s.consumer.report.toList).Sublist
    (s.records.filterMap Record.report)

theorem TopicInv.step_produced (h : TopicInv s) (heffect : ObsEffect s a t) :
    ∃ frames, frames.Sublist t.received ∧
      List.Forall₂ (fun m data => onDtsReport data = some m) t.produced frames := by
  obtain ⟨frames, hframes, hall⟩ := h.produced
  cases heffect with
  | refuse data m => exact ⟨frames, hframes.trans (List.sublist_append_left _ _), hall⟩
  | produce data m hm =>
    exact ⟨frames ++ [data], hframes.append (List.Sublist.refl _),
      List.rel_append hall (List.Forall₂.cons hm List.Forall₂.nil)⟩
  | _ => exact ⟨frames, hframes, hall⟩

theorem TopicInv.step_shown (h : TopicInv s) (heffect : ObsEffect s a t) :
    (t.shown.filterMap Event.report ++ t.consumer.report.toList).Sublist
      (t.records.filterMap Record.report) := by
  have hshown := h.shown
  cases heffect with
  | skip r nowSec hconsumer hview =>
    rw [List.filterMap_append]
    exact hshown.trans (List.sublist_append_left _ _)
  | count r nowSec v hconsumer hview =>
    have hreport : [r].filterMap Record.report = [(v, r)] := by
      simp [Record.report, hview]
    rw [hconsumer] at hshown
    rw [List.filterMap_append, hreport]
    exact ((List.sublist_append_left _ _).trans hshown).append (List.Sublist.refl _)
  | push v r hconsumer =>
    rw [hconsumer] at hshown
    exact hshown
  | throttle v r hconsumer =>
    exact (List.append_nil _).symm ▸ (List.sublist_append_left _ _).trans hshown
  | pushFrame sent v r time hconsumer =>
    rw [hconsumer] at hshown
    show ((s.shown ++ [Event.frame v r time]).filterMap Event.report ++ []).Sublist _
    rw [List.append_nil, List.filterMap_append]
    exact hshown
  | pushStats sent shot fps mbps position =>
    show ((s.shown ++ [Event.stats shot fps mbps position]).filterMap Event.report ++ _).Sublist _
    rw [List.filterMap_append]
    exact (List.append_nil (s.shown.filterMap Event.report)).symm ▸ hshown
  | _ => exact hshown

theorem TopicInv.step (h : TopicInv s) (heffect : ObsEffect s a t) : TopicInv t :=
  ⟨h.step_produced heffect, h.step_shown heffect⟩

/-! ## The pace -/

/-- The times of the frame events, and of the one that is next. -/
structure PaceInv (s : Observation) : Prop where
  shown : (s.shown.filterMap Event.time).Pairwise fun a b => a + 100 ≤ b
  before : ∀ a ∈ s.shown.filterMap Event.time, a ≤ s.lastFramePush
  clock : s.lastFramePush ≤ s.clock
  pushing : ∀ v r time, s.consumer = .pushing v r time → time = s.lastFramePush ∧
    ∀ a ∈ s.shown.filterMap Event.time, a + 100 ≤ time

/-- Nothing is shown, and the thread does not get to the next event. -/
theorem PaceInv.same (h : PaceInv s)
    (hshown : t.shown.filterMap Event.time = s.shown.filterMap Event.time)
    (hpush : t.lastFramePush = s.lastFramePush) (hclock : s.clock ≤ t.clock)
    (hconsumer : t.consumer = s.consumer ∨ ∀ v r time, t.consumer ≠ .pushing v r time) :
    PaceInv t where
  shown := hshown ▸ h.shown
  before := hshown ▸ hpush ▸ h.before
  clock := hpush ▸ h.clock.trans hclock
  pushing := by
    intro v r time hpushing
    rcases hconsumer with hsame | hnone
    · rw [hsame] at hpushing
      rw [hpush, hshown]
      exact h.pushing v r time hpushing
    · exact (hnone v r time hpushing).elim

theorem PaceInv.step (h : PaceInv s) (heffect : ObsEffect s a t) : PaceInv t := by
  cases heffect with
  | count | throttle => exact h.same rfl rfl le_rfl (Or.inr (by rintro _ _ _ ⟨⟩))
  | push v r hconsumer hclock =>
    -- the last one was shown 100 ms ago
    have htimes : ∀ a ∈ s.shown.filterMap Event.time, a + 100 ≤ s.clock :=
      fun a ha => (Nat.add_le_add_right (h.before a ha) 100).trans hclock
    refine ⟨h.shown, fun a ha => (Nat.le_add_right _ 100).trans (htimes a ha), le_rfl, ?_⟩
    intro w r' time hsame
    cases hsame
    exact ⟨rfl, htimes⟩
  | pushFrame sent v r time hconsumer =>
    obtain ⟨htime, htimes⟩ := h.pushing v r time hconsumer
    have hshown : (s.shown ++ [Event.frame v r time]).filterMap Event.time =
        s.shown.filterMap Event.time ++ [time] := by
      rw [List.filterMap_append]
      rfl
    refine ⟨?_, ?_, h.clock, by rintro _ _ _ ⟨⟩⟩
    · show ((s.shown ++ [Event.frame v r time]).filterMap Event.time).Pairwise _
      rw [hshown]
      refine List.pairwise_append.mpr ⟨h.shown, List.pairwise_singleton _ _, ?_⟩
      intro a ha b hb
      rw [List.mem_singleton.mp hb]
      exact htimes a ha
    · intro a ha
      have ha : a ∈ (s.shown ++ [Event.frame v r time]).filterMap Event.time := ha
      rw [hshown] at ha
      rcases List.mem_append.mp ha with ha | ha
      · exact h.before a ha
      · rw [List.mem_singleton.mp ha]
        exact htime.le
  | pushStats sent shot fps mbps position hmain =>
    refine h.same ?_ rfl le_rfl (Or.inl rfl)
    show (s.shown ++ [Event.stats shot fps mbps position]).filterMap Event.time = _
    rw [List.filterMap_append]
    exact List.append_nil _
  | wait ms => exact h.same rfl rfl (Nat.le_add_right _ _) (Or.inl rfl)
  | _ => exact h.same rfl rfl le_rfl (Or.inl rfl)

/-! ## The statistics -/

structure CountInv (s : Observation) : Prop where
  stats : Tallies (s.records.filterMap (·.message.view)) s.stats
  main : ∀ shot fps mbps position, s.main = .pushing shot fps mbps position →
    position ≤ s.records.length ∧ Counts (s.reports position) shot.totalFrames shot.totalBytes
      shot.gaps shot.lastSeq shot.lastTask
  shown : ∀ shot fps mbps position, .stats shot fps mbps position ∈ s.shown →
    position ≤ s.records.length ∧ Counts (s.reports position) shot.totalFrames shot.totalBytes
      shot.gaps shot.lastSeq shot.lastTask

theorem CountInv.step_stats (h : CountInv s) (heffect : ObsEffect s a t) :
    Tallies (t.records.filterMap (·.message.view)) t.stats := by
  have hstats := h.stats
  cases heffect with
  | skip r nowSec hconsumer hview =>
    rw [List.filterMap_append]
    simpa [hview] using hstats
  | count r nowSec v hconsumer hview =>
    have hcount := hstats.onReport v nowSec
    rw [List.filterMap_append]
    simpa [hview] using hcount
  | logStats nowSec | snapshot nowSec | apiStats nowSec => exact (hstats.snapshotJson nowSec).1
  | _ => exact hstats

/-- What was counted stays. -/
theorem counts_step (heffect : ObsEffect s a t) {shot : Snapshot} {position : ℕ}
    (h : position ≤ s.records.length ∧ Counts (s.reports position) shot.totalFrames
      shot.totalBytes shot.gaps shot.lastSeq shot.lastTask) :
    position ≤ t.records.length ∧ Counts (t.reports position) shot.totalFrames
      shot.totalBytes shot.gaps shot.lastSeq shot.lastTask := by
  obtain ⟨rest, hrecords⟩ := records_extends heffect
  have hreports : t.reports position = s.reports position := by
    unfold Observation.reports
    rw [← hrecords, List.take_append_of_le_length h.1]
  rw [hreports]
  exact ⟨h.1.trans (records_extends heffect).length_le, h.2⟩

theorem CountInv.step (h : CountInv s) (heffect : ObsEffect s a t) : CountInv t := by
  refine ⟨h.step_stats heffect, fun shot fps mbps position hmain => ?_,
    fun shot fps mbps position he => ?_⟩
  · cases heffect with
    | snapshot nowSec =>
      cases hmain
      refine ⟨le_rfl, ?_⟩
      unfold Observation.reports
      rw [List.take_length]
      exact (h.stats.snapshotJson nowSec).2
    | logStats | pushStats => cases hmain
    | skip r nowSec hconsumer hview =>
      exact counts_step (.skip r nowSec hconsumer hview) (h.main shot fps mbps position hmain)
    | count r nowSec v hconsumer hview =>
      exact counts_step (.count r nowSec v hconsumer hview) (h.main shot fps mbps position hmain)
    | _ => exact h.main shot fps mbps position hmain
  · rcases mem_shown heffect he with he | ⟨_, _, _, -, he⟩ | ⟨shot', _, _, _, hmain, he⟩
    · exact counts_step heffect (h.shown shot fps mbps position he)
    · cases he
    · cases he
      exact counts_step heffect (h.main shot fps mbps position hmain)

/-! ## The browsers -/

/-- A connection has got the head and every broadcast behind it. -/
def StreamInv (s : Observation) : Prop :=
  ∀ c since bytes, s.clients c = .streaming since bytes → since ≤ s.shown.length ∧
    bytes = kSseHead ++ (s.shown.drop since).flatMap Event.msg

theorem msg_eq (e : Event) : e.msg = EventStream.message (e.name, e.json) := by
  have hevent : utf8 "event: " =
      EventStream.typeField ++ [EventStream.colon, EventStream.space] := by decide
  have hdata : utf8 "\ndata: " = [EventStream.lineFeed] ++ EventStream.dataField ++
      [EventStream.colon, EventStream.space] := by decide
  have hend : utf8 "\n\n" = [EventStream.lineFeed, EventStream.lineFeed] := by decide
  rw [Event.msg, hevent, hdata, hend]
  simp [EventStream.message, EventStream.body]

/-- The head is found where it ends. -/
theorem findSub_kSseHead (rest : Bytes) :
    findSub headEnd (kSseHead ++ rest) = some (kSseHead.length - headEnd.length) := by
  have hhead : findSub headEnd kSseHead = some (kSseHead.length - headEnd.length) := by
    decide +kernel
  exact (findSub_append_iff.mp hhead).1

theorem browserEvents_head (rest : Bytes) :
    browserEvents (kSseHead ++ rest) = some (EventStream.events rest) := by
  have hlen : kSseHead.length - headEnd.length + headEnd.length = kSseHead.length := by
    decide +kernel
  rw [browserEvents, findSub_kSseHead, Option.map_some, hlen, List.drop_left]

/-- A part of the head is none. -/
theorem browserEvents_take {n : ℕ} (hn : n < kSseHead.length) :
    browserEvents (kSseHead.take n) = none := by
  have hfull := findSub_kSseHead []
  rw [List.append_nil] at hfull
  have hnone : findSub headEnd (kSseHead.take n) = none := by
    refine Option.eq_none_iff_forall_ne_some.mpr fun i hi => ?_
    have hle := findSub_length_le hi
    have happend := (findSub_append_iff (r := kSseHead.drop n)).mp hi
    rw [List.take_append_drop, hfull] at happend
    have hi := Option.some.inj happend.1
    rw [List.length_take, Nat.min_eq_left hn.le] at hle
    omega
  rw [browserEvents, hnone]
  rfl

/-- The buffers hold the texts. -/
theorem json_eq (e : Event) : e.json = e.format := by
  cases e with
  | frame v r time => exact snprintf_of_lt (length_frameText v r.offset)
  | stats shot fps mbps position => exact snprintf_of_lt (length_statsText shot fps mbps)

theorem plain_name (e : Event) : EventStream.Plain e.name := by
  cases e with
  | frame => exact (by decide : EventStream.Plain (utf8 "frame"))
  | stats => exact (by decide : EventStream.Plain (utf8 "stats"))

theorem plain_json (e : Event) : EventStream.Plain e.json :=
  json_eq e ▸ plain_format e

theorem lines_of_events (es : List Event) : ∀ f ∈ es.map fun e => (e.name, e.json),
    f.1 ≠ [] ∧ EventStream.Plain f.1 ∧ EventStream.Plain f.2 := by
  intro f hf
  obtain ⟨e, -, rfl⟩ := List.mem_map.mp hf
  have hname : e.name ≠ [] := by
    cases e with
    | frame => exact (by decide : utf8 "frame" ≠ [])
    | stats => exact (by decide : utf8 "stats" ≠ [])
  exact ⟨hname, plain_name e, plain_json e⟩

theorem flatMap_msg (es : List Event) :
    es.flatMap Event.msg = (es.map fun e => (e.name, e.json)).flatMap EventStream.message := by
  rw [List.flatMap_map]
  exact List.flatMap_congr fun e _ => msg_eq e

/-- A broadcast goes to every connection that it is sent to. -/
theorem StreamInv.broadcast (h : StreamInv s) {e : Event} {sent : ℕ → Option ℕ}
    (hwhole : ∀ c since bytes n, s.clients c = .streaming since bytes → sent c = some n →
      e.msg.length ≤ n) : StreamInv (s.broadcast e sent) := by
  intro c since bytes hclient
  have hclient : (s.clients c).sendTo e.msg (sent c) = .streaming since bytes := hclient
  cases hold : s.clients c with
  | absent =>
    rw [hold] at hclient
    cases hclient
  | gone =>
    rw [hold] at hclient
    cases hclient
  | streaming since' bytes' =>
    rw [hold] at hclient
    cases hsent : sent c with
    | none =>
      rw [hsent] at hclient
      cases hclient
    | some n =>
      rw [hsent] at hclient
      obtain ⟨rfl, rfl⟩ := Client.streaming.inj hclient
      obtain ⟨hsince, hbytes⟩ := h c _ _ hold
      refine ⟨hsince.trans (by simp [Observation.broadcast]), ?_⟩
      show bytes' ++ e.msg.take n = kSseHead ++ ((s.shown ++ [e]).drop since').flatMap Event.msg
      rw [List.take_of_length_le (hwhole c _ _ n hold hsent),
        List.drop_append_of_le_length hsince, List.flatMap_append, List.flatMap_singleton,
        ← List.append_assoc, ← hbytes]

/-- A connection begins or ends. -/
theorem StreamInv.update (h : StreamInv s) (c : ℕ) {client : Client}
    (hclient : ∀ since bytes, client = .streaming since bytes → since ≤ s.shown.length ∧
      bytes = kSseHead ++ (s.shown.drop since).flatMap Event.msg) :
    StreamInv { s with clients := Function.update s.clients c client } := by
  intro d since bytes hd
  have hd : Function.update s.clients c client d = .streaming since bytes := hd
  rcases eq_or_ne d c with rfl | hne
  · rw [Function.update_self] at hd
    exact hclient since bytes hd
  · rw [Function.update_of_ne hne] at hd
    exact h d since bytes hd

theorem StreamInv.step (h : StreamInv s) (heffect : ObsEffect s a t) (hwhole : SendsWhole s a) :
    StreamInv t := by
  cases heffect with
  | pushFrame sent v r time hconsumer => exact h.broadcast (hwhole v r time hconsumer)
  | pushStats sent shot fps mbps position hmain =>
    exact h.broadcast (hwhole shot fps mbps position hmain)
  | connect c n =>
    refine h.update c fun since bytes hclient => ?_
    cases hclient
    refine ⟨le_rfl, ?_⟩
    rw [List.take_of_length_le (hwhole n rfl), List.drop_length]
    exact (List.append_nil _).symm
  | leave a c => exact h.update c (by rintro _ _ ⟨⟩)
  | _ => exact h

/-! ## The law holds -/

structure ObsInv (s : Observation) : Prop where
  topic : TopicInv s
  pace : PaceInv s
  counts : CountInv s
  streams : StreamInv s

theorem obsInv_init (clock : ℕ) : ObsInv (Observation.init clock) where
  topic := ⟨⟨[], List.Sublist.refl _, List.Forall₂.nil⟩, List.Sublist.refl _⟩
  pace := ⟨List.Pairwise.nil, fun _ h => (List.not_mem_nil h).elim, Nat.zero_le _,
    by rintro _ _ _ ⟨⟩⟩
  counts := ⟨tallies_init, by rintro _ _ _ _ ⟨⟩, fun _ _ _ _ h => (List.not_mem_nil h).elim⟩
  streams := by rintro c since bytes ⟨⟩

/-- **Step lemma.** -/
theorem ObsInv.step (h : ObsInv s) (hstep : obsStep s a = some t) (hwhole : SendsWhole s a) :
    ObsInv t where
  topic := h.topic.step (effect_of_obsStep hstep)
  pace := h.pace.step (effect_of_obsStep hstep)
  counts := h.counts.step (effect_of_obsStep hstep)
  streams := h.streams.step (effect_of_obsStep hstep) hwhole

/-- A broadcast that is sent in part does not get to the browser. -/
theorem StreamInv.whole_of_law (h : StreamInv s) {e : Event} {sent : ℕ → Option ℕ}
    (hlaw : ∀ c since bytes, (s.broadcast e sent).clients c = .streaming since bytes →
      browserEvents bytes = some (((s.shown ++ [e]).drop since).map fun e => (e.name, e.format)))
    (c since : ℕ) (bytes : Bytes) (n : ℕ) (hclient : s.clients c = .streaming since bytes)
    (hsent : sent c = some n) : e.msg.length ≤ n := by
  obtain ⟨hsince, hbytes⟩ := h c since bytes hclient
  refine Nat.le_of_not_lt fun hshort => ?_
  have hstream : (s.broadcast e sent).clients c = .streaming since (bytes ++ e.msg.take n) := by
    show (s.clients c).sendTo e.msg (sent c) = _
    rw [hclient, hsent]
    rfl
  have hread := hlaw c since _ hstream
  rw [msg_eq] at hshort hread
  rw [hbytes, List.append_assoc, browserEvents_head, flatMap_msg,
    EventStream.events_take (lines_of_events _) (plain_name e) (plain_json e) hshort,
    List.drop_append_of_le_length hsince] at hread
  have hlength := congrArg List.length (Option.some.inj hread)
  simp at hlength

theorem sendsWhole_of_law (h : ObsInv s) (hstep : obsStep s a = some t) (hlaw : ObservationLaw t) :
    SendsWhole s a := by
  cases effect_of_obsStep hstep with
  | pushFrame sent v r time hconsumer =>
    intro v' r' time' hsame
    cases hconsumer.symm.trans hsame
    exact h.streams.whole_of_law hlaw.browsers
  | pushStats sent shot fps mbps position hmain =>
    intro shot' fps' mbps' position' hsame
    cases hmain.symm.trans hsame
    exact h.streams.whole_of_law hlaw.browsers
  | connect c n hclient =>
    intro m hm
    cases hm
    refine Nat.le_of_not_lt fun hshort => ?_
    have hread := hlaw.browsers c s.shown.length (kSseHead.take n) (Function.update_self ..)
    rw [browserEvents_take hshort] at hread
    cases hread
  | leave a c ha =>
    rcases ha with rfl | rfl
    · intro n hn
      cases hn
    · trivial
  | _ => trivial

theorem carries_of_onDtsReport {data : Bytes} {m : Message} (h : onDtsReport data = some m) :
    m.Carries data := by
  unfold onDtsReport at h
  split at h
  · cases h
  · cases h
    have hseq (n : UInt32) : snprintf 16 (decimal n.toNat) = decimal n.toNat :=
      snprintf_of_lt ((length_decimal_u32 n).trans_lt (by decide))
    have htime (n : UInt64) : snprintf 24 (decimal n.toNat) = decimal n.toNat :=
      snprintf_of_lt ((length_decimal_u64 n).trans_lt (by decide))
    exact ⟨_, rfl, rfl, rfl, by rw [hseq, htime]⟩

theorem TopicInv.shown_records (h : TopicInv s) :
    (s.shown.filterMap Event.report).Sublist (s.records.filterMap Record.report) :=
  (List.sublist_append_left _ _).trans h.shown

theorem TopicInv.carries (h : TopicInv s) :
    ∃ frames, frames.Sublist s.received ∧ List.Forall₂ Message.Carries s.produced frames := by
  obtain ⟨frames, hframes, hall⟩ := h.produced
  exact ⟨frames, hframes, hall.imp fun _ _ => carries_of_onDtsReport⟩

/-- A frame event shows its record. -/
theorem TopicInv.view_of_shown (h : TopicInv s) {v : ReportView} {r : Record}
    (hshown : (v, r) ∈ s.shown.filterMap Event.report) :
    r ∈ s.records ∧ r.message.view = some v := by
  obtain ⟨q, hq, hreport⟩ := List.mem_filterMap.mp (h.shown_records.subset hshown)
  obtain ⟨w, hview, hpair⟩ := Option.map_eq_some_iff.mp hreport
  obtain ⟨rfl, rfl⟩ := Prod.mk.inj hpair
  exact ⟨hq, hview⟩

theorem parseReport_of_view {m : Message} {data : Bytes} {v : ReportView}
    (hview : m.view = some v) (hvalue : m.value = some data) :
    parseReport (some data) (UInt32.ofNat data.length) {} = (true, v) := by
  unfold Message.view at hview
  rw [hvalue] at hview
  split at hview
  · rename_i w hparse
    cases hview
    exact hparse
  · cases hview

theorem TopicInv.own (h : TopicInv s) (hkafka : Kafka s.produced s.records) {v : ReportView}
    {r : Record} (hshown : (v, r) ∈ s.shown.filterMap Event.report) (hown : r.own = true) :
    ∃ data ∈ s.received, r.message.Carries data ∧
      parseReport (some data) (UInt32.ofNat data.length) {} = (true, v) := by
  obtain ⟨hmem, hview⟩ := h.view_of_shown hshown
  obtain ⟨frames, hframes, hall⟩ := h.carries
  obtain ⟨i, hi, hget⟩ := List.getElem_of_mem (hkafka.own r hmem hown)
  have hlt : i < frames.length := hall.length_eq ▸ hi
  have hcarries : r.message.Carries frames[i] := hget ▸ hall.get hi hlt
  obtain ⟨w, -, hvalue, -, -⟩ := id hcarries
  exact ⟨frames[i], hframes.subset (List.getElem_mem hlt), hcarries,
    parseReport_of_view hview hvalue⟩

/-- The events have the order of the records. -/
theorem TopicInv.pairwise_of_ordered (h : TopicInv s) {p : Record → Record → Prop}
    (hordered : s.records.Pairwise p) :
    (s.shown.filterMap Event.report).Pairwise fun a b => p a.2 b.2 := by
  refine List.Pairwise.sublist h.shown_records (List.pairwise_filterMap.mpr (hordered.imp ?_))
  intro q r hqr a ha b hb
  obtain ⟨v, -, rfl⟩ := Option.map_eq_some_iff.mp ha
  obtain ⟨w, -, rfl⟩ := Option.map_eq_some_iff.mp hb
  exact hqr

theorem ObsInv.law (h : ObsInv s) : ObservationLaw s where
  browsers := by
    intro c since bytes hclient
    obtain ⟨-, rfl⟩ := h.streams c since bytes hclient
    rw [browserEvents_head, flatMap_msg, EventStream.events_messages (lines_of_events _)]
    refine congrArg some (List.map_congr_left fun e he => ?_)
    rw [json_eq e]
  shown := h.topic.shown_records
  paced := h.pace.shown
  produced := h.topic.carries
  own := fun hkafka v r hshown hown => h.topic.own hkafka hshown hown
  distinct := fun hkafka => (h.topic.pairwise_of_ordered hkafka.ordered)
  counted := h.counts.shown

/--
**From a report to the browser.** In every interleaving of the threads of the web server, with any
answers of librdkafka, a browser gets every broadcast since it has connected, the `frame` events
show records in their order, none twice or within 100 ms, what came in over DDS if this process has
put it into the topic, and the statistics count the reports got so far, exactly when `send` never
sends a part of a text.
-/
theorem observationLaw_iff (clock : ℕ) (run : List ObsAction) :
    AllStates obsStep ObservationLaw (Observation.init clock) run ↔
      AllSteps obsStep SendsWhole (Observation.init clock) run :=
  allStates_iff_allSteps ObsInv (fun _ h => h.law) (fun _ _ _ h hstep hwhole => h.step hstep hwhole)
    (fun _ _ _ h hstep hlaw => sendsWhole_of_law h hstep hlaw) run _ (obsInv_init clock)

end Dts.Web
