import Dts.Data.Aggregator

/-!
# Report parsing on the web side

`report_frame.h`. `parseReport` reads the header of a report and walks its sub-headers; it does
not look into the slices. The walk stops at the end of the body, at a slice that reaches past it,
or after 1000 slices.

`report_roundtrip` is the agreement with `ReportAggregator`: what `flush` publishes is parsed back
to the values and the records that went in.
-/

namespace Dts.Web

open Infra Data

/-- What the web server keeps of a report. -/
structure ReportView where
  taskId : UInt32 := 0
  timestampMs : UInt64 := 0
  seq : UInt32 := 0
  payloadLen : UInt32 := 0
  sliceCount : UInt16 := 0
  dataIdMin : UInt16 := 0
  dataIdMax : UInt16 := 0
  frameLen : UInt32 := 0
  deriving DecidableEq

/-- The variables of the walk over the body. -/
structure Walk where
  pos : UInt32
  minId : UInt16
  maxId : UInt16
  sliceCount : UInt16

/-- Replace the running minimum / maximum by an id that is beyond it. -/
def lower (minId id : UInt16) : UInt16 := if id < minId then id else minId

/-- The larger of two dataIds. -/
def raise (maxId id : UInt16) : UInt16 := if maxId < id then id else maxId

/-- One slice further. -/
def Walk.next (w : Walk) (sub : SubHeader) : Walk where
  pos := w.pos + UInt32.ofNat (sizeofSubHeader + sub.len.toNat)
  minId := lower w.minId sub.dataId
  maxId := raise w.maxId sub.dataId
  sliceCount := w.sliceCount + 1

/-- A round leaves fewer rounds. -/
theorem Walk.left_lt (w : Walk) (h : w.sliceCount < 1000) (sub : SubHeader) :
    1000 - (w.next sub).sliceCount.toNat < 1000 - w.sliceCount.toNat := by
  have hlt : w.sliceCount.toNat < 1000 := UInt16.lt_iff_toNat_lt.mp h
  have hnext : (w.sliceCount + 1).toNat = w.sliceCount.toNat + 1 := by
    rw [UInt16.toNat_add]
    exact Nat.mod_eq_of_lt (by simp; omega)
  simp only [Walk.next, hnext]
  omega

/-- The loop. The comparisons are in `size_t` and do not wrap; `pos` is 32 bits. -/
def walk (data : Bytes) (body : UInt32) (w : Walk) : Walk :=
  if _h : w.pos.toNat + sizeofSubHeader ≤ body.toNat ∧ w.sliceCount < 1000 then
    let sub := SubHeader.read data (sizeofReportHeader + w.pos.toNat)
    if body.toNat < w.pos.toNat + sizeofSubHeader + sub.len.toNat then w
    else walk data body (w.next sub)
  else w
termination_by 1000 - w.sliceCount.toNat
decreasing_by exact w.left_lt _h.2 _

/-- `ParseReport`; `out` is what the caller has in its variable. -/
def parseReport (data : Option Bytes) (len : UInt32) (out : ReportView) : Bool × ReportView :=
  match data with
  | none => (false, out)
  | some data =>
    if len.toNat < sizeofReportHeader then (false, out)
    else
      let hdr := ReportHeader.read data
      let body := len - UInt32.ofNat sizeofReportHeader
      let w := walk data body ⟨0, 0xFFFF, 0, out.sliceCount⟩
      (true, { taskId := hdr.taskId
               timestampMs := hdr.timestampMs
               seq := hdr.seq
               payloadLen := hdr.payloadLen
               sliceCount := w.sliceCount
               dataIdMin := if 0 < w.sliceCount then w.minId else 0
               dataIdMax := w.maxId
               frameLen := len })

/-! ## The walk over encoded records -/

/-- One record is one round of the loop. -/
theorem walk_record {r : Record} {recs : List Record} {pre : Bytes} {body : UInt32} {w : Walk}
    (hpre : pre.length = sizeofReportHeader + w.pos.toNat) (hr : r.data.length < 2 ^ 16)
    (hbody : body.toNat = w.pos.toNat + (encode (r :: recs)).length)
    (hcount : w.sliceCount.toNat < 1000) :
    walk (pre ++ encode (r :: recs)) body w = walk (pre ++ encode (r :: recs)) body
      (w.next ⟨r.dataId, UInt16.ofNat r.data.length⟩) := by
  have hread : SubHeader.read (pre ++ encode (r :: recs)) (sizeofReportHeader + w.pos.toNat)
      = ⟨r.dataId, UInt16.ofNat r.data.length⟩ := by
    rw [← hpre, encode_cons, Record.bytes, List.append_assoc]
    exact SubHeader.read_bytes _ _ _
  have hlen : (UInt16.ofNat r.data.length).toNat = r.data.length := by
    rw [UInt16.toNat_ofNat', Nat.mod_eq_of_lt hr]
  rw [encode_cons, List.length_append, Record.length_bytes] at hbody
  rw [walk, dif_pos ⟨by omega, UInt16.lt_iff_toNat_lt.mpr hcount⟩, hread]
  simp only [hlen]
  rw [if_neg (by omega)]

/-- The walk reads every record. -/
theorem walk_encode {body : UInt32} : ∀ (recs : List Record) (pre : Bytes) (w : Walk),
    pre.length = sizeofReportHeader + w.pos.toNat → (∀ r ∈ recs, r.data.length < 2 ^ 16) →
    body.toNat = w.pos.toNat + (encode recs).length → w.sliceCount.toNat + recs.length ≤ 1000 →
    walk (pre ++ encode recs) body w =
      ⟨body, (recs.map Record.dataId).foldl lower w.minId,
        (recs.map Record.dataId).foldl raise w.maxId, w.sliceCount + UInt16.ofNat recs.length⟩
  | [], pre, w, _, _, hbody, _ => by
    have hpos : w.pos = body := UInt32.toNat_inj.mp (by simpa using hbody.symm)
    rw [walk, dif_neg (by rw [hpos, sizeofSubHeader]; omega), ← hpos]
    simp
  | r :: recs, pre, w, hpre, hlens, hbody, hcount => by
    have hr := hlens r List.mem_cons_self
    rw [List.length_cons] at hcount
    have hfull := hbody
    rw [encode_cons, List.length_append, Record.length_bytes] at hbody
    have hlen : (UInt16.ofNat r.data.length).toNat = r.data.length := by
      rw [UInt16.toNat_ofNat', Nat.mod_eq_of_lt hr]
    -- neither the position nor the count wraps within the body
    have hpos : (w.next ⟨r.dataId, UInt16.ofNat r.data.length⟩).pos.toNat
        = w.pos.toNat + (sizeofSubHeader + r.data.length) := by
      have := body.toNat_lt
      simp only [Walk.next, hlen, UInt32.toNat_add, UInt32.toNat_ofNat']
      omega
    have hone : (w.sliceCount + 1).toNat = w.sliceCount.toNat + 1 := by
      rw [UInt16.toNat_add]
      exact Nat.mod_eq_of_lt (by simp; omega)
    rw [walk_record hpre hr hfull (by omega), encode_cons, ← List.append_assoc]
    rw [walk_encode recs (pre ++ r.bytes) _ (by simp [hpos, hpre]; omega)
      (fun x hx => hlens x (List.mem_cons_of_mem _ hx)) (by rw [hpos]; omega)
      (by simp only [Walk.next, hone]; omega)]
    have hsum : w.sliceCount + 1 + UInt16.ofNat recs.length
        = w.sliceCount + UInt16.ofNat (recs.length + 1) := by
      rw [UInt16.add_assoc, UInt16.add_comm 1, UInt16.ofNat_add]
      rfl
    simp only [Walk.next, List.map_cons, List.foldl_cons, List.length_cons, hsum]

/-! ## Minimum and maximum -/

/-- Keep the element with the smaller key. -/
def pick {α : Type*} (key : α → Nat) (m a : α) : α := if key a < key m then a else m

/-- Folding `pick` ends in an element whose key is least. -/
theorem foldl_pick {α : Type*} (key : α → Nat) : ∀ (l : List α) (m : α),
    (l.foldl (pick key) m = m ∨ l.foldl (pick key) m ∈ l) ∧
      key (l.foldl (pick key) m) ≤ key m ∧ ∀ a ∈ l, key (l.foldl (pick key) m) ≤ key a
  | [], m => ⟨Or.inl rfl, le_refl _, by simp⟩
  | b :: l, m => by
    obtain ⟨hmem, hle, hall⟩ := foldl_pick key l (pick key m b)
    have hpick : (pick key m b = m ∨ pick key m b = b) ∧ key (pick key m b) ≤ key m ∧
        key (pick key m b) ≤ key b := by
      unfold pick
      split
      · exact ⟨Or.inr rfl, by omega, le_refl _⟩
      · exact ⟨Or.inl rfl, le_refl _, by omega⟩
    rw [List.foldl_cons]
    refine ⟨?_, hle.trans hpick.2.1, fun a ha => ?_⟩
    · rcases hmem with hmem | hmem
      · rcases hpick.1 with h | h
        · exact Or.inl (hmem.trans h)
        · exact Or.inr (by rw [hmem, h]; exact List.mem_cons_self)
      · exact Or.inr (List.mem_cons_of_mem _ hmem)
    · rcases List.mem_cons.mp ha with rfl | ha
      · exact hle.trans hpick.2.2
      · exact hall a ha

theorem lower_eq_pick : lower = pick UInt16.toNat := by
  funext m id
  simp only [lower, pick, UInt16.lt_iff_toNat_lt]

theorem raise_eq_pick : raise = pick fun id => 65535 - id.toNat := by
  funext m id
  have hm := m.toNat_lt
  have hid := id.toNat_lt
  simp only [raise, pick, UInt16.lt_iff_toNat_lt]
  congr 1
  exact propext ⟨fun _ => by omega, fun _ => by omega⟩

/-- The least id, for a non-empty list. -/
theorem foldl_lower {l : List UInt16} (h : l ≠ []) :
    l.foldl lower 0xFFFF ∈ l ∧ ∀ id ∈ l, l.foldl lower 0xFFFF ≤ id := by
  obtain ⟨hmem, -, hall⟩ := foldl_pick UInt16.toNat l 0xFFFF
  rw [← lower_eq_pick] at hmem hall
  refine ⟨?_, fun id hid => UInt16.le_iff_toNat_le.mpr (hall id hid)⟩
  rcases hmem with hmem | hmem
  -- the start value is the result only when it is in the list
  · obtain ⟨id, hid⟩ := List.exists_mem_of_ne_nil l h
    have hle := hall id hid
    have hlt := id.toNat_lt
    rw [hmem] at hle ⊢
    rwa [show (0xFFFF : UInt16) = id from
      UInt16.toNat_inj.mp (by simp only [UInt16.reduceToNat] at hle ⊢; omega)]
  · exact hmem

/-- The greatest id, for a non-empty list. -/
theorem foldl_raise {l : List UInt16} (h : l ≠ []) :
    l.foldl raise 0 ∈ l ∧ ∀ id ∈ l, id ≤ l.foldl raise 0 := by
  obtain ⟨hmem, -, hall⟩ := foldl_pick (fun id : UInt16 => 65535 - id.toNat) l 0
  rw [← raise_eq_pick] at hmem hall
  refine ⟨?_, fun id hid => ?_⟩
  · rcases hmem with hmem | hmem
    · obtain ⟨id, hid⟩ := List.exists_mem_of_ne_nil l h
      have hle := hall id hid
      have hlt := id.toNat_lt
      rw [hmem] at hle ⊢
      rwa [show (0 : UInt16) = id from
        UInt16.toNat_inj.mp (by simp only [UInt16.toNat_zero] at hle ⊢; omega)]
    · exact hmem
  · have hle := hall id hid
    have hlt := id.toNat_lt
    rw [UInt16.le_iff_toNat_le]
    omega

/-! ## The round trip -/

/-- The view describes a frame of `recs` with these header values. -/
structure Describes (view : ReportView) (taskId : UInt32) (timestampMs : UInt64) (seq : UInt32)
    (frame : Bytes) (recs : List Record) : Prop where
  taskId : view.taskId = taskId
  timestampMs : view.timestampMs = timestampMs
  seq : view.seq = seq
  payloadLen : view.payloadLen.toNat = frame.length - sizeofReportHeader
  frameLen : view.frameLen.toNat = frame.length
  sliceCount : view.sliceCount.toNat = recs.length
  dataIdMin : view.dataIdMin ∈ recs.map Record.dataId ∧
    ∀ id ∈ recs.map Record.dataId, view.dataIdMin ≤ id
  dataIdMax : view.dataIdMax ∈ recs.map Record.dataId ∧
    ∀ id ∈ recs.map Record.dataId, id ≤ view.dataIdMax

/-- Parsing a header followed by between 1 and 1000 encoded records. -/
theorem parseReport_encode {h : ReportHeader} {padding : Bytes} {recs : List Record}
    (hpad : padding.length = 4) (hpay : h.payloadLen = UInt32.ofNat (encode recs).length)
    (hcap : sizeofReportHeader + (encode recs).length ≤ kCap) (hne : recs ≠ [])
    (hcount : recs.length ≤ 1000) :
    ∃ view, parseReport (some (h.bytes padding ++ encode recs))
        (UInt32.ofNat (h.bytes padding ++ encode recs).length) {} = (true, view) ∧
      Describes view h.taskId h.timestampMs h.seq (h.bytes padding ++ encode recs) recs := by
  have hlen := h.length_bytes hpad
  have hread := h.read_bytes hpad (encode recs)
  generalize h.bytes padding = hdr at hlen hread ⊢
  have hpos := List.length_pos_of_ne_nil hne
  unfold kCap sizeofReportHeader at hcap
  have hframe : (UInt32.ofNat (hdr ++ encode recs).length).toNat = 24 + (encode recs).length := by
    rw [List.length_append, hlen, UInt32.toNat_ofNat', sizeofReportHeader]
    omega
  have hbody : UInt32.ofNat (hdr ++ encode recs).length - UInt32.ofNat sizeofReportHeader
      = UInt32.ofNat (encode recs).length := by
    have h24 : (UInt32.ofNat sizeofReportHeader).toNat = 24 := rfl
    rw [← UInt32.toNat_inj, UInt32.toNat_sub_of_le _ _ (by
      rw [UInt32.le_iff_toNat_le, hframe, h24]; omega), hframe, h24, UInt32.toNat_ofNat']
    omega
  have hsmall : ∀ r ∈ recs, r.data.length < 2 ^ 16 := by
    intro r hr
    have hle := length_data_le hr
    omega
  have hwalk := @walk_encode (UInt32.ofNat (encode recs).length) recs hdr ⟨0, 0xFFFF, 0, 0⟩
    (by simpa using hlen) hsmall (by rw [UInt32.toNat_ofNat']; simp; omega) (by simpa using hcount)
  have hids : recs.map Record.dataId ≠ [] := by simpa using hne
  have hslices : (UInt16.ofNat recs.length).toNat = recs.length := by
    rw [UInt16.toNat_ofNat']
    omega
  refine ⟨_, by rw [parseReport, if_neg (by rw [hframe, sizeofReportHeader]; omega)], ?_⟩
  simp only [hread, hbody, hwalk, UInt16.zero_add]
  refine ⟨rfl, rfl, rfl, ?_, ?_, hslices, ?_, foldl_raise hids⟩
  · rw [hpay, UInt32.toNat_ofNat', List.length_append, hlen]
    omega
  · rw [hframe, List.length_append, hlen, sizeofReportHeader]
  · rw [if_pos (by rw [UInt16.lt_iff_toNat_lt, hslices]; exact hpos)]
    exact foldl_lower hids

/-- What one `add` does: the slice is appended whole, or counted when it exceeds the room left. -/
def AddLaw (mem : Mem) (a : ReportAggregator) (c : AddCall) : Prop :=
  if kCap - a.used.toNat < sizeofSubHeader + c.len.toNat then
    a.addCall mem c = { a with drops := a.drops + 1 }
  else (a.addCall mem c).drops = a.drops ∧
    (a.addCall mem c).used.toNat = a.used.toNat + sizeofSubHeader + c.len.toNat ∧
    (a.addCall mem c).buf.load sizeofReportHeader
        ((a.addCall mem c).used.toNat - sizeofReportHeader)
      = a.buf.load sizeofReportHeader (a.used.toNat - sizeofReportHeader) ++ (c.record mem).bytes

theorem addLaw_of_collected {mem : Mem} {a : ReportAggregator} {recs : List Record}
    (h : Collected a recs) (c : AddCall) : AddLaw mem a c := by
  have hcap := h.cap
  unfold AddLaw
  split
  · exact add_of_full (by omega) mem c.dataId _
  · have hfit : a.used.toNat + sizeofSubHeader + c.len.toNat ≤ kCap := by omega
    have hadd : Collected (a.addCall mem c) (recs ++ [c.record mem]) :=
      h.add hfit mem c.dataId c.cache
    have h0 := h.used
    have h1 := hadd.used
    have hrec : (c.record mem).data.length = c.len.toNat := Mem.length_load _ _ _
    have henc : encode (recs ++ [c.record mem]) = encode recs ++ (c.record mem).bytes := by
      rw [encode_append, encode_cons, encode_nil, List.append_nil]
    have hlen := congrArg List.length henc
    rw [List.length_append, Record.length_bytes, hrec] at hlen
    refine ⟨?_, by omega, ?_⟩
    · simp only [ReportAggregator.addCall]
      rw [add_of_fits hfit]
    · rw [h1, h0, Nat.add_sub_cancel_left, Nat.add_sub_cancel_left, hadd.body, h.body, henc]

/--
**Encoder and decoder agree.** Every `add` of a frame obeys `AddLaw`, and the frame that `flush`
publishes is parsed back to its header values and the accepted records.
-/
theorem report_roundtrip (a : ReportAggregator) (hsink : a.sink = true) (mem : Mem)
    (taskId : UInt32) (timestampMs : UInt64) (seq : UInt32) (calls : List AddCall)
    (hmin : 1 ≤ (accepted mem sizeofReportHeader calls).length)
    (hmax : (accepted mem sizeofReportHeader calls).length ≤ 1000) :
    (∀ pre c post, calls = pre ++ c :: post →
      AddLaw mem (pre.foldl (ReportAggregator.addCall mem) (a.beginFrame taskId)) c) ∧
    ∃ frame view,
      ((calls.foldl (ReportAggregator.addCall mem) (a.beginFrame taskId)).flush
        timestampMs seq).1 = some frame ∧
      frame.length ≤ kCap ∧
      parseReport (some frame) (UInt32.ofNat frame.length) {} = (true, view) ∧
      Describes view taskId timestampMs seq frame (accepted mem sizeofReportHeader calls) := by
  have hbegin := Collected.beginFrame a taskId
  refine ⟨fun pre c post _ => addLaw_of_collected (hbegin.foldl_add mem pre) c, ?_⟩
  have hall := hbegin.foldl_add mem calls
  rw [List.nil_append, show (a.beginFrame taskId).used.toNat = sizeofReportHeader from rfl] at hall
  obtain ⟨hs, ht⟩ := foldl_addCall_sink mem calls (a.beginFrame taskId)
  -- what `flush` and the parser see is the buffer that the calls leave
  generalize calls.foldl (ReportAggregator.addCall mem) (a.beginFrame taskId) = b at hall hs ht ⊢
  generalize accepted mem sizeofReportHeader calls = recs at hall hmin hmax ⊢
  have hne := List.ne_nil_of_length_pos hmin
  have hcap := hall.cap
  rw [hall.used] at hcap
  obtain ⟨buf, hflush, -⟩ := hall.flush (hs.trans hsink) hne timestampMs seq
  rw [ht] at hflush
  obtain ⟨view, hparse, hview⟩ := parseReport_encode
    (h := ⟨taskId, timestampMs, seq, UInt32.ofNat (encode recs).length⟩)
    (Mem.length_load b.buf 4 4) rfl hcap hne hmax
  refine ⟨_, view, congrArg Prod.fst hflush, ?_, hparse, hview⟩
  rw [List.length_append, ReportHeader.length_bytes _ (Mem.length_load _ 4 4)]
  exact hcap

/-- Two slices, out of id order. -/
theorem report_roundtrip_two :
    ∃ frame view,
      (([⟨5, 0, 2⟩, ⟨3, 10, 1⟩].foldl (ReportAggregator.addCall fun _ => 0xAB)
        (ReportAggregator.beginFrame ⟨true, 0, 0, 0, fun _ => 0⟩ 7)).flush 100 1).1 = some frame ∧
      frame.length ≤ kCap ∧
      parseReport (some frame) (UInt32.ofNat frame.length) {} = (true, view) ∧
      Describes view 7 100 1 frame [⟨5, [0xAB, 0xAB]⟩, ⟨3, [0xAB]⟩] :=
  (report_roundtrip ⟨true, 0, 0, 0, fun _ => 0⟩ rfl (fun _ => 0xAB) 7 100 1
    [⟨5, 0, 2⟩, ⟨3, 10, 1⟩] (by decide) (by decide)).2

end Dts.Web
