import Dts.Web.ReportFrame

/-!
# Report parsing of arbitrary bytes

Frames come back from the message broker, where anything may be stored. `walk_scan` says what the
loop of `ParseReport` does with any body: it counts the longest run of complete records at its
start, up to 1000 of them.

* `parseChecked` is `ParseReport` with every memory access and every arithmetic operation checked;
  `parseReport_safe` says that no check ever fails
* `parseReport_exact_iff` says for which strings the answer is the one that the comment at
  `ParseReport` promises
-/

namespace Dts.Web

open Infra Data

/-! ## Records at the start of a byte string -/

theorem leBytes_leNat (bs : Bytes) : leBytes bs.length (leNat bs) = bs := by
  refine leNat_injective (by simp) ?_
  rw [leNat_leBytes, Nat.mod_eq_of_lt (leNat_lt bs)]

/-- Encoding a sub-header that was read gives the bytes it was read from. -/
theorem bytes_read_subHeader {bs : Bytes} {off : ℕ} (h : off + sizeofSubHeader ≤ bs.length) :
    (SubHeader.read bs off).bytes = slice bs off sizeofSubHeader := by
  unfold sizeofSubHeader at h ⊢
  have hfield : ∀ o, o + 2 ≤ bs.length →
      leBytes 2 (UInt16.ofNat (leNat (slice bs o 2))).toNat = slice bs o 2 := by
    intro o ho
    have hlen := length_slice ho
    have hlt := leNat_lt (slice bs o 2)
    rw [hlen] at hlt
    have hnum : (UInt16.ofNat (leNat (slice bs o 2))).toNat = leNat (slice bs o 2) := by
      rw [UInt16.toNat_ofNat']
      exact Nat.mod_eq_of_lt hlt
    rw [hnum]
    simpa only [hlen] using leBytes_leNat (slice bs o 2)
  rw [show (4 : ℕ) = 2 + 2 from rfl, slice_add, SubHeader.bytes]
  show leBytes 2 (UInt16.ofNat (leNat (slice bs off 2))).toNat ++
    leBytes 2 (UInt16.ofNat (leNat (slice bs (off + 2) 2))).toNat = _
  rw [hfield off (by omega), hfield (off + 2) (by omega)]

/-- A record lies at the start of `bs`. -/
def StartsWithRecord (bs : Bytes) : Prop :=
  ∃ (r : Record) (rest : Bytes), r.data.length < 2 ^ 16 ∧ bs = r.bytes ++ rest

/-- The test of the loop, in terms of the bytes ahead. -/
theorem startsWithRecord_iff (bs : Bytes) :
    StartsWithRecord bs ↔ sizeofSubHeader ≤ bs.length ∧
      sizeofSubHeader + (SubHeader.read bs 0).len.toNat ≤ bs.length := by
  constructor
  · rintro ⟨r, rest, hr, rfl⟩
    have hread : SubHeader.read (r.bytes ++ rest) 0 = ⟨r.dataId, UInt16.ofNat r.data.length⟩ := by
      have h := SubHeader.read_bytes ⟨r.dataId, UInt16.ofNat r.data.length⟩ [] (r.data ++ rest)
      rwa [List.nil_append, ← List.append_assoc] at h
    have hlen : (UInt16.ofNat r.data.length).toNat = r.data.length := by
      rw [UInt16.toNat_ofNat', Nat.mod_eq_of_lt hr]
    rw [hread, List.length_append, Record.length_bytes, hlen]
    omega
  · rintro ⟨hsub, hle⟩
    set sub := SubHeader.read bs 0 with hdef
    have hdata : (slice bs sizeofSubHeader sub.len.toNat).length = sub.len.toNat := length_slice hle
    refine ⟨⟨sub.dataId, slice bs sizeofSubHeader sub.len.toNat⟩,
      bs.drop (sizeofSubHeader + sub.len.toNat), ?_, ?_⟩
    · rw [hdata]
      exact sub.len.toNat_lt
    · have hhead : (SubHeader.mk sub.dataId (UInt16.ofNat sub.len.toNat)).bytes
          = slice bs 0 sizeofSubHeader := by
        rw [UInt16.ofNat_toNat, ← bytes_read_subHeader (by omega)]
      rw [Record.bytes, hdata, hhead]
      have hadd := slice_add bs 0 sizeofSubHeader sub.len.toNat
      rw [Nat.zero_add] at hadd
      rw [← hadd]
      exact (List.take_append_drop _ _).symm

/-! ## What the loop counts -/

/-- The walk stopped at `w'` after counting the records `recs`, with `rest` left. -/
structure Scanned (w : Walk) (ahead : Bytes) (w' : Walk) (recs : List Record) (rest : Bytes) :
    Prop where
  split : ahead = encode recs ++ rest
  small : ∀ r ∈ recs, r.data.length < 2 ^ 16
  pos : w'.pos.toNat = w.pos.toNat + (encode recs).length
  minId : w'.minId = (recs.map Record.dataId).foldl lower w.minId
  maxId : w'.maxId = (recs.map Record.dataId).foldl raise w.maxId
  count : w'.sliceCount.toNat = w.sliceCount.toNat + recs.length
  cap : w'.sliceCount.toNat ≤ 1000
  stop : w'.sliceCount = 1000 ∨ ¬StartsWithRecord rest

theorem Scanned.cons {w w' : Walk} {r : Record} {ahead : Bytes} {recs : List Record}
    {rest : Bytes} (hr : r.data.length < 2 ^ 16)
    (hpos : (w.next ⟨r.dataId, UInt16.ofNat r.data.length⟩).pos.toNat
      = w.pos.toNat + r.bytes.length)
    (hcount : (w.sliceCount + 1).toNat = w.sliceCount.toNat + 1)
    (h : Scanned (w.next ⟨r.dataId, UInt16.ofNat r.data.length⟩) ahead w' recs rest) :
    Scanned w (r.bytes ++ ahead) w' (r :: recs) rest where
  split := by rw [h.split, encode_cons, List.append_assoc]
  small := by
    intro x hx
    rcases List.mem_cons.mp hx with rfl | hx
    · exact hr
    · exact h.small x hx
  pos := by
    rw [h.pos, hpos, encode_cons, List.length_append]
    omega
  minId := h.minId
  maxId := h.maxId
  count := by
    rw [h.count, List.length_cons]
    show (w.sliceCount + 1).toNat + recs.length = _
    omega
  cap := h.cap
  stop := h.stop

theorem read_append (pre ahead : Bytes) :
    SubHeader.read (pre ++ ahead) pre.length = SubHeader.read ahead 0 := by
  rw [SubHeader.read, SubHeader.read, slice_append_right (le_refl _),
    slice_append_right (Nat.le_add_right _ _), Nat.sub_self, Nat.add_sub_cancel_left, Nat.zero_add]

/-- No record ahead: the loop ends or breaks. -/
theorem walk_of_not_startsWith {pre ahead : Bytes} {body : UInt32} {w : Walk}
    (hpre : pre.length = sizeofReportHeader + w.pos.toNat)
    (hbody : body.toNat = w.pos.toNat + ahead.length) (h : ¬StartsWithRecord ahead) :
    walk (pre ++ ahead) body w = w := by
  rw [startsWithRecord_iff] at h
  rw [walk]
  split
  · next hcond =>
    rw [← hpre, read_append]
    refine if_pos ?_
    have hsub : sizeofSubHeader ≤ ahead.length := by omega
    have hshort := fun hle => h ⟨hsub, hle⟩
    omega
  · rfl

/-- A record ahead is counted, as long as fewer than 1000 have been. -/
theorem walk_of_record {pre rest : Bytes} {body : UInt32} {w : Walk} {r : Record}
    (hpre : pre.length = sizeofReportHeader + w.pos.toNat)
    (hbody : body.toNat = w.pos.toNat + (r.bytes ++ rest).length)
    (hr : r.data.length < 2 ^ 16) (hcount : w.sliceCount.toNat < 1000) :
    walk (pre ++ (r.bytes ++ rest)) body w = walk (pre ++ (r.bytes ++ rest)) body
      (w.next ⟨r.dataId, UInt16.ofNat r.data.length⟩) := by
  have hread : SubHeader.read (pre ++ (r.bytes ++ rest)) pre.length
      = ⟨r.dataId, UInt16.ofNat r.data.length⟩ := by
    rw [Record.bytes, List.append_assoc]
    exact SubHeader.read_bytes _ _ _
  have hlen : (UInt16.ofNat r.data.length).toNat = r.data.length := by
    rw [UInt16.toNat_ofNat', Nat.mod_eq_of_lt hr]
  rw [List.length_append, Record.length_bytes] at hbody
  rw [walk, dif_pos ⟨by omega, UInt16.lt_iff_toNat_lt.mpr hcount⟩, ← hpre, hread]
  refine if_neg ?_
  show ¬body.toNat < w.pos.toNat + sizeofSubHeader + (UInt16.ofNat r.data.length).toNat
  omega

/-- Neither the position nor the count wraps in a round. -/
theorem next_toNat {body : UInt32} {w : Walk} {r : Record} {rest : Bytes}
    (hbody : body.toNat = w.pos.toNat + (r.bytes ++ rest).length)
    (hr : r.data.length < 2 ^ 16) (hcount : w.sliceCount.toNat < 1000) :
    (w.next ⟨r.dataId, UInt16.ofNat r.data.length⟩).pos.toNat = w.pos.toNat + r.bytes.length ∧
      (w.sliceCount + 1).toNat = w.sliceCount.toNat + 1 := by
  have hlt := body.toNat_lt
  have hlen : (UInt16.ofNat r.data.length).toNat = r.data.length := by
    rw [UInt16.toNat_ofNat', Nat.mod_eq_of_lt hr]
  rw [List.length_append, Record.length_bytes] at hbody
  constructor
  · simp only [Walk.next, hlen, UInt32.toNat_add, UInt32.toNat_ofNat', Record.length_bytes]
    omega
  · rw [UInt16.toNat_add]
    exact Nat.mod_eq_of_lt (by simp; omega)

/-- **The walk counts the records at the start of the body**, as many as there are, or 1000. -/
theorem walk_scan {body : UInt32} (n : ℕ) : ∀ (pre ahead : Bytes) (w : Walk),
    w.sliceCount.toNat + n = 1000 → pre.length = sizeofReportHeader + w.pos.toNat →
    body.toNat = w.pos.toNat + ahead.length →
    ∃ recs rest, Scanned w ahead (walk (pre ++ ahead) body w) recs rest := by
  induction n with
  | zero =>
    intro pre ahead w hcount hpre hbody
    have hnot : ¬w.sliceCount < 1000 := by
      rw [UInt16.lt_iff_toNat_lt, show w.sliceCount.toNat = 1000 from hcount]
      decide
    rw [walk, dif_neg (fun h => hnot h.2)]
    exact ⟨[], ahead, rfl, by simp, by simp, rfl, rfl, by simp, le_of_eq hcount,
      Or.inl (UInt16.toNat_inj.mp hcount)⟩
  | succ n ih =>
    intro pre ahead w hcount hpre hbody
    by_cases hahead : StartsWithRecord ahead
    · obtain ⟨r, rest, hr, rfl⟩ := hahead
      obtain ⟨hpos, hone⟩ := next_toNat hbody hr (by omega)
      rw [walk_of_record hpre hbody hr (by omega), ← List.append_assoc]
      rw [List.length_append] at hbody
      obtain ⟨recs, rest', hscan⟩ := ih (pre ++ r.bytes) rest
        (w.next ⟨r.dataId, UInt16.ofNat r.data.length⟩)
        (by show (w.sliceCount + 1).toNat + n = 1000; omega)
        (by rw [List.length_append, hpos]; omega) (by rw [hpos]; omega)
      exact ⟨r :: recs, rest', hscan.cons hr hpos hone⟩
    · rw [walk_of_not_startsWith hpre hbody hahead]
      exact ⟨[], ahead, rfl, by simp, by simp, rfl, rfl, by simp, by omega, Or.inr hahead⟩

/-! ## What is in the view -/

/-- The view of a string of at least the size of the header: `recs` are the records it counts. -/
structure Parsed (data : Bytes) (view : ReportView) (recs : List Record) (rest : Bytes) : Prop where
  /-- the records are contiguous from the end of the header, inside the string -/
  split : ∃ hdr, hdr.length = sizeofReportHeader ∧ data = hdr ++ (encode recs ++ rest)
  small : ∀ r ∈ recs, r.data.length < 2 ^ 16
  /-- they are all the records there are, or 1000 of them -/
  stop : recs.length = 1000 ∨ ¬StartsWithRecord rest
  cap : recs.length ≤ 1000
  sliceCount : view.sliceCount.toNat = recs.length
  ids : recs ≠ [] →
    (view.dataIdMin ∈ recs.map Record.dataId ∧ ∀ r ∈ recs, view.dataIdMin ≤ r.dataId) ∧
    (view.dataIdMax ∈ recs.map Record.dataId ∧ ∀ r ∈ recs, r.dataId ≤ view.dataIdMax)

theorem Parsed.min_le_max {data : Bytes} {view : ReportView} {recs : List Record} {rest : Bytes}
    (h : Parsed data view recs rest) (hcount : 0 < view.sliceCount) :
    view.dataIdMin ≤ view.dataIdMax := by
  have hne : recs ≠ [] := by
    rintro rfl
    have hzero := h.sliceCount
    rw [UInt16.lt_iff_toNat_lt, hzero] at hcount
    exact Nat.lt_irrefl 0 hcount
  obtain ⟨⟨hmem, -⟩, -, hmax⟩ := h.ids hne
  obtain ⟨r, hr, hid⟩ := List.mem_map.mp hmem
  rw [← hid]
  exact hmax r hr

theorem parseReport_of_short {data : Bytes} {len : UInt32} (hlen : len.toNat = data.length)
    (h : data.length < sizeofReportHeader) : parseReport (some data) len {} = (false, {}) := by
  rw [parseReport, if_pos (by omega)]

/-- **A string with a header is accepted**, whatever comes behind it. -/
theorem parseReport_of_header {data : Bytes} {len : UInt32} (hlen : len.toNat = data.length)
    (h : sizeofReportHeader ≤ data.length) :
    (parseReport (some data) len {}).1 = true ∧
      ∃ recs rest, Parsed data (parseReport (some data) len {}).2 recs rest := by
  have h24 : (UInt32.ofNat sizeofReportHeader).toNat = sizeofReportHeader := rfl
  have hbody : (len - UInt32.ofNat sizeofReportHeader).toNat
      = (data.drop sizeofReportHeader).length := by
    rw [UInt32.toNat_sub_of_le _ _ (by rw [UInt32.le_iff_toNat_le, h24]; omega), h24,
      List.length_drop, hlen]
  have hhdr : (data.take sizeofReportHeader).length = sizeofReportHeader := by
    rw [List.length_take]
    omega
  obtain ⟨recs, rest, hscan⟩ := @walk_scan (len - UInt32.ofNat sizeofReportHeader) 1000
    (data.take sizeofReportHeader) (data.drop sizeofReportHeader) ⟨0, 0xFFFF, 0, 0⟩
    rfl (by simpa using hhdr) (by simpa using hbody)
  rw [List.take_append_drop] at hscan
  simp only [parseReport, if_neg (show ¬len.toNat < sizeofReportHeader by omega)]
  generalize walk data (len - UInt32.ofNat sizeofReportHeader) ⟨0, 0xFFFF, 0, 0⟩ = w at hscan ⊢
  have hcount : w.sliceCount.toNat = recs.length := by simpa using hscan.count
  have hcap : recs.length ≤ 1000 := hcount ▸ hscan.cap
  refine ⟨trivial, recs, rest, ⟨_, hhdr, ?_⟩, hscan.small, ?_, hcap, hcount, ?_⟩
  · rw [← hscan.split, List.take_append_drop]
  · rcases hscan.stop with hstop | hstop
    · left
      rw [← hcount, hstop]
      rfl
    · exact Or.inr hstop
  · intro hne
    have hids : recs.map Record.dataId ≠ [] := by simpa using hne
    have hpos : 0 < w.sliceCount := by
      rw [UInt16.lt_iff_toNat_lt, hcount]
      exact List.length_pos_of_ne_nil hne
    have hmin := foldl_lower hids
    have hmax := foldl_raise hids
    rw [← hscan.minId] at hmin
    rw [← hscan.maxId] at hmax
    simp only [hpos, if_true]
    refine ⟨⟨hmin.1, ?_⟩, hmax.1, ?_⟩
    · intro r hr
      exact hmin.2 _ (List.mem_map_of_mem hr)
    · intro r hr
      exact hmax.2 _ (List.mem_map_of_mem hr)

/-! ## Every access and every operation checked -/

/-- `a + b` in an unsigned type of `bits` bits; `none` when it wraps. -/
def checkedAdd (bits a b : ℕ) : Option ℕ := if a + b < 2 ^ bits then some (a + b) else none

/-- `memcpy` out of a string of `len` bytes; `none` unless all `n` bytes lie in `[0, len)`. -/
def checkedCopy (data : Bytes) (len : UInt32) (off n : ℕ) : Option Bytes :=
  if off + n ≤ len.toNat then some (slice data off n) else none

/-- The loop of `ParseReport`. Sums with a `sizeof` are 64 bits wide, `pos` 32 and the count 16. -/
def walkChecked (data : Bytes) (len body : UInt32) (w : Walk) : Option Walk :=
  (checkedAdd 64 w.pos.toNat sizeofSubHeader).bind fun subEnd =>
  if _h : subEnd ≤ body.toNat ∧ w.sliceCount < 1000 then
    (checkedAdd 64 sizeofReportHeader w.pos.toNat).bind fun off =>
    (checkedCopy data len off sizeofSubHeader).bind fun bytes =>
    (checkedAdd 64 subEnd (SubHeader.read bytes 0).len.toNat).bind fun stop =>
    if body.toNat < stop then some w
    else
      (checkedAdd 32 w.pos.toNat
        (sizeofSubHeader + (SubHeader.read bytes 0).len.toNat)).bind fun _ =>
      (checkedAdd 16 w.sliceCount.toNat 1).bind fun _ =>
      walkChecked data len body (w.next (SubHeader.read bytes 0))
  else some w
termination_by 1000 - w.sliceCount.toNat
decreasing_by exact w.left_lt _h.2 _

def parseChecked (data : Option Bytes) (len : UInt32) (out : ReportView) :
    Option (Bool × ReportView) :=
  match data with
  | none => some (false, out)
  | some data =>
    if len.toNat < sizeofReportHeader then some (false, out)
    else
      (checkedCopy data len 0 sizeofReportHeader).bind fun bytes =>
      let hdr := ReportHeader.read bytes
      -- the test above keeps the difference from wrapping
      let body := len - UInt32.ofNat sizeofReportHeader
      (walkChecked data len body ⟨0, 0xFFFF, 0, out.sliceCount⟩).map fun w : Walk =>
        (true, { taskId := hdr.taskId
                 timestampMs := hdr.timestampMs
                 seq := hdr.seq
                 payloadLen := hdr.payloadLen
                 sliceCount := w.sliceCount
                 dataIdMin := if 0 < w.sliceCount then w.minId else 0
                 dataIdMax := w.maxId
                 frameLen := len })

theorem checkedAdd_of_lt {bits a b : ℕ} (h : a + b < 2 ^ bits) :
    checkedAdd bits a b = some (a + b) := if_pos h

/-- A field of a copied slice is the field of the string. -/
theorem slice_slice (bs : Bytes) {off n o k : ℕ} (h : o + k ≤ n) :
    slice (slice bs off n) o k = slice bs (off + o) k := by
  simp only [slice, List.drop_take, List.drop_drop, List.take_take]
  rw [Nat.min_eq_left (by omega)]

theorem read_subHeader_slice (bs : Bytes) (off : ℕ) :
    SubHeader.read (slice bs off sizeofSubHeader) 0 = SubHeader.read bs off := by
  simp only [SubHeader.read, sizeofSubHeader]
  rw [slice_slice bs (by omega), slice_slice bs (by omega), Nat.add_zero, Nat.zero_add]

theorem read_header_slice (bs : Bytes) :
    ReportHeader.read (slice bs 0 sizeofReportHeader) = ReportHeader.read bs := by
  simp only [ReportHeader.read, sizeofReportHeader]
  rw [slice_slice bs (by omega), slice_slice bs (by omega), slice_slice bs (by omega),
    slice_slice bs (by omega)]

/-- **No check of a round fails**: what the loop has tested is enough for each. -/
theorem walkChecked_round {data : Bytes} {len body : UInt32}
    (hbody : sizeofReportHeader + body.toNat = len.toNat) (w : Walk) :
    walkChecked data len body w =
      if w.pos.toNat + sizeofSubHeader ≤ body.toNat ∧ w.sliceCount < 1000 then
        if body.toNat < w.pos.toNat + sizeofSubHeader
            + (SubHeader.read data (sizeofReportHeader + w.pos.toNat)).len.toNat then some w
        else walkChecked data len body
          (w.next (SubHeader.read data (sizeofReportHeader + w.pos.toNat)))
      else some w := by
  have hlen := len.toNat_lt
  have hpos := w.pos.toNat_lt
  have hs : sizeofSubHeader = 4 := rfl
  have hr : sizeofReportHeader = 24 := rfl
  rw [walkChecked, checkedAdd_of_lt (by omega), Option.bind_some]
  by_cases hcond : w.pos.toNat + sizeofSubHeader ≤ body.toNat ∧ w.sliceCount < 1000
  · have hcount := UInt16.lt_iff_toNat_lt.mp hcond.2
    have hcopy : checkedCopy data len (sizeofReportHeader + w.pos.toNat) sizeofSubHeader
        = some (slice data (sizeofReportHeader + w.pos.toNat) sizeofSubHeader) :=
      if_pos (by omega)
    rw [dif_pos hcond, if_pos hcond, checkedAdd_of_lt (by omega), Option.bind_some, hcopy,
      Option.bind_some, read_subHeader_slice]
    generalize SubHeader.read data (sizeofReportHeader + w.pos.toNat) = sub
    have hsub := sub.len.toNat_lt
    rw [checkedAdd_of_lt (by omega), Option.bind_some]
    by_cases hover : body.toNat < w.pos.toNat + sizeofSubHeader + sub.len.toNat
    · rw [if_pos hover, if_pos hover]
    · rw [if_neg hover, if_neg hover, checkedAdd_of_lt (by omega), Option.bind_some,
        checkedAdd_of_lt (by simp at hcount; omega), Option.bind_some]
  · rw [dif_neg hcond, if_neg hcond]

theorem walkChecked_eq {data : Bytes} {len body : UInt32}
    (hbody : sizeofReportHeader + body.toNat = len.toNat) (w : Walk) :
    walkChecked data len body w = some (walk data body w) := by
  induction w using walk.induct data body with
  | case1 w hcond sub hover =>
    rw [walkChecked_round hbody, walk, if_pos hcond, dif_pos hcond, if_pos hover, if_pos hover]
  | case2 w hcond sub hfit ih =>
    rw [walkChecked_round hbody, walk, if_pos hcond, dif_pos hcond, if_neg hfit, if_neg hfit]
    exact ih
  | case3 w hcond =>
    rw [walkChecked_round hbody, walk, if_neg hcond, dif_neg hcond]

/-- `ParseReport` reads inside `[0, len)` and wraps nowhere, whatever the bytes are. -/
theorem parseChecked_eq {data : Bytes} {len : UInt32} (out : ReportView) :
    parseChecked (some data) len out = some (parseReport (some data) len out) := by
  have hr : sizeofReportHeader = 24 := rfl
  have h24 : (UInt32.ofNat sizeofReportHeader).toNat = sizeofReportHeader := rfl
  by_cases hshort : len.toNat < sizeofReportHeader
  · simp only [parseChecked, parseReport, if_pos hshort]
  · have hcopy : checkedCopy data len 0 sizeofReportHeader
        = some (slice data 0 sizeofReportHeader) := if_pos (by omega)
    have hbody : sizeofReportHeader + (len - UInt32.ofNat sizeofReportHeader).toNat
        = len.toNat := by
      rw [UInt32.toNat_sub_of_le _ _ (by rw [UInt32.le_iff_toNat_le, h24]; omega), h24]
      omega
    simp only [parseChecked, parseReport, if_neg hshort, hcopy, Option.bind_some,
      walkChecked_eq hbody, Option.map_some, read_header_slice]

/-! ## The two contracts -/

/--
**Parsing is safe on every string.** No memory access leaves `[0, len)` and no sum wraps; the
records that are counted lie one behind the other from the end of the header and inside the
string, there are at most 1000, and the ids come out in order.
-/
theorem parseReport_safe (data : Bytes) (len : UInt32) (hlen : len.toNat = data.length) :
    parseChecked (some data) len {} = some (parseReport (some data) len {}) ∧
    (sizeofReportHeader ≤ data.length →
      ∃ recs rest, Parsed data (parseReport (some data) len {}).2 recs rest) ∧
    (parseReport (some data) len {}).2.sliceCount ≤ 1000 ∧
    (0 < (parseReport (some data) len {}).2.sliceCount →
      (parseReport (some data) len {}).2.dataIdMin
        ≤ (parseReport (some data) len {}).2.dataIdMax) := by
  refine ⟨parseChecked_eq {}, fun h => (parseReport_of_header hlen h).2, ?_⟩
  by_cases hshort : data.length < sizeofReportHeader
  · rw [parseReport_of_short hlen hshort]
    exact ⟨by decide, fun h => absurd h (by decide)⟩
  · obtain ⟨-, recs, rest, hparsed⟩ := parseReport_of_header hlen (Nat.le_of_not_lt hshort)
    refine ⟨?_, hparsed.min_le_max⟩
    rw [UInt16.le_iff_toNat_le, hparsed.sliceCount]
    exact hparsed.cap

/-- A header, a record of one byte and a record that is cut off. -/
def cutOff : Bytes := List.replicate 24 0 ++ [7, 0, 1, 0, 0xAA, 8, 0, 9, 0, 0xBB]

theorem parseReport_safe_cutOff :
    parseChecked (some cutOff) 34 {} = some (parseReport (some cutOff) 34 {}) ∧
      (parseReport (some cutOff) 34 {}).2.sliceCount ≤ 1000 :=
  have h := parseReport_safe cutOff 34 rfl
  ⟨h.1, h.2.2.1⟩

/-- A header and complete records, with nothing left over. -/
def WellFormed (data : Bytes) : Prop :=
  ∃ (hdr : Bytes) (recs : List Record), hdr.length = sizeofReportHeader ∧
    (∀ r ∈ recs, r.data.length < 2 ^ 16) ∧ data = hdr ++ encode recs

/-- The comment at `ParseReport`: true for a report, false and an untouched view otherwise. -/
def AnswersExactly (data : Bytes) (len : UInt32) : Prop :=
  ((parseReport (some data) len {}).1 = true ↔ WellFormed data) ∧
    ((parseReport (some data) len {}).1 = false → (parseReport (some data) len {}).2 = {})

/-- **The answer is exact for well-formed strings and for those shorter than a header.** -/
theorem parseReport_exact_iff (data : Bytes) (len : UInt32) (hlen : len.toNat = data.length) :
    AnswersExactly data len ↔ data.length < sizeofReportHeader ∨ WellFormed data := by
  have hlong : WellFormed data → sizeofReportHeader ≤ data.length := by
    rintro ⟨hdr, recs, hhdr, -, rfl⟩
    rw [List.length_append, hhdr]
    exact Nat.le_add_right _ _
  by_cases hshort : data.length < sizeofReportHeader
  · have hnot : ¬WellFormed data := fun h => absurd (hlong h) (Nat.not_le_of_lt hshort)
    rw [AnswersExactly, parseReport_of_short hlen hshort]
    simp [hshort, hnot]
  · obtain ⟨hok, -⟩ := parseReport_of_header hlen (Nat.le_of_not_lt hshort)
    simp [AnswersExactly, hok, hshort]

/-- The exact answer for an empty report. -/
theorem parseReport_exact_empty : AnswersExactly (List.replicate 24 0) 24 :=
  (parseReport_exact_iff _ 24 rfl).mpr (Or.inr ⟨List.replicate 24 0, [], rfl, by simp, rfl⟩)

/-- One byte behind the header is accepted. -/
theorem parseReport_accepts_leftover :
    ¬∀ (data : Bytes) (len : UInt32), len.toNat = data.length → AnswersExactly data len := by
  intro h
  have hlen : (25 : UInt32).toNat = (List.replicate 25 (0 : UInt8)).length := rfl
  obtain ⟨hok, -⟩ := parseReport_of_header hlen (by decide)
  obtain ⟨hdr, recs, hhdr, -, hsplit⟩ := (h _ 25 hlen).1.mp hok
  have hone := congrArg List.length hsplit
  rw [List.length_replicate, List.length_append, hhdr, sizeofReportHeader] at hone
  cases recs with
  | nil => simp at hone
  | cons r recs =>
    rw [encode_cons, List.length_append, Record.length_bytes, sizeofSubHeader] at hone
    omega

end Dts.Web
