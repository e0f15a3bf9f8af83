import Dts.Infra.Bytes
import Dts.Infra.Find
import Mathlib.Data.List.Infix
import Mathlib.Data.Nat.Notation
import Mathlib.Tactic.Set

/-!
# Event streams

The format `text/event-stream`. Lines end with LF, CR or both together; a line gives a field of the
next event, and a blank line dispatches it. An event that the stream does not end with a blank line
is not dispatched.

* `events_messages` — a stream of messages with one line of data each is read back
* `events_take` — a message that is cut short gives no event
-/

namespace Infra.EventStream

def lineFeed : UInt8 := 10

def carriageReturn : UInt8 := 13

def colon : UInt8 := 58

def space : UInt8 := 32

/-- `event` -/
def typeField : Bytes := [101, 118, 101, 110, 116]

/-- `data` -/
def dataField : Bytes := [100, 97, 116, 97]

/-- `message`, the type of an event without one. -/
def defaultType : Bytes := [109, 101, 115, 115, 97, 103, 101]

/-! ## Reading -/

/-- The buffers of a reader, and the events that it has dispatched. -/
structure Reader where
  line : Bytes := []
  /-- the byte before was a CR -/
  cr : Bool := false
  type : Bytes := []
  data : Bytes := []
  events : List (Bytes × Bytes) := []

namespace Reader

/-- A field of another name changes no event. -/
def setField (r : Reader) (name value : Bytes) : Reader :=
  if name = typeField then { r with type := value }
  else if name = dataField then { r with data := r.data ++ (value ++ [lineFeed]) }
  else r

/-- A line `name: value`; one that begins with the colon is a comment. -/
def field (r : Reader) (line : Bytes) : Reader :=
  match line.idxOf? colon with
  | none => r.setField line []
  | some 0 => r
  | some i =>
    let value := line.drop (i + 1)
    r.setField (line.take i) (if value.head? = some space then value.tail else value)

/-- A blank line. -/
def dispatch (r : Reader) : Reader :=
  if r.data = [] then { r with type := [] }
  else { r with
    type := []
    data := []
    events := r.events ++ [(if r.type = [] then defaultType else r.type, r.data.dropLast)] }

/-- A blank line dispatches the event, any other line is a field of it. -/
def endLine (r : Reader) : Reader :=
  { (if r.line = [] then r.dispatch else r.field r.line) with line := [] }

/-- The next byte of the stream; CR LF is one end of a line. -/
def byte (r : Reader) (b : UInt8) : Reader :=
  if b = lineFeed then if r.cr then { r with cr := false } else r.endLine
  else if b = carriageReturn then { r.endLine with cr := true }
  else { r with line := r.line ++ [b], cr := false }

/-- The reader behind these bytes. -/
def read (r : Reader) (bs : Bytes) : Reader := bs.foldl byte r

end Reader

/-- The events of a stream. -/
def events (bs : Bytes) : List (Bytes × Bytes) := (({} : Reader).read bs).events

/-- The two lines of an event with one line of data. -/
def body (e : Bytes × Bytes) : Bytes :=
  (typeField ++ colon :: space :: e.1 ++ [lineFeed]) ++
    (dataField ++ colon :: space :: e.2 ++ [lineFeed])

/-- An event as it is sent, with the blank line behind it. -/
def message (e : Bytes × Bytes) : Bytes := body e ++ [lineFeed]

/-- Without a line end. -/
def Plain (bs : Bytes) : Prop := lineFeed ∉ bs ∧ carriageReturn ∉ bs

/-! ## Lines -/

namespace Reader

theorem read_append (r : Reader) (xs ys : Bytes) : r.read (xs ++ ys) = (r.read xs).read ys :=
  List.foldl_append

theorem read_plain {bs : Bytes} (h : Plain bs) : ∀ (r : Reader), r.cr = false →
    r.read bs = { r with line := r.line ++ bs } := by
  induction bs with
  | nil =>
    intro r _
    simp [read]
  | cons b bs ih =>
    intro r hcr
    obtain ⟨hlf, hcarriage⟩ := h
    rw [List.mem_cons, not_or] at hlf hcarriage
    have hbyte : r.byte b = { r with line := r.line ++ [b] } := by
      rw [byte, if_neg (Ne.symm hlf.1), if_neg (Ne.symm hcarriage.1)]
      cases r
      cases hcr
      rfl
    have hrest := ih ⟨hlf.2, hcarriage.2⟩ { r with line := r.line ++ [b] } hcr
    show (r.byte b).read bs = _
    rw [hbyte, hrest, List.append_assoc]
    rfl

/-- A field does not depend on the line buffer. -/
theorem field_line (r : Reader) (buffer line : Bytes) :
    { ({ r with line := buffer } : Reader).field line with line := [] } =
      { r.field line with line := [] } := by
  have hset (name value : Bytes) :
      { ({ r with line := buffer } : Reader).setField name value with line := [] } =
        { r.setField name value with line := [] } := by
    unfold setField
    split
    · rfl
    · split <;> rfl
  unfold field
  split
  · exact hset line []
  · rfl
  · exact hset _ _

/-- A line that holds something sets its field. -/
theorem read_line {line : Bytes} (h : Plain line) (hne : line ≠ []) (r : Reader)
    (hline : r.line = []) (hcr : r.cr = false) :
    r.read (line ++ [lineFeed]) = { r.field line with line := [] } := by
  rw [read_append, read_plain h r hcr, hline, List.nil_append]
  show byte { r with line := line } lineFeed = _
  rw [byte, if_pos rfl, if_neg (by rw [hcr]; decide), endLine, if_neg hne]
  exact field_line r line line

/-- The text behind the colon, without the space. -/
theorem field_named (r : Reader) {name : Bytes} (hname : colon ∉ name) (hne : name ≠ [])
    (value : Bytes) : r.field (name ++ colon :: space :: value) = r.setField name value := by
  obtain ⟨b, rest, rfl⟩ := List.exists_cons_of_ne_nil hne
  unfold field
  rw [idxOf?_append_of_notMem hname, List.length_cons]
  have htake : (b :: rest ++ colon :: space :: value).take (rest.length + 1) = b :: rest :=
    List.take_left' rfl
  have hdrop : (b :: rest ++ colon :: space :: value).drop (rest.length + 1 + 1) =
      space :: value := by
    rw [List.append_cons]
    exact List.drop_left' (by simp)
  show r.setField ((b :: rest ++ colon :: space :: value).take (rest.length + 1)) _ = _
  rw [htake, hdrop]
  rfl

theorem plain_field {name value : Bytes} (hname : Plain name) (hvalue : Plain value) :
    Plain (name ++ colon :: space :: value) := by
  have hmem (b : UInt8) (h : b ∉ name) (h' : b ∉ value) (hcolon : b ≠ colon) (hspace : b ≠ space) :
      b ∉ name ++ colon :: space :: value := by
    simp [h, h', hcolon, hspace]
  exact ⟨hmem _ hname.1 hvalue.1 (by decide) (by decide),
    hmem _ hname.2 hvalue.2 (by decide) (by decide)⟩

/-- What stands before the blank line. -/
theorem read_body (es : List (Bytes × Bytes)) {e : Bytes × Bytes} (htype : Plain e.1)
    (hdata : Plain e.2) :
    ({ events := es } : Reader).read (body e) =
        { type := e.1, data := e.2 ++ [lineFeed], events := es } := by
  have hplain : Plain typeField := ⟨by decide, by decide⟩
  have hplain' : Plain dataField := ⟨by decide, by decide⟩
  rw [body, read_append, read_line (plain_field hplain htype) (by simp) _ rfl rfl,
    field_named _ (by decide) (by decide)]
  show (Reader.read { type := e.1, events := es } _) = _
  rw [read_line (plain_field hplain' hdata) (by simp) _ rfl rfl,
    field_named _ (by decide) (by decide)]
  rfl

theorem events_byte (r : Reader) (b : UInt8) : r.events <+: (r.byte b).events := by
  have hset (name value : Bytes) : (r.setField name value).events = r.events := by
    unfold setField
    split
    · rfl
    · split <;> rfl
  have hfield : (r.field r.line).events = r.events := by
    unfold field
    split
    · exact hset r.line []
    · rfl
    · exact hset _ _
  have hdispatch : r.events <+: r.dispatch.events := by
    unfold dispatch
    split
    · exact List.prefix_refl _
    · exact List.prefix_append _ _
  have hend : r.events <+: r.endLine.events := by
    unfold endLine
    split
    · exact hdispatch
    · exact hfield.symm ▸ List.prefix_refl _
  unfold byte
  split
  · split
    · exact List.prefix_refl _
    · exact hend
  · split
    · exact hend
    · exact List.prefix_refl _

theorem events_read (bs : Bytes) : ∀ r : Reader, r.events <+: (r.read bs).events := by
  induction bs with
  | nil => exact fun r => List.prefix_refl _
  | cons b bs ih => exact fun r => (r.events_byte b).trans (ih (r.byte b))

end Reader

/-! ## Messages -/

variable {e : Bytes × Bytes}

/-- A message is read back. -/
theorem read_message (es : List (Bytes × Bytes)) (hne : e.1 ≠ []) (htype : Plain e.1)
    (hdata : Plain e.2) :
    ({ events := es } : Reader).read (message e) = { events := es ++ [e] } := by
  rw [message, Reader.read_append, Reader.read_body es htype hdata]
  have hblank : e.2 ++ [lineFeed] ≠ [] := by simp
  show Reader.endLine { type := e.1, data := e.2 ++ [lineFeed], events := es } = _
  rw [Reader.endLine, if_pos rfl, Reader.dispatch, if_neg hblank]
  simp [hne]

theorem read_messages : ∀ (ms es : List (Bytes × Bytes)),
    (∀ e ∈ ms, e.1 ≠ [] ∧ Plain e.1 ∧ Plain e.2) →
      ({ events := es } : Reader).read (ms.flatMap message) = { events := es ++ ms }
  | [], es, _ => by rw [List.append_nil]; rfl
  | e :: ms, es, h => by
    obtain ⟨hne, htype, hdata⟩ := h e List.mem_cons_self
    have hrest := read_messages ms (es ++ [e]) fun f hf => h f (List.mem_cons_of_mem e hf)
    rw [List.flatMap_cons, Reader.read_append, read_message es hne htype hdata, hrest,
      List.append_assoc]
    rfl

/-- **Messages.** A stream of messages is read back. -/
theorem events_messages {ms : List (Bytes × Bytes)}
    (h : ∀ e ∈ ms, e.1 ≠ [] ∧ Plain e.1 ∧ Plain e.2) : events (ms.flatMap message) = ms := by
  rw [events, read_messages ms [] h]
  rfl

/-- A message that is cut short gives no event. -/
theorem events_take {ms : List (Bytes × Bytes)}
    (h : ∀ e ∈ ms, e.1 ≠ [] ∧ Plain e.1 ∧ Plain e.2) (htype : Plain e.1) (hdata : Plain e.2) {n : ℕ}
    (hn : n < (message e).length) : events (ms.flatMap message ++ (message e).take n) = ms := by
  have hbody : n ≤ (body e).length := by
    rw [message, List.length_append, List.length_singleton] at hn
    exact Nat.lt_succ_iff.mp hn
  rw [events, Reader.read_append, read_messages ms [] h, List.nil_append, message,
    List.take_append_of_le_length hbody]
  set r : Reader := { events := ms }
  -- the events only grow, and there is none before the blank line
  have hgrow := (r.read ((body e).take n)).events_read ((body e).drop n)
  rw [← Reader.read_append, List.take_append_drop, Reader.read_body ms htype hdata] at hgrow
  exact hgrow.eq_of_length_le (r.events_read _).length_le

end Infra.EventStream
