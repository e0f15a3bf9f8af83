import Dts.Infra.HttpHead
import Dts.Web.Observation

/-!
# Requests and responses

`ServeConn` answers a request by its first line, and `Respond` writes the answer with the length of
its body. `Dts.Web.RequestHead` says which requests are read; here the client, which is not part of
the program, reads the answer back.

* `sends_serveConn` — what is sent is what `Dts.Web.Streams` takes the request for
* `exchange_iff` — whatever the page and the statistics are, the client that asks for a path gets the
  answer of this path, exactly when `send` sends the whole text
-/

namespace Dts.Web

open Infra
open Ctl (decimal)
open Streams (Chunk Route Status received readRequestHead serveConn kMaxReqHead headEnd space)

/-! ## The server -/

/-- The page, and what the statistics function answers, if there is one. -/
structure HttpServer where
  index : Bytes
  stats : Option Bytes

/-- `Respond`, without an extra head. -/
def respond (status contentType body : Bytes) : Bytes :=
  utf8 "HTTP/1.1 " ++ status ++ utf8 "\r\n" ++ utf8 "Content-Type: " ++ contentType ++ utf8 "\r\n" ++
    utf8 "Content-Length: " ++ decimal body.length ++ utf8 "\r\n" ++ utf8 "Connection: close\r\n" ++
    utf8 "\r\n" ++ body

/-- Method and path of a first line, between its first space and its last one. -/
def requestOf (line : Bytes) : Option (Bytes × Bytes) :=
  match line.idxOf? space with
  | none => none
  | some sp1 =>
    let sp2 := line.length - 1 - line.reverse.idxOf space
    if sp2 = sp1 then none
    else some (line.take sp1, (line.drop (sp1 + 1)).take (sp2 - sp1 - 1))

/-- What `ServeConn` sends, and `none` when it only closes. -/
def HttpServer.serve (s : HttpServer) (firstLine : Option Bytes) : Option Bytes :=
  match firstLine.bind requestOf with
  | none => none
  | some (method, path) =>
    if method ≠ utf8 "GET" then
      some (respond (utf8 "405 Method Not Allowed") (utf8 "text/plain") (utf8 "GET only\n"))
    else if path = utf8 "/api/stream" then some kSseHead
    else if path = utf8 "/api/stats" then
      some (respond (utf8 "200 OK") (utf8 "application/json") (s.stats.getD (utf8 "\x7b\x7d")))
    else if path = utf8 "/" ∨ path = utf8 "/index.html" then
      some (respond (utf8 "200 OK") (utf8 "text/html; charset=utf-8") s.index)
    else some (respond (utf8 "404 Not Found") (utf8 "text/plain") (utf8 "not found\n"))

def statusText : Status → Bytes
  | .ok => utf8 "200 OK"
  | .notFound => utf8 "404 Not Found"
  | .methodNotAllowed => utf8 "405 Method Not Allowed"

/-- What the routes of `Dts.Web.Streams` send. -/
def Sends : Route → Option Bytes → Prop
  | .drop, sent => sent = none
  | .stream, sent => sent = some kSseHead
  | .respond status, sent =>
    ∃ contentType body, sent = some (respond (statusText status) contentType body)

/-- **The texts are those of the routes.** -/
theorem sends_serveConn (s : HttpServer) (firstLine : Option Bytes) :
    Sends (serveConn firstLine) (s.serve firstLine) := by
  unfold HttpServer.serve serveConn
  cases firstLine with
  | none => exact rfl
  | some line =>
    simp only [Option.bind_some, requestOf]
    cases line.idxOf? space with
    | none => exact rfl
    | some sp1 =>
      simp only
      generalize line.length - 1 - line.reverse.idxOf space = sp2
      by_cases hsp : sp2 = sp1
      · simp only [if_pos hsp]
        exact rfl
      · simp only [if_neg hsp]
        split
        · exact ⟨_, _, rfl⟩
        split
        · exact rfl
        split
        · exact ⟨_, _, rfl⟩
        split
        · exact ⟨_, _, rfl⟩
        · exact ⟨_, _, rfl⟩

/-! ## The client -/

/-- A request that the server reads. -/
structure Request where
  method : Bytes
  target : Bytes
  version : Bytes
  fields : List Bytes
  method_word : 13 ∉ method ∧ 10 ∉ method ∧ space ∉ method
  target_line : 13 ∉ target ∧ 10 ∉ target
  version_word : 13 ∉ version ∧ 10 ∉ version ∧ space ∉ version
  fields_lines : ∀ f ∈ fields, HttpHead.Line f
  fits : (HttpHead.text ((method ++ space :: (target ++ space :: version)) :: fields)).length ≤
    kMaxReqHead

namespace Request

def line (r : Request) : Bytes := r.method ++ space :: (r.target ++ space :: r.version)

def text (r : Request) : Bytes := HttpHead.text (r.line :: r.fields)

end Request

inductive Answer
  /-- events follow -/
  | stream
  | page (status contentType body : Bytes)
  deriving DecidableEq

/-- `name: value` -/
def fieldOf (line : Bytes) : Option (Bytes × Bytes) :=
  (line.idxOf? EventStream.colon).map fun i => (line.take i, line.drop (i + 2))

def readDecimal (digits : Bytes) : ℕ :=
  Nat.ofDigitChars 10 (digits.map fun b => Char.ofNat b.toNat) 0

/-- The client reads the head, and as many bytes behind it as the head says. -/
def clientReads (bs : Bytes) : Option Answer :=
  match HttpHead.cut bs with
  | some (statusLine :: lines, rest) =>
    let fields := lines.filterMap fieldOf
    match fields.lookup (utf8 "Content-Type"), fields.lookup (utf8 "Content-Length") with
    | some contentType, length =>
      if contentType = utf8 "text/event-stream" then some .stream
      else
        match length.map readDecimal with
        | some n =>
          if n ≤ rest.length then
            some (.page (statusLine.drop (utf8 "HTTP/1.1 ").length) contentType (rest.take n))
          else none
        | none => none
    | none, _ => none
  | _ => none

/-- What the client asks for. -/
def HttpServer.expected (s : HttpServer) (method target : Bytes) : Answer :=
  if method ≠ utf8 "GET" then
    .page (utf8 "405 Method Not Allowed") (utf8 "text/plain") (utf8 "GET only\n")
  else if target = utf8 "/api/stream" then .stream
  else if target = utf8 "/api/stats" then
    .page (utf8 "200 OK") (utf8 "application/json") (s.stats.getD (utf8 "\x7b\x7d"))
  else if target = utf8 "/" ∨ target = utf8 "/index.html" then
    .page (utf8 "200 OK") (utf8 "text/html; charset=utf-8") s.index
  else .page (utf8 "404 Not Found") (utf8 "text/plain") (utf8 "not found\n")

/-! ## The request is read -/

theorem line_of_request (r : Request) : ∀ l ∈ r.line :: r.fields, HttpHead.Line l := by
  intro l hl
  rcases List.mem_cons.mp hl with rfl | hl
  · obtain ⟨hm, hm', -⟩ := r.method_word
    obtain ⟨ht, ht'⟩ := r.target_line
    obtain ⟨hv, hv', -⟩ := r.version_word
    have hcr : (13 : UInt8) ≠ space := by decide
    have hlf : (10 : UInt8) ≠ space := by decide
    refine ⟨by simp [Request.line], ?_, ?_⟩
    · simp [Request.line, hm, ht, hv, hcr]
    · simp [Request.line, hm', ht', hv', hlf]
  · exact r.fields_lines l hl

theorem length_line (r : Request) :
    r.line.length = r.method.length + 1 + r.target.length + 1 + r.version.length := by
  simp [Request.line]
  omega

/-- The first line of a request comes through, whatever the chunks are and whatever follows. -/
theorem readRequestHead_request (r : Request) {rest : Bytes} {cs : List Chunk}
    (hcs : received cs = r.text ++ rest) : readRequestHead cs = some r.line := by
  have hlines := line_of_request r
  obtain ⟨hne, hcr, -⟩ := hlines r.line List.mem_cons_self
  have hlen : r.text.length =
      ((r.line :: r.fields).flatMap fun l => l ++ HttpHead.crlf).length + 2 := List.length_append
  have htwo : 2 ≤ ((r.line :: r.fields).flatMap fun l => l ++ HttpHead.crlf).length := by
    rw [List.flatMap_cons, List.length_append, List.length_append]
    exact (Nat.le_add_left 2 _).trans (Nat.le_add_right _ _)
  have hend : Streams.EndsAt (received cs) r.text.length := by
    refine ⟨_, hcs ▸ HttpHead.findSub_text rest (List.cons_ne_nil _ _) hlines, ?_⟩
    have hfour : headEnd.length = 4 := rfl
    omega
  have hreaches : Streams.reaches r.text.length 0 cs = true := by
    have hfits : r.text.length ≤ kMaxReqHead := r.fits
    refine Streams.reaches_of_le hfits (by omega) ?_
    rw [hcs, List.length_append]
    omega
  have hfirst : Streams.firstLine (received cs) = r.line := by
    have htext : received cs = r.line ++ (HttpHead.crlf ++ ((r.fields.flatMap fun l =>
        l ++ HttpHead.crlf) ++ HttpHead.crlf ++ rest)) := by
      rw [hcs, Request.text, HttpHead.text]
      simp
    have hfind : findSub Streams.crlf (received cs) = some r.line.length := by
      rw [htext, Streams.crlf, findSub_append_of_notMem hcr, HttpHead.crlf, findSub_self_append,
        Option.map_some, Nat.zero_add]
    rw [Streams.firstLine, hfind, htext]
    exact List.take_left
  rw [Streams.readRequestHead_eq hend, if_pos hreaches, Streams.lineOf, hfirst]
  simp [hne]

theorem requestOf_line (r : Request) : requestOf r.line = some (r.method, r.target) := by
  obtain ⟨-, -, hmethod⟩ := r.method_word
  obtain ⟨-, -, hversion⟩ := r.version_word
  have hfirst : r.line.idxOf? space = some r.method.length := idxOf?_append_of_notMem hmethod _
  have hlast : r.line.reverse.idxOf space = r.version.length := by
    have hreverse : r.line.reverse =
        r.version.reverse ++ space :: (r.target.reverse ++ space :: r.method.reverse) := by
      simp [Request.line]
    have hnot : space ∉ r.version.reverse := fun h => hversion (List.mem_reverse.mp h)
    rw [hreverse, List.idxOf_append_of_notMem hnot, List.idxOf_cons_self, Nat.add_zero,
      List.length_reverse]
  have hlen := length_line r
  have hsp2 : r.line.length - 1 - r.version.length = r.method.length + 1 + r.target.length := by
    omega
  have hmethod : r.line.take r.method.length = r.method := List.take_left
  have hdrop : r.line.drop (r.method.length + 1) = r.target ++ space :: r.version := by
    rw [Request.line, List.append_cons]
    exact List.drop_left' (by simp)
  have hpath : r.method.length + 1 + r.target.length - r.method.length - 1 = r.target.length := by
    omega
  unfold requestOf
  simp only [hfirst, hlast, hsp2, hmethod, hdrop, hpath]
  rw [if_neg (by omega), List.take_left]

/-! ## The answer is read -/

/-- The digits can be read back. -/
theorem readDecimal_decimal (n : ℕ) : readDecimal (decimal n) = n := by
  have hchars : (decimal n).map (fun b => Char.ofNat b.toNat) = Nat.toDigits 10 n := by
    rw [decimal_eq, List.map_map]
    refine (List.map_congr_left fun c hc => ?_).trans (List.map_id _)
    have hlt := (isDigit_of_mem_toDigits hc).2
    show Char.ofNat (UInt8.ofNat c.val.toNat).toNat = c
    rw [UInt8.toNat_ofNat', Nat.mod_eq_of_lt (by omega)]
    exact Char.ofNat_toNat c
  rw [readDecimal, hchars]
  exact Nat.ofDigitChars_toDigits (by decide) (by decide)

theorem fieldOf_named {name : Bytes} (hname : EventStream.colon ∉ name) (value : Bytes) :
    fieldOf (name ++ (utf8 ": " ++ value)) = some (name, value) := by
  have hsep : utf8 ": " ++ value = EventStream.colon :: EventStream.space :: value := rfl
  rw [fieldOf, hsep, idxOf?_append_of_notMem hname, Option.map_some, List.take_left,
    ← List.drop_drop, List.drop_left]
  rfl

/-- The lines of a head of `Respond`. -/
def headLines (status contentType : Bytes) (length : ℕ) : List Bytes :=
  [utf8 "HTTP/1.1 " ++ status, utf8 "Content-Type" ++ (utf8 ": " ++ contentType),
    utf8 "Content-Length" ++ (utf8 ": " ++ decimal length),
    utf8 "Connection" ++ (utf8 ": " ++ utf8 "close")]

theorem respond_eq (status contentType body : Bytes) : respond status contentType body =
    HttpHead.text (headLines status contentType body.length) ++ body := by
  have hcrlf : utf8 "\r\n" = HttpHead.crlf := by decide
  have htype : utf8 "Content-Type: " = utf8 "Content-Type" ++ utf8 ": " := by decide
  have hlength : utf8 "Content-Length: " = utf8 "Content-Length" ++ utf8 ": " := by decide
  have hclose : utf8 "Connection: close\r\n" =
      utf8 "Connection" ++ utf8 ": " ++ utf8 "close" ++ HttpHead.crlf := by decide
  simp only [respond, HttpHead.text, headLines, List.flatMap_cons, List.flatMap_nil, hcrlf, htype,
    hlength, hclose, List.append_assoc, List.nil_append]

theorem kSseHead_eq : kSseHead = HttpHead.text [utf8 "HTTP/1.1 200 OK",
    utf8 "Content-Type" ++ (utf8 ": " ++ utf8 "text/event-stream"),
    utf8 "Cache-Control" ++ (utf8 ": " ++ utf8 "no-cache"),
    utf8 "Connection" ++ (utf8 ": " ++ utf8 "keep-alive")] := by
  decide +kernel

theorem headLines_ne_nil (status contentType : Bytes) (length : ℕ) :
    headLines status contentType length ≠ [] := List.cons_ne_nil _ _

theorem line_of_plain {l : Bytes} (hne : l ≠ []) (h : EventStream.Plain l) : HttpHead.Line l :=
  ⟨hne, h.2, h.1⟩

theorem line_headLines {status contentType : Bytes} (hstatus : EventStream.Plain status)
    (htype : EventStream.Plain contentType) (length : ℕ) :
    ∀ l ∈ headLines status contentType length, HttpHead.Line l := by
  have hline (name : String) (value : Bytes) (hname : utf8 name ≠ [] ∧ EventStream.Plain (utf8 name))
      (hvalue : EventStream.Plain value) : HttpHead.Line (utf8 name ++ value) :=
    line_of_plain (List.append_ne_nil_of_left_ne_nil hname.1 _) (plain_append.mpr ⟨hname.2, hvalue⟩)
  have hfield {value : Bytes} (hvalue : EventStream.Plain value) :
      EventStream.Plain (utf8 ": " ++ value) := plain_append.mpr ⟨by decide, hvalue⟩
  intro l hl
  simp only [headLines, List.mem_cons, List.not_mem_nil, or_false] at hl
  rcases hl with rfl | rfl | rfl | rfl
  · exact hline "HTTP/1.1 " status (by decide) hstatus
  · exact hline "Content-Type" _ (by decide) (hfield htype)
  · exact hline "Content-Length" _ (by decide) (hfield (plain_decimal length))
  · exact hline "Connection" _ (by decide) (hfield (by decide))

/-- What the client reads when `rest` has come behind the head. -/
theorem clientReads_head {status contentType : Bytes} (hstatus : EventStream.Plain status)
    (htype : EventStream.Plain contentType) (hpage : contentType ≠ utf8 "text/event-stream")
    (length : ℕ) (rest : Bytes) :
    clientReads (HttpHead.text (headLines status contentType length) ++ rest) =
      if length ≤ rest.length then some (.page status contentType (rest.take length)) else none := by
  have hfields : (headLines status contentType length).tail.filterMap fieldOf =
      [(utf8 "Content-Type", contentType), (utf8 "Content-Length", decimal length),
        (utf8 "Connection", utf8 "close")] := by
    simp only [headLines, List.tail_cons, List.filterMap_cons, List.filterMap_nil,
      fieldOf_named (by decide : EventStream.colon ∉ utf8 "Content-Type"),
      fieldOf_named (by decide : EventStream.colon ∉ utf8 "Content-Length"),
      fieldOf_named (by decide : EventStream.colon ∉ utf8 "Connection")]
  have hlookup : [(utf8 "Content-Type", contentType), (utf8 "Content-Length", decimal length),
      (utf8 "Connection", utf8 "close")].lookup (utf8 "Content-Length") = some (decimal length) := by
    have hne : (utf8 "Content-Length" == utf8 "Content-Type") = false := by decide
    simp only [List.lookup_cons, hne, beq_self_eq_true]
  have hstatusLine : (utf8 "HTTP/1.1 " ++ status).drop (utf8 "HTTP/1.1 ").length = status :=
    List.drop_left
  rw [clientReads, HttpHead.cut_text (headLines_ne_nil _ _ _) (line_headLines hstatus htype length)]
  rw [headLines, List.tail_cons] at hfields
  simp only [headLines, hfields, hlookup, List.lookup_cons_self, if_neg hpage, Option.map_some,
    readDecimal_decimal, hstatusLine]

/-- A page is read when all of it has come. -/
theorem clientReads_respond {status contentType : Bytes} (hstatus : EventStream.Plain status)
    (htype : EventStream.Plain contentType) (hpage : contentType ≠ utf8 "text/event-stream")
    (body : Bytes) (n : ℕ) :
    clientReads ((respond status contentType body).take n) = some (.page status contentType body) ↔
      (respond status contentType body).length ≤ n := by
  rw [respond_eq]
  generalize hhead : HttpHead.text (headLines status contentType body.length) = head
  have hread (rest : Bytes) := clientReads_head hstatus htype hpage body.length rest
  rw [hhead] at hread
  rcases Nat.lt_or_ge n head.length with hshort | hlong
  · -- a part of the head
    have hnone : clientReads ((head ++ body).take n) = none := by
      rw [List.take_append_of_le_length hshort.le, clientReads, ← hhead,
        HttpHead.cut_take (headLines_ne_nil _ _ _) (line_headLines hstatus htype body.length)
          (hhead ▸ hshort)]
    rw [hnone, List.length_append]
    exact iff_of_false (fun h => nomatch h) (by omega)
  · have htake : (head ++ body).take n = head ++ body.take (n - head.length) := by
      rw [List.take_append, List.take_of_length_le hlong]
    rw [htake, hread, List.length_append, List.length_take]
    by_cases hwhole : body.length ≤ n - head.length
    · rw [List.take_of_length_le hwhole, Nat.min_eq_right hwhole, if_pos le_rfl, List.take_length]
      exact iff_of_true rfl (by omega)
    · rw [if_neg (by omega)]
      exact iff_of_false (fun h => nomatch h) (by omega)

theorem line_kSseHead : ∀ l ∈ [utf8 "HTTP/1.1 200 OK",
    utf8 "Content-Type" ++ (utf8 ": " ++ utf8 "text/event-stream"),
    utf8 "Cache-Control" ++ (utf8 ": " ++ utf8 "no-cache"),
    utf8 "Connection" ++ (utf8 ": " ++ utf8 "keep-alive")], HttpHead.Line l := by
  intro l hl
  simp only [List.mem_cons, List.not_mem_nil, or_false] at hl
  rcases hl with rfl | rfl | rfl | rfl <;> exact line_of_plain (by decide) (by decide)

theorem clientReads_kSseHead (n : ℕ) :
    clientReads (kSseHead.take n) = some .stream ↔ kSseHead.length ≤ n := by
  constructor
  · intro h
    refine Nat.le_of_not_lt fun hshort => ?_
    rw [kSseHead_eq] at h hshort
    rw [clientReads, HttpHead.cut_take (List.cons_ne_nil _ _) line_kSseHead hshort] at h
    cases h
  · intro h
    rw [List.take_of_length_le h]
    decide +kernel

/--
**Requests and responses.** Whatever a client asks for, in whatever chunks the request comes and
whatever follows it, the server sends a text from which the client reads the answer of its path,
exactly when `send` sends the whole text.
-/
theorem exchange_iff (s : HttpServer) (r : Request) {rest : Bytes} {cs : List Chunk}
    (hcs : received cs = r.text ++ rest) : ∃ text, s.serve (readRequestHead cs) = some text ∧
      ∀ n, clientReads (text.take n) = some (s.expected r.method r.target) ↔ text.length ≤ n := by
  have hrequest : (readRequestHead cs).bind requestOf = some (r.method, r.target) := by
    rw [readRequestHead_request r hcs, Option.bind_some, requestOf_line]
  unfold HttpServer.serve HttpServer.expected
  rw [hrequest]
  simp only
  split
  · exact ⟨_, rfl, clientReads_respond (by decide) (by decide) (by decide) _⟩
  split
  · exact ⟨_, rfl, clientReads_kSseHead⟩
  split
  · exact ⟨_, rfl, clientReads_respond (by decide) (by decide) (by decide) _⟩
  split
  · exact ⟨_, rfl, clientReads_respond (by decide) (by decide) (by decide) _⟩
  · exact ⟨_, rfl, clientReads_respond (by decide) (by decide) (by decide) _⟩

/-- A request for the page. -/
def getIndex : Request where
  method := utf8 "GET"
  target := utf8 "/"
  version := utf8 "HTTP/1.1"
  fields := [utf8 "Host: dts", utf8 "Accept: */*"]
  method_word := by decide
  target_line := by decide
  version_word := by decide
  fields_lines := by
    intro f hf
    simp only [List.mem_cons, List.not_mem_nil, or_false] at hf
    rcases hf with rfl | rfl <;> exact line_of_plain (by decide) (by decide)
  fits := by decide

/-- It comes in two chunks. -/
theorem exchange_getIndex : ∃ text, HttpServer.serve ⟨utf8 "<html></html>", none⟩ (readRequestHead
      [⟨getIndex.text.take 20, by decide, by decide⟩, ⟨getIndex.text.drop 20, by decide, by decide⟩])
        = some text ∧
    ∀ n, clientReads (text.take n) = some (.page (utf8 "200 OK") (utf8 "text/html; charset=utf-8")
      (utf8 "<html></html>")) ↔ text.length ≤ n := by
  have hexpected : HttpServer.expected ⟨utf8 "<html></html>", none⟩ getIndex.method getIndex.target =
      .page (utf8 "200 OK") (utf8 "text/html; charset=utf-8") (utf8 "<html></html>") := by
    decide
  rw [← hexpected]
  exact @exchange_iff _ getIndex [] _ (by decide)

end Dts.Web
