import Dts.Bucket.Transport

/-!
# Where a message goes

`Delivered` says that every message was appended to the segment that was linked under the name of
its port at that moment, and that a `send` that returned true has appended one for every port. That an
append recorded has put the message into the ring of its segment is `send_appends`.

The transport keeps a handle in `buckets_` for ever, and closing an input channel removes the name:
from then on the handle is of a segment without a name. `Delivered` holds exactly in the runs where
no message is written through such a handle, in particular where no input channel of a port is
closed while a live process has the port in `buckets_`.
-/

namespace Dts.Transport

open Infra

variable {s s' s'' t : World} {u : Nat} {pid : Nat → Pid} {payload : Bytes}

/-! ## The property -/

def World.Delivered (s : World) : Prop :=
  ∀ r ∈ s.sends, (∀ a ∈ r.appended, a.linked = some a.seg) ∧
    (r.result = true → ∀ port ∈ r.ports, ∃ a ∈ r.appended, a.port = port)

/-- The handle that transport `u` has for the port, if any, is of the linked segment. -/
def World.Fresh (s : World) (u : Nat) (port : UInt32) : Prop :=
  ∀ g, (s.transports u).buckets port = some g → s.names port = some g

/-- No message is written through a handle whose segment is not linked any more. -/
def NoStaleHandle (s : World) : Action → Prop
  | .sendMsg u _ ds => ∀ d ∈ ds, isLocatorSupported d.locator = true → d.written = true →
      s.Fresh u d.locator.port
  | _ => True

/-- No input channel is closed while a live process has a handle for its port. -/
def NoCloseWhileCached (pid : Nat → Pid) (s : World) : Action → Prop
  | .closeChannel u locator => (∃ channel ∈ (s.transports u).inputChannels, channel.1 = locator) →
      ∀ v, s.alive (pid v) = true → (s.transports v).buckets locator.port = none
  | _ => True

/-! ## Handles -/

/-- What a send by `u` does to the rest of the world: handles are only added, of linked segments. -/
structure Caching (u : Nat) (s s' : World) : Prop where
  names : s'.names = s.names
  alive : s'.alive = s.alive
  sends : s'.sends = s.sends
  kept : ∀ port g, (s.transports u).buckets port = some g →
    (s'.transports u).buckets port = some g
  cached : ∀ v port g, (s'.transports v).buckets port = some g →
    (s.transports v).buckets port = some g ∨ s.names port = some g

theorem Caching.refl (u : Nat) (s : World) : Caching u s s :=
  ⟨rfl, rfl, rfl, fun _ _ h => h, fun _ _ _ h => Or.inl h⟩

theorem Caching.trans (h : Caching u s s') (h' : Caching u s' s'') : Caching u s s'' where
  names := h'.names.trans h.names
  alive := h'.alive.trans h.alive
  sends := h'.sends.trans h.sends
  kept := fun port g hg => h'.kept port g (h.kept port g hg)
  cached := fun v port g hg => by
    rcases h'.cached v port g hg with hg | hg
    · exact h.cached v port g hg
    · exact Or.inr (h.names ▸ hg)

theorem caching_openBucket (s : World) (u : Nat) (port : UInt32) :
    Caching u s (openBucket s u port).2 := by
  unfold openBucket
  simp only
  split
  · exact Caching.refl u s
  · rename_i hnone
    split
    · exact Caching.refl u s
    · rename_i g hname
      refine ⟨rfl, rfl, rfl, fun p x hx => ?_, fun v p x hx => ?_⟩
      · have hne : p ≠ port := by
          rintro rfl
          rw [hnone] at hx
          cases hx
        simpa [World.setTransport, Function.update_of_ne hne] using hx
      · rcases eq_or_ne v u with rfl | hv
        · rcases eq_or_ne p port with rfl | hp
          · have hgx : g = x := by simpa [World.setTransport] using hx
            exact Or.inr (hgx ▸ hname)
          · exact Or.inl (by simpa [World.setTransport, Function.update_of_ne hp] using hx)
        · exact Or.inl (by simpa [World.setTransport, Function.update_of_ne hv] using hx)

/-- The segment a port is opened to: the cached one, else the linked one. -/
theorem openBucket_some {port : UInt32} {g : SegId} (h : openBucket s u port = (some g, s')) :
    (s.transports u).buckets port = some g ∨ s.names port = some g := by
  unfold openBucket at h
  simp only at h
  split at h
  · rename_i hsome
    cases h
    exact Or.inl hsome
  · split at h
    · cases h
    · rename_i hname
      cases h
      exact Or.inr hname

theorem openBucket_cached {port : UInt32} {g : SegId}
    (h : (s.transports u).buckets port = some g) : openBucket s u port = (some g, s) := by
  unfold openBucket
  simp only [h]

/-! ## The loop of `send` -/

theorem caching_sendTo (s : World) (u : Nat) (payload : Bytes) (d : Destination) :
    Caching u s (sendTo s u payload d).world := by
  have hopen := caching_openBucket s u d.locator.port
  unfold sendTo
  split
  · exact Caching.refl u s
  · split
    · rename_i heq
      rw [heq] at hopen
      exact hopen
    · rename_i heq
      rw [heq] at hopen
      split
      · exact ⟨hopen.names, hopen.alive, hopen.sends, hopen.kept, hopen.cached⟩
      · exact hopen

theorem caching_sendAll (u : Nat) (payload : Bytes) (s : World) (ds : List Destination) :
    Caching u s (sendAll u payload s ds).world := by
  induction ds generalizing s with
  | nil => exact Caching.refl u s
  | cons d ds ih => exact (caching_sendTo s u payload d).trans (ih _)

/-- An append goes to the cached or to the linked segment of a written destination. -/
theorem mem_sendTo {d : Destination} {a : Appended} (ha : a ∈ (sendTo s u payload d).appended) :
    (isLocatorSupported d.locator = true ∧ d.written = true ∧ d.locator.port = a.port) ∧
      a.linked = s.names a.port ∧
      ((s.transports u).buckets a.port = some a.seg ∨ s.names a.port = some a.seg) := by
  unfold sendTo at ha
  split at ha
  · cases ha
  · rename_i hsupported
    split at ha
    · cases ha
    · rename_i hopen
      split at ha
      · rename_i hwritten
        cases List.mem_singleton.mp ha
        exact ⟨⟨by simpa using hsupported, hwritten, rfl⟩, rfl, openBucket_some hopen⟩
      · cases ha

theorem mem_sendAll {ds : List Destination} {a : Appended}
    (ha : a ∈ (sendAll u payload s ds).appended) :
    (∃ d ∈ ds, isLocatorSupported d.locator = true ∧ d.written = true ∧ d.locator.port = a.port) ∧
      a.linked = s.names a.port ∧
      ((s.transports u).buckets a.port = some a.seg ∨ s.names a.port = some a.seg) := by
  induction ds generalizing s with
  | nil => cases ha
  | cons d ds ih =>
    rcases List.mem_append.mp ha with ha | ha
    · obtain ⟨hd, hrest⟩ := mem_sendTo ha
      exact ⟨⟨d, List.mem_cons_self, hd⟩, hrest⟩
    -- a handle cached on the way is of a linked segment
    · have hcaching := caching_sendTo s u payload d
      obtain ⟨⟨x, hx, hd⟩, hlinked, hseg⟩ := ih ha
      refine ⟨⟨x, List.mem_cons_of_mem _ hx, hd⟩, by rw [hlinked, hcaching.names], ?_⟩
      rcases hseg with hseg | hseg
      · exact hcaching.cached u _ _ hseg
      · exact Or.inr (hcaching.names ▸ hseg)

/-- A written destination with a cached handle is written through it. -/
theorem sendTo_cached {d : Destination} {g : SegId} (hsupported : isLocatorSupported d.locator = true)
    (hwritten : d.written = true) (hg : (s.transports u).buckets d.locator.port = some g) :
    ⟨d.locator.port, g, s.names d.locator.port⟩ ∈ (sendTo s u payload d).appended := by
  simp [sendTo, hsupported, openBucket_cached hg, hwritten]

theorem sendAll_cached {ds : List Destination} {d : Destination} {g : SegId} (hd : d ∈ ds)
    (hsupported : isLocatorSupported d.locator = true) (hwritten : d.written = true)
    (hg : (s.transports u).buckets d.locator.port = some g) :
    ⟨d.locator.port, g, s.names d.locator.port⟩ ∈ (sendAll u payload s ds).appended := by
  induction ds generalizing s with
  | nil => cases hd
  | cons x ds ih =>
    rcases List.mem_cons.mp hd with rfl | hd
    · exact List.mem_append_left _ (sendTo_cached hsupported hwritten hg)
    · have hcaching := caching_sendTo s u payload x
      have hmem := ih hd (hcaching.kept _ _ hg)
      rw [hcaching.names] at hmem
      exact List.mem_append_right _ hmem

/-- A destination that does not make the result false is appended to. -/
theorem sendTo_ret {d : Destination} (hret : (sendTo s u payload d).ret = true)
    (hsupported : isLocatorSupported d.locator = true) :
    ∃ a ∈ (sendTo s u payload d).appended, a.port = d.locator.port := by
  rcases hopen : openBucket s u d.locator.port with ⟨_ | g, s'⟩
  · simp [sendTo, hsupported, hopen] at hret
  · have hwritten : d.written = true := by
      by_contra hne
      simp [sendTo, hsupported, hopen, hne] at hret
    refine ⟨⟨d.locator.port, g, s.names d.locator.port⟩, ?_, rfl⟩
    simp [sendTo, hsupported, hopen, hwritten]

theorem sendAll_ret {ds : List Destination} (hret : (sendAll u payload s ds).ret = true) :
    ∀ port ∈ portsOf ds, ∃ a ∈ (sendAll u payload s ds).appended, a.port = port := by
  induction ds generalizing s with
  | nil =>
    intro port hport
    cases hport
  | cons d ds ih =>
    intro port hport
    obtain ⟨hfirst, hrest⟩ := Bool.and_eq_true_iff.mp hret
    have hcases : (isLocatorSupported d.locator = true ∧ d.locator.port = port) ∨
        port ∈ portsOf ds := by
      obtain ⟨x, hx, rfl⟩ := List.mem_map.mp hport
      obtain ⟨hx, hsupported⟩ := List.mem_filter.mp hx
      rcases List.mem_cons.mp hx with rfl | hx
      · exact Or.inl ⟨hsupported, rfl⟩
      · exact Or.inr (List.mem_map_of_mem (List.mem_filter.mpr ⟨hx, hsupported⟩))
    rcases hcases with ⟨hsupported, rfl⟩ | hport
    · obtain ⟨a, ha, hp⟩ := sendTo_ret hfirst hsupported
      exact ⟨a, List.mem_append_left _ ha, hp⟩
    · obtain ⟨a, ha, hp⟩ := ih hrest port hport
      exact ⟨a, List.mem_append_right _ ha, hp⟩

theorem segs_openBucket (s : World) (u : Nat) (port : UInt32) :
    (openBucket s u port).2.segs = s.segs := by
  unfold openBucket
  simp only
  split
  · rfl
  · split <;> rfl

theorem messages_append (s : World) (g x : SegId) (payload : Bytes) :
    (s.segs x).messages <+: ((append s g payload).segs x).messages := by
  rcases eq_or_ne x g with rfl | hne
  · simp [append, World.setBucket]
  · simp [append, World.setBucket, Function.update_of_ne hne]

theorem messages_sendTo (s : World) (u : Nat) (payload : Bytes) (d : Destination) (x : SegId) :
    (s.segs x).messages <+: ((sendTo s u payload d).world.segs x).messages := by
  have hopen := segs_openBucket s u d.locator.port
  unfold sendTo
  split
  · exact List.prefix_rfl
  · split <;> rename_i heq <;> rw [heq] at hopen
    · exact hopen ▸ List.prefix_rfl
    · rw [← hopen]
      split
      · exact messages_append _ _ x payload
      · exact List.prefix_rfl

/-- The rings only grow. -/
theorem messages_sendAll (s : World) (ds : List Destination) (x : SegId) :
    (s.segs x).messages <+: ((sendAll u payload s ds).world.segs x).messages := by
  induction ds generalizing s with
  | nil => exact List.prefix_rfl
  | cons d ds ih => exact (messages_sendTo s u payload d x).trans (ih _)

theorem mem_messages_sendTo {d : Destination} {a : Appended}
    (ha : a ∈ (sendTo s u payload d).appended) :
    payload ∈ ((sendTo s u payload d).world.segs a.seg).messages := by
  rcases hopen : openBucket s u d.locator.port with ⟨_ | g, s'⟩
  · rcases hsupported : isLocatorSupported d.locator <;> simp [sendTo, hsupported, hopen] at ha
  · rcases hsupported : isLocatorSupported d.locator
    · simp [sendTo, hsupported] at ha
    · rcases hwritten : d.written
      · simp [sendTo, hsupported, hopen, hwritten] at ha
      · simp only [sendTo, hsupported, hopen, hwritten] at ha ⊢
        cases List.mem_singleton.mp ha
        simp [append, World.setBucket]

/-- Every append recorded put the message into the ring of its segment. -/
theorem mem_messages_sendAll {ds : List Destination} {a : Appended}
    (ha : a ∈ (sendAll u payload s ds).appended) :
    payload ∈ ((sendAll u payload s ds).world.segs a.seg).messages := by
  induction ds generalizing s with
  | nil => cases ha
  | cons d ds ih =>
    rcases List.mem_append.mp ha with ha | ha
    · exact (messages_sendAll _ ds a.seg).subset (mem_messages_sendTo ha)
    · exact ih ha

/-! ## One `send` -/

/-- The record that a `send` adds to the history. -/
theorem send_sends (s : World) (u : Nat) (payload : Bytes) (ds : List Destination) :
    (send s u payload ds).2.sends = s.sends ++
      [⟨payload, portsOf ds, (sendAll u payload s ds).appended, (sendAll u payload s ds).ret⟩] := by
  rw [send, (caching_sendAll u payload s ds).sends]

/-- **One call.** A message recorded as appended is in the ring of its segment. -/
theorem send_appends {ds : List Destination} {a : Appended}
    (ha : a ∈ (sendAll u payload s ds).appended) :
    payload ∈ ((send s u payload ds).2.segs a.seg).messages := mem_messages_sendAll ha

/-- **One call.** With fresh handles a `send` keeps the property. -/
theorem send_delivered (h : s.Delivered) {ds : List Destination}
    (hfresh : NoStaleHandle s (.sendMsg u payload ds)) : (send s u payload ds).2.Delivered := by
  intro r hr
  rw [send_sends] at hr
  rcases List.mem_append.mp hr with hr | hr
  · exact h r hr
  · cases List.mem_singleton.mp hr
    refine ⟨fun a ha => ?_, fun hret => sendAll_ret hret⟩
    obtain ⟨⟨d, hd, hsupported, hwritten, hport⟩, hlinked, hseg⟩ := mem_sendAll ha
    rw [hlinked]
    rcases hseg with hseg | hseg
    · have hd := hfresh d hd hsupported hwritten
      rw [hport] at hd
      exact hd a.seg hseg
    · exact hseg

/-- **One call.** A write through a stale handle breaks the property. -/
theorem noStaleHandle_of_delivered {ds : List Destination}
    (h : (send s u payload ds).2.Delivered) : NoStaleHandle s (.sendMsg u payload ds) := by
  intro d hd hsupported hwritten g hg
  refine (h _ (by rw [send_sends]; exact List.mem_append_right _ (List.mem_singleton.mpr rfl))).1
    ⟨d.locator.port, g, s.names d.locator.port⟩ ?_
  exact sendAll_cached hd hsupported hwritten hg

/-! ## Opening and closing a channel -/

/-- What opening a channel does: free names are linked, nothing else that a writer sees changes. -/
structure Opening (s s' : World) : Prop where
  alive : s'.alive = s.alive
  sends : s'.sends = s.sends
  names : ∀ port g, s.names port = some g → s'.names port = some g
  buckets : ∀ v, (s'.transports v).buckets = (s.transports v).buckets

theorem Opening.refl (s : World) : Opening s s := ⟨rfl, rfl, fun _ _ h => h, fun _ => rfl⟩

theorem opening_create (s : World) {port : UInt32} (hfree : s.names port = none) :
    Opening s (create s port).2 := by
  refine ⟨rfl, rfl, fun p g hg => ?_, fun _ => rfl⟩
  have hne : p ≠ port := by
    rintro rfl
    rw [hfree] at hg
    cases hg
  simpa [create, World.setName, World.setBucket, Function.update_of_ne hne] using hg

theorem opening_claimOwnership (s : World) (g : SegId) (me : Pid) :
    Opening s (claimOwnership s g me).2 := by
  unfold claimOwnership
  simp only
  split
  · exact ⟨rfl, rfl, fun _ _ h => h, fun _ => rfl⟩
  · exact Opening.refl s

theorem opening_createChannel (s : World) (me : Pid) (locator : Locator) (shm : Bool) :
    Opening s (createChannel s me locator shm).2 := by
  unfold createChannel
  split
  · exact Opening.refl s
  · split
    · rename_i hfree
      exact opening_create s hfree
    · rename_i g _
      have hclaim := opening_claimOwnership s g me
      split <;> rename_i heq <;> rw [heq] at hclaim <;> exact hclaim

theorem Opening.setTransport (h : Opening s s') (u : Nat) (channels : List (Locator × SegId)) :
    Opening s (s'.setTransport u ⟨channels, (s.transports u).buckets⟩) := by
  refine ⟨h.alive, h.sends, h.names, ?_⟩
  intro v
  rcases eq_or_ne v u with rfl | hne
  · simp [World.setTransport]
  · simpa [World.setTransport, Function.update_of_ne hne] using h.buckets v

theorem opening_openInputChannel (s : World) (u : Nat) (me : Pid) (locator : Locator)
    (shm : Bool) : Opening s (openInputChannel s u me locator shm).2 := by
  have hcreate := opening_createChannel s me locator shm
  unfold openInputChannel
  simp only
  split
  · exact Opening.refl s
  · split
    · exact Opening.refl s
    · split <;> rename_i heq <;> rw [heq] at hcreate
      · exact hcreate.setTransport u _
      · exact hcreate

theorem closeInputChannel_sends (s : World) (u : Nat) (locator : Locator) :
    (closeInputChannel s u locator).2.sends = s.sends := by
  unfold closeInputChannel
  simp only
  split <;> rfl

theorem caching_isLocatorReachable (s : World) (u : Nat) (locator : Locator) :
    Caching u s (isLocatorReachable s u locator).2 := by
  unfold isLocatorReachable
  split
  · exact Caching.refl u s
  · exact caching_openBucket s u locator.port

/-! ## Runs -/

/-- Calls other than `send` leave the history as it is. -/
theorem act_delivered {a : Action} (h : s.Delivered) (hstep : act pid s a = some t)
    (hfresh : NoStaleHandle s a) : t.Delivered := by
  cases a with
  | sendMsg u payload ds =>
    simp only [act] at hstep
    split at hstep <;> cases hstep
    exact send_delivered h hfresh
  | openChannel u locator shm =>
    simp only [act] at hstep
    split at hstep <;> cases hstep
    rw [World.Delivered, (opening_openInputChannel s u (pid u) locator shm).sends]
    exact h
  | closeChannel u locator =>
    simp only [act] at hstep
    split at hstep <;> cases hstep
    rw [World.Delivered, closeInputChannel_sends]
    exact h
  | reach u locator =>
    simp only [act] at hstep
    split at hstep <;> cases hstep
    rw [World.Delivered, (caching_isLocatorReachable s u locator).sends]
    exact h
  | die p =>
    cases hstep
    exact h

theorem noStaleHandle_of_act {a : Action} (hstep : act pid s a = some t) (h : t.Delivered) :
    NoStaleHandle s a := by
  cases a with
  | sendMsg u payload ds =>
    simp only [act] at hstep
    split at hstep <;> cases hstep
    exact noStaleHandle_of_delivered h
  | _ => trivial

/-- Every handle of a live process is of a linked segment. -/
def HandlesLinked (pid : Nat → Pid) (s : World) : Prop :=
  ∀ v, s.alive (pid v) = true → ∀ port, s.Fresh v port

theorem Caching.handlesLinked (hs : HandlesLinked pid s) (h : Caching u s s') :
    HandlesLinked pid s' := by
  intro v hv port g hg
  rw [h.alive] at hv
  rw [h.names]
  exact (h.cached v port g hg).elim (hs v hv port g) id

theorem Opening.handlesLinked (hs : HandlesLinked pid s) (h : Opening s s') :
    HandlesLinked pid s' := by
  intro v hv port g hg
  rw [h.alive] at hv
  rw [h.buckets] at hg
  exact h.names port g (hs v hv port g hg)

/-- A close of a port that no live process has cached leaves all handles linked. -/
theorem closeInputChannel_handlesLinked {locator : Locator} (hs : HandlesLinked pid s)
    (hclose : NoCloseWhileCached pid s (.closeChannel u locator)) :
    HandlesLinked pid (closeInputChannel s u locator).2 := by
  unfold closeInputChannel
  simp only
  split
  · rename_i hany
    obtain ⟨channel, hmem, heq⟩ := List.any_eq_true.mp hany
    have hnone := hclose ⟨channel, hmem, of_decide_eq_true heq⟩
    intro v hv port g hg
    -- closing changes the channels of one transport and no handle
    have hg : (s.transports v).buckets port = some g := by
      rcases eq_or_ne v u with rfl | hne
      · simpa [World.setTransport, World.setName] using hg
      · simpa [World.setTransport, World.setName, Function.update_of_ne hne] using hg
    have hport : port ≠ locator.port := by
      rintro rfl
      rw [hnone v hv] at hg
      cases hg
    have hname := hs v hv port g hg
    simpa [World.setTransport, World.setName, Function.update_of_ne hport] using hname
  · exact hs

theorem act_handlesLinked {a : Action} (hs : HandlesLinked pid s) (hstep : act pid s a = some t)
    (hclose : NoCloseWhileCached pid s a) : HandlesLinked pid t := by
  cases a with
  | sendMsg u payload ds =>
    simp only [act] at hstep
    split at hstep <;> cases hstep
    have hout : HandlesLinked pid (sendAll u payload s ds).world :=
      (caching_sendAll u payload s ds).handlesLinked hs
    exact hout
  | openChannel u locator shm =>
    simp only [act] at hstep
    split at hstep <;> cases hstep
    exact (opening_openInputChannel s u (pid u) locator shm).handlesLinked hs
  | closeChannel u locator =>
    simp only [act] at hstep
    split at hstep <;> cases hstep
    exact closeInputChannel_handlesLinked hs hclose
  | reach u locator =>
    simp only [act] at hstep
    split at hstep <;> cases hstep
    exact (caching_isLocatorReachable s u locator).handlesLinked hs
  | die p =>
    cases hstep
    intro v hv port
    refine hs v ?_ port
    rcases eq_or_ne (pid v) p with heq | hne
    · simp [heq] at hv
    · simpa [Function.update_of_ne hne] using hv

/-- A process that sends is alive, so its handles are fresh. -/
theorem noStaleHandle_of_handlesLinked {a : Action} (hs : HandlesLinked pid s)
    (hstep : act pid s a = some t) : NoStaleHandle s a := by
  cases a with
  | sendMsg u payload ds =>
    simp only [act] at hstep
    split at hstep <;> cases hstep
    rename_i halive
    exact fun d _ _ _ => hs u halive d.locator.port
  | _ => trivial

/--
**Where messages go.** For any processes and any sequence of their calls: every message was
appended to the segment then linked under its port, and successful sends appended to every port,
exactly when no message was written through a handle of an unlinked segment. That is so when no
input channel of a port is closed while a live process has a handle for the port.
-/
theorem delivered_iff (pid : Nat → Pid) (run : List Action) :
    (AllStates (act pid) World.Delivered World.init run ↔
      AllSteps (act pid) NoStaleHandle World.init run) ∧
    (AllSteps (act pid) (NoCloseWhileCached pid) World.init run →
      AllStates (act pid) World.Delivered World.init run) := by
  have hinit : World.init.Delivered := fun r hr => by cases hr
  constructor
  · exact allStates_iff_allSteps _ (fun _ h => h) (fun _ _ _ h hstep hc => act_delivered h hstep hc)
      (fun _ _ _ _ hstep ht => noStaleHandle_of_act hstep ht) run _ hinit
  · refine allStates_of_allSteps (fun s => s.Delivered ∧ HandlesLinked pid s)
      (fun _ h => h.1) (fun s a t h hstep hc => ?_) run _ ⟨hinit, fun v _ port g hg => ?_⟩
    · have hstale := noStaleHandle_of_handlesLinked h.2 hstep
      exact ⟨act_delivered h.1 hstep hstale, act_handlesLinked h.2 hstep hc⟩
    · cases hg

/-- The reader of port 7000 closes its channel after the writer has opened the segment. -/
def sendAfterClose : List Action :=
  let reader : Locator := ⟨kBucketLocatorKind, 7000, 85⟩
  [.openChannel 0 reader true, .sendMsg 1 [1] [⟨reader, true⟩], .closeChannel 0 reader,
    .sendMsg 1 [2] [⟨reader, true⟩]]

/-- The second `send` returns true and appends to a segment without a name. -/
theorem send_to_unlinked_segment : ¬ ∀ (pid : Nat → Pid) (run : List Action),
    AllStates (act pid) World.Delivered World.init run := by
  intro hclaim
  have hend : (exec (act id) World.init sendAfterClose).map (fun t => t.sends.map fun r =>
      (r.result, r.appended)) = some [(true, [⟨7000, 0, some 0⟩]), (true, [⟨7000, 0, none⟩])] := by
    decide +kernel
  obtain ⟨t, ht, hval⟩ := Option.map_eq_some_iff.mp hend
  have hdelivered := (hclaim id sendAfterClose).last ht
  have hmem : (true, [⟨7000, 0, none⟩]) ∈ t.sends.map fun r => (r.result, r.appended) := by
    rw [hval]
    simp
  obtain ⟨r, hr, heq⟩ := List.mem_map.mp hmem
  have happended : r.appended = [⟨7000, 0, none⟩] := (Prod.mk.inj heq).2
  have hlinked := (hdelivered r hr).1 ⟨7000, 0, none⟩ (by simp [happended])
  cases hlinked

end Dts.Transport
