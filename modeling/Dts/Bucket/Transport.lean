import Dts.Infra.Bytes
import Dts.Infra.Run
import Mathlib.Logic.Function.Basic

/-!
# Bucket transport

The processes that use buckets, the shared-memory names, and the segments behind them. A reader
opens an input channel: it creates the segment of its port, or opens and claims an existing one. A
writer opens the segment of a port at its first message and keeps the handle in `buckets_`.

The name of a port's segment is `/bucket_<port>`, so `names` is indexed by the port. A segment lives
on while somebody has it mapped, whether or not a name is linked to it.
-/

namespace Dts.Transport

open Infra

abbrev SegId := Nat

abbrev Pid := Nat

/-- The kind of the locators of this transport. -/
def kBucketLocatorKind : Int := 32

/-- `address` is the first byte of the locator's address, `U` or `M`. -/
structure Locator where
  kind : Int
  port : UInt32
  address : UInt8
  deriving DecidableEq

/-- What the transport uses of a segment: the owner process and the messages in its ring. -/
structure Bucket where
  ownerPid : Option Pid
  messages : List Bytes

/-- The state of one transport that the calls below use. -/
structure BucketTransport where
  inputChannels : List (Locator × SegId)
  buckets : UInt32 → Option SegId

/-- A message appended to `seg`, when `linked` was the segment under the name of its port. -/
structure Appended where
  port : UInt32
  seg : SegId
  linked : Option SegId
  deriving DecidableEq

/-- A call of `send`: the ports it was for, what it appended, and its result. -/
structure Sent where
  payload : Bytes
  ports : List UInt32
  appended : List Appended
  result : Bool

/-- The system. `sends` is the history of the `send` calls. -/
structure World where
  names : UInt32 → Option SegId
  segs : SegId → Bucket
  next : SegId
  alive : Pid → Bool
  transports : Nat → BucketTransport
  sends : List Sent

/-- No segment yet. -/
def World.init : World where
  names := fun _ => none
  segs := fun _ => ⟨none, []⟩
  next := 0
  alive := fun _ => true
  transports := fun _ => ⟨[], fun _ => none⟩
  sends := []

namespace World

def setTransport (s : World) (t : Nat) (transport : BucketTransport) : World :=
  { s with transports := Function.update s.transports t transport }

def setBucket (s : World) (g : SegId) (bucket : Bucket) : World :=
  { s with segs := Function.update s.segs g bucket }

def setName (s : World) (port : UInt32) (linked : Option SegId) : World :=
  { s with names := Function.update s.names port linked }

end World

/-! ## Segments -/

/-- `BucketSegment::Create` under a free name. -/
def create (s : World) (port : UInt32) : SegId × World :=
  let s' := (s.setBucket s.next ⟨none, []⟩).setName port (some s.next)
  (s.next, { s' with next := s.next + 1 })

/-- `ClaimOwnership` by process `me`: take a segment without a live owner and reset its ring. -/
def claimOwnership (s : World) (g : SegId) (me : Pid) : Bool × World :=
  let owner := (s.segs g).ownerPid
  let ownerDead := owner.any fun pid => pid != me && !s.alive pid
  if owner = none || ownerDead then (true, s.setBucket g ⟨some me, []⟩)
  else (owner = some me, s)

/-! ## Input channels -/

/-- Locators of another kind are left to other transports. -/
def isLocatorSupported (locator : Locator) : Bool := locator.kind = kBucketLocatorKind

/--
The constructor of `BucketChannelResource`; `none` when it throws. `shm` says whether the calls of
the system for shared memory succeed.
-/
def createChannel (s : World) (me : Pid) (locator : Locator) (shm : Bool) :
    Option SegId × World :=
  if !shm then (none, s)
  else
    match s.names locator.port with
    | none =>
      let (g, s') := create s locator.port
      (some g, s')
    | some g =>
      match claimOwnership s g me with
      | (true, s') => (some g, s')
      | (false, s') => (none, s')

/-- `shm` says whether the segment of the port could be created or opened. -/
def openInputChannel (s : World) (t : Nat) (me : Pid) (locator : Locator) (shm : Bool) :
    Bool × World :=
  let transport := s.transports t
  if !isLocatorSupported locator then (false, s)
  else if transport.inputChannels.any fun channel => channel.1 = locator then (true, s)
  else
    match createChannel s me locator shm with
    | (some g, s') =>
      let channels := transport.inputChannels ++ [(locator, g)]
      (true, s'.setTransport t { transport with inputChannels := channels })
    | (none, s') => (false, s')

/-- `delete` of the channel stops its thread and removes the name of its port. -/
def closeInputChannel (s : World) (t : Nat) (locator : Locator) : Bool × World :=
  let transport := s.transports t
  if transport.inputChannels.any fun channel => channel.1 = locator then
    let channels := transport.inputChannels.eraseP fun channel => channel.1 = locator
    let s' := s.setName locator.port none
    (true, s'.setTransport t { transport with inputChannels := channels })
  else (false, s)

/-! ## Sending -/

/-- `open_bucket`: the cached handle, else open the name and cache it. -/
def openBucket (s : World) (t : Nat) (port : UInt32) : Option SegId × World :=
  let transport := s.transports t
  match transport.buckets port with
  | some g => (some g, s)
  | none =>
    match s.names port with
    | none => (none, s)
    | some g =>
      let buckets := Function.update transport.buckets port (some g)
      (some g, s.setTransport t { transport with buckets := buckets })

/-- A port is reachable when its segment can be opened; the handle is kept. -/
def isLocatorReachable (s : World) (t : Nat) (locator : Locator) : Bool × World :=
  if !isLocatorSupported locator then (false, s)
  else
    let (segment, s') := openBucket s t locator.port
    (segment.isSome, s')

/-- A destination of `send`, and whether `Write` returns true there. -/
structure Destination where
  locator : Locator
  written : Bool

/-- The append that a successful `Write` makes. -/
def append (s : World) (g : SegId) (payload : Bytes) : World :=
  s.setBucket g { s.segs g with messages := (s.segs g).messages ++ [payload] }

/-- What a part of the loop in `send` leaves. -/
structure Outcome where
  ret : Bool
  appended : List Appended
  world : World

/-- The body of the loop in `send`. -/
def sendTo (s : World) (t : Nat) (payload : Bytes) (d : Destination) : Outcome :=
  if !isLocatorSupported d.locator then ⟨true, [], s⟩
  else
    match openBucket s t d.locator.port with
    | (none, s') => ⟨false, [], s'⟩
    | (some g, s') =>
      if d.written then
        ⟨true, [⟨d.locator.port, g, s.names d.locator.port⟩], append s' g payload⟩
      else ⟨false, [], s'⟩

/-- The loop over the destinations. -/
def sendAll (t : Nat) (payload : Bytes) : World → List Destination → Outcome
  | s, [] => ⟨true, [], s⟩
  | s, d :: ds =>
    let first := sendTo s t payload d
    let rest := sendAll t payload first.world ds
    ⟨first.ret && rest.ret, first.appended ++ rest.appended, rest.world⟩

/-- The ports of the destinations that the transport supports. -/
def portsOf (ds : List Destination) : List UInt32 :=
  (ds.filter fun d => isLocatorSupported d.locator).map fun d => d.locator.port

def send (s : World) (t : Nat) (payload : Bytes) (ds : List Destination) : Bool × World :=
  let out := sendAll t payload s ds
  let sent : Sent := ⟨payload, portsOf ds, out.appended, out.ret⟩
  (out.ret, { out.world with sends := out.world.sends ++ [sent] })

/-! ## Runs -/

/-- Calls of the transports, and the death of a process. -/
inductive Action
  | openChannel (t : Nat) (locator : Locator) (shm : Bool)
  | closeChannel (t : Nat) (locator : Locator)
  | reach (t : Nat) (locator : Locator)
  | sendMsg (t : Nat) (payload : Bytes) (ds : List Destination)
  | die (pid : Pid)

/-- One call by a live process; `pid t` is the process of transport `t`. -/
def act (pid : Nat → Pid) (s : World) : Action → Option World
  | .openChannel t locator shm =>
    if s.alive (pid t) then some (openInputChannel s t (pid t) locator shm).2 else none
  | .closeChannel t locator =>
    if s.alive (pid t) then some (closeInputChannel s t locator).2 else none
  | .reach t locator =>
    if s.alive (pid t) then some (isLocatorReachable s t locator).2 else none
  | .sendMsg t payload ds =>
    if s.alive (pid t) then some (send s t payload ds).2 else none
  | .die p => some { s with alive := Function.update s.alive p false }

end Dts.Transport
