import Dts.Console.Ctl
import Dts.Infra.Run
import Dts.Infra.Select
import Mathlib.Data.Prod.Lex

/-!
# Rotating log files

`ts_rotating_sink.cpp`. A sink writes messages to a file named after the time at which it was opened.
When the file has reached `maxSize` the sink opens another one and then removes the oldest files of its
directory until all of them together are no larger than `maxTotal`.

`sink_it_` runs under the mutex of the sink and has three steps here: make sure that a file is open,
write, rotate. What the operating system answers is part of the action.
-/

namespace Dts.Log

open Infra Ctl

/-! ## Paths -/

def slash : UInt8 := 47

/-- A `std::filesystem::path`: whether it starts at the root, and its elements. -/
structure FsPath where
  root : Bool
  elements : List Bytes
  deriving DecidableEq

/-- Repeated slashes count once; a slash at the end is followed by an empty element. -/
def FsPath.parse (text : Bytes) : FsPath where
  root := text.head? == some slash
  elements :=
    let parts := text.splitOn slash
    parts.dropLast.filter (fun e => !e.isEmpty) ++ [parts.getLastD []]

def FsPath.filename (p : FsPath) : Bytes := p.elements.getLastD []

/-- A file on disk, as `directory_iterator` finds it. -/
structure File where
  path : FsPath
  regular : Bool
  size : UInt64
  mtime : Int
  deriving DecidableEq

/-! ## The sink -/

structure TsRotatingSink where
  dir : Bytes
  namePrefix : Bytes
  tsFmt : Bytes
  maxSize : UInt64
  maxTotal : UInt64
  currentPath : Bytes := []
  /-- `m_file` is not null -/
  file : Bool := false
  bytes : Nat := 0
  openFailed : Bool := false

def kDefaultTsFmt : Bytes := utf8 "%Y%m%d%H%M%S"

def kThreadName : Bytes := utf8 "dts"

/-- Replace the first pair of braces by the thread name. -/
def replaceBraces : Bytes → Bytes
  | 123 :: 125 :: rest => kThreadName ++ rest
  | b :: rest => b :: replaceBraces rest
  | [] => []

namespace TsRotatingSink

/-- The constructor: the pattern is cut at its first `%`. -/
def make (dir namePattern : Bytes) (maxSizeMb maxTotalMb : UInt64) : TsRotatingSink where
  dir := dir
  namePrefix := replaceBraces (namePattern.takeWhile fun b => b != 37)
  tsFmt :=
    let fmt := namePattern.dropWhile fun b => b != 37
    if fmt.isEmpty then kDefaultTsFmt else fmt
  maxSize := maxSizeMb * 1024 * 1024
  maxTotal := maxTotalMb * 1024 * 1024

/-! ## Eviction -/

def logExt : Bytes := utf8 ".log"

/-- The files that `EvictOldestIfNeeded` counts. -/
def isOwn (s : TsRotatingSink) (f : File) : Bool :=
  let fn := f.path.filename
  let hasExt := decide (4 ≤ fn.length) && fn.drop (fn.length - 4) == logExt
  f.regular && (s.namePrefix.isPrefixOf fn && hasExt)

def isCurrent (s : TsRotatingSink) (f : File) : Bool :=
  !s.currentPath.isEmpty && f.path == FsPath.parse s.currentPath

/-- The comparison: the current file comes last, the others by time. -/
def before (s : TsRotatingSink) (a b : File) : Bool :=
  if s.isCurrent a ≠ s.isCurrent b then s.isCurrent b else decide (a.mtime < b.mtime)

/-- The loop: the files it removes, in order. `remove` is whether `fs::remove` succeeds. -/
def evictLoop (s : TsRotatingSink) (remove : File → Bool) (total : UInt64) (files : List File) :
    List File :=
  if s.maxTotal < total then
    match _h : minElement s.before files with
    | none => []
    | some oldest =>
      if s.isCurrent oldest then []
      else if remove oldest then
        oldest :: s.evictLoop remove (total - oldest.size) (files.erase oldest)
      else s.evictLoop remove total (files.erase oldest)
  else []
termination_by files.length
decreasing_by all_goals exact length_erase_minElement_lt _h

/-- The files that are removed from a directory with these entries. -/
def evictOldestIfNeeded (s : TsRotatingSink) (remove : File → Bool) (entries : List File) :
    List File :=
  let files := entries.filter s.isOwn
  let total := files.foldl (fun total f => total + f.size) 0
  s.evictLoop remove total files

/-! ## Opening -/

def pathName (s : TsRotatingSink) (ts : Bytes) (seq : Nat) : Bytes :=
  let path := s.dir ++ slash :: s.namePrefix ++ ts
  let path := if 0 < seq then path ++ utf8 "-" ++ decimal seq else path
  path ++ logExt

/-- The loop over the numbers: go on while the path is the current one, `left` more times at most. -/
def pickFrom (s : TsRotatingSink) (ts : Bytes) : Nat → Nat → Bytes
  | 0, seq => s.pathName ts seq
  | left + 1, seq =>
    if s.pathName ts seq = s.currentPath then s.pickFrom ts left (seq + 1) else s.pathName ts seq

/-- `seq` stays below 1000. -/
def pickPath (s : TsRotatingSink) (ts : Bytes) : Bytes := s.pickFrom ts 999 0

end TsRotatingSink

/-- The answers to a call of `OpenNewFile`, and the time it reads. -/
structure Opening where
  time : Int
  created : Bool
  opened : Bool
  mtime : Int

/-- Where a call of `sink_it_` is. -/
inductive Pc
  | idle
  /-- a file is open -/
  | ready
  /-- `m_bytes` has reached `m_maxSize` -/
  | full
  deriving DecidableEq

/--
The sink and the disk. The last three fields are the history: what the current file held when it was
opened, the paths opened so far, and the longest message.
-/
structure State where
  sink : TsRotatingSink
  files : List File
  pc : Pc := .idle
  startSize : Nat := 0
  opened : List FsPath := []
  longest : Nat := 0

/-- The files on disk, one at each path. -/
structure Disk where
  files : List File
  distinct : (files.map File.path).Nodup

/-- A sink that has just been made. -/
def State.init (dir namePattern : Bytes) (maxSizeMb maxTotalMb : UInt64) (disk : Disk) : State where
  sink := TsRotatingSink.make dir namePattern maxSizeMb maxTotalMb
  files := disk.files

/-- `fopen` for appending: an existing file is kept as it is. -/
def append (files : List File) (path : FsPath) (mtime : Int) : List File :=
  if files.any fun f => f.path == path then files else files ++ [⟨path, true, 0, mtime⟩]

/-- The size of the file at a path, 0 when there is none. -/
def sizeAt (files : List File) (path : FsPath) : Nat :=
  match files.find? fun f => f.path == path with
  | some f => f.size.toNat
  | none => 0

/-! ## Steps -/

/-- `localtime_r` and `strftime`: the text for a format and a time, empty when nothing is written. -/
abbrev Strftime := Bytes → Int → Bytes

variable (strftime : Strftime)

def openNewFile (s : State) (o : Opening) : State :=
  if s.sink.openFailed then s
  else
    let sink := { s.sink with file := false }
    if !o.created then { s with sink := { sink with openFailed := true } }
    else
      let path := sink.pickPath (strftime sink.tsFmt o.time)
      let sink := { sink with currentPath := path, bytes := 0 }
      if o.opened then
        let fsPath := FsPath.parse path
        { s with
          sink := { sink with file := true }
          files := append s.files fsPath o.mtime
          startSize := sizeAt s.files fsPath
          opened := s.opened ++ [fsPath] }
      else { s with sink := { sink with openFailed := true, currentPath := [] } }

/-- The head of `sink_it_`: without a file the message is dropped. -/
def enter (s : State) (o : Opening) : Option State :=
  if s.pc = .idle then
    let s := if s.sink.file then s else openNewFile strftime s o
    some { s with pc := if s.sink.file then .ready else .idle }
  else none

/-- `fwrite` and `fflush`. No file grows past the largest `off_t`. -/
def write (s : State) (length written : Nat) (mtime : Int) : Option State :=
  let path := FsPath.parse s.sink.currentPath
  if s.pc = .ready ∧ written ≤ length ∧ sizeAt s.files path + written < 2 ^ 63 then
    let bytes := s.sink.bytes + written
    some { s with
      sink := { s.sink with bytes := bytes }
      files := s.files.map fun f =>
        if f.path = path then { f with size := f.size + UInt64.ofNat written, mtime := mtime } else f
      pc := if s.sink.maxSize.toNat ≤ bytes then .full else .idle
      longest := max s.longest length }
  else none

/-- `directory_iterator(m_dir)`. -/
def listing (s : State) : List File :=
  let dir := FsPath.parse (s.sink.dir ++ [slash])
  s.files.filter fun f => f.path.root == dir.root && f.path.elements.dropLast == dir.elements.dropLast

def evict (s : State) (remove : File → Bool) : State :=
  let removed := s.sink.evictOldestIfNeeded remove (listing s)
  { s with files := s.files.filter fun f => f ∉ removed }

/-- The end of `sink_it_`. -/
def rotate (s : State) (o : Opening) (remove : File → Bool) : Option State :=
  if s.pc = .full then some { evict (openNewFile strftime s o) remove with pc := .idle } else none

inductive Action
  | enter (o : Opening)
  | write (length written : Nat) (mtime : Int)
  | rotate (o : Opening) (remove : File → Bool)
  /-- the files are found in another order from now on -/
  | reorder (files : List File)

def step (s : State) : Action → Option State
  | .enter o => enter strftime s o
  | .write length written mtime => write s length written mtime
  | .rotate o remove => rotate strftime s o remove
  | .reorder files => if files.Perm s.files then some { s with files := files } else none

end Dts.Log
