import Dts.Log.Evict

/-!
# Sizes of log files

A sink counts what it has written since it opened its file, and opens another one when the count has
reached `maxSize`. The name of the new file is made of the time, in the resolution of the pattern, and
is told apart from the name of the current file only. So at the third opening in one second the first
file of that second is opened again, full as it is.

`sinkLaw_iff` is exact: the files stay within `maxSize` plus one message, and every file is new when it
is opened, if and only if no opening picks the name of a file that has something in it.
-/

namespace Dts.Log

open Infra Ctl

variable (strftime : Strftime)

/-! ## The law -/

/-- **The law of a state.** -/
structure SinkLaw (s : State) : Prop where
  /-- no file of the sink is larger than the limit and one message -/
  sizes : ∀ f ∈ s.files, f.path ∈ s.opened → f.size.toNat ≤ s.sink.maxSize.toNat + s.longest
  /-- the current file held nothing when it was opened -/
  fresh : s.sink.file = true → s.startSize = 0

/-- The path of a file to be opened: with the number 1 when the plain one is that of the current file. -/
def target (s : TsRotatingSink) (ts : Bytes) : Bytes :=
  if s.pathName ts 0 = s.currentPath then s.pathName ts 1 else s.pathName ts 0

/-- An opening that succeeds finds no file at this path, or an empty one. -/
def FreshOpening (s : State) (o : Opening) : Prop :=
  s.sink.openFailed = false → o.created = true → o.opened = true →
    sizeAt s.files (FsPath.parse (target s.sink (strftime s.sink.tsFmt o.time))) = 0

/-- The condition on a step: the file that it opens is new. -/
def OpensFresh (s : State) : Action → Prop
  | .enter o => s.sink.file = false → FreshOpening strftime s o
  | .rotate o _ => FreshOpening strftime s o
  | _ => True

/-! ## Paths and files -/

theorem length_pathName (s : TsRotatingSink) (ts : Bytes) :
    (s.pathName ts 0).length < (s.pathName ts 1).length := by
  simp only [TsRotatingSink.pathName, List.length_append, if_neg (Nat.lt_irrefl 0),
    if_pos Nat.one_pos, show (utf8 "-").length = 1 from by decide]
  omega

theorem pathName_ne_nil (s : TsRotatingSink) (ts : Bytes) (seq : Nat) : s.pathName ts seq ≠ [] := by
  unfold TsRotatingSink.pathName
  simp [show TsRotatingSink.logExt ≠ [] by decide]

/-- The loop goes no further than to the number 1. -/
theorem pickPath_eq (s : TsRotatingSink) (ts : Bytes) : s.pickPath ts = target s ts := by
  unfold TsRotatingSink.pickPath target
  rw [show (999 : Nat) = 998 + 1 from rfl, TsRotatingSink.pickFrom]
  split
  · rename_i hcur
    rw [show (998 : Nat) = 997 + 1 from rfl, TsRotatingSink.pickFrom, if_neg]
    intro hsame
    have hlength := length_pathName s ts
    rw [hcur, ← hsame] at hlength
    exact Nat.lt_irrefl _ hlength
  · rfl

theorem target_ne_nil (s : TsRotatingSink) (ts : Bytes) : target s ts ≠ [] := by
  unfold target
  split <;> exact pathName_ne_nil s ts _

theorem sizeAt_of_mem {files : List File} (h : (files.map File.path).Nodup) {f : File}
    (hf : f ∈ files) : sizeAt files f.path = f.size.toNat := by
  unfold sizeAt
  cases hfind : files.find? fun g => g.path == f.path with
  | none =>
    rw [List.find?_eq_none] at hfind
    exact absurd (beq_self_eq_true f.path) (hfind f hf)
  | some g =>
    have hg := List.mem_of_find?_eq_some hfind
    have hpath : g.path = f.path := by simpa using List.find?_some hfind
    rw [List.inj_on_of_nodup_map h hg hf hpath]

theorem append_cases (files : List File) (path : FsPath) (mtime : Int) :
    (append files path mtime = files ∧ ∃ f ∈ files, f.path = path) ∨
      (append files path mtime = files ++ [⟨path, true, 0, mtime⟩] ∧ ∀ f ∈ files, f.path ≠ path) := by
  unfold append
  split
  · rename_i hany
    rw [List.any_eq_true] at hany
    obtain ⟨f, hf, hpath⟩ := hany
    exact Or.inl ⟨rfl, f, hf, by simpa using hpath⟩
  · rename_i hany
    refine Or.inr ⟨rfl, ?_⟩
    intro f hf heq
    exact hany (List.any_eq_true.mpr ⟨f, hf, by simpa using heq⟩)

/-! ## The invariant -/

/-- What holds in the middle of a call of `sink_it_`, too. -/
structure FilesInv (s : State) : Prop where
  distinct : (s.files.map File.path).Nodup
  law : SinkLaw s
  failed : s.sink.openFailed = true → s.sink.file = false
  named : s.sink.file = true → s.sink.currentPath ≠ []
  known : s.sink.file = true → FsPath.parse s.sink.currentPath ∈ s.opened
  /-- the count is the size of the current file -/
  counted : s.sink.file = true →
    ∃ f ∈ s.files, f.path = FsPath.parse s.sink.currentPath ∧ f.size.toNat = s.sink.bytes

structure SinkInv (s : State) : Prop where
  files : FilesInv s
  opened : s.pc ≠ .idle → s.sink.file = true
  /-- before a message is written the file has not reached the limit -/
  room : s.sink.file = true → s.pc ≠ .full →
    s.sink.bytes < s.sink.maxSize.toNat ∨ s.sink.bytes = 0

theorem sinkInv_init (dir namePattern : Bytes) (maxSizeMb maxTotalMb : UInt64) (disk : Disk) :
    SinkInv (State.init dir namePattern maxSizeMb maxTotalMb disk) where
  files := by
    refine ⟨disk.distinct, ⟨?_, ?_⟩, ?_, ?_, ?_, ?_⟩ <;> simp [State.init, TsRotatingSink.make]
  opened := by simp [State.init]
  room := by simp [State.init, TsRotatingSink.make]

variable {strftime} {s : State}

/-! ## Opening -/

/-- The next file, when it is new. -/
theorem FilesInv.openFile (h : FilesInv s) {path : Bytes} (hne : path ≠ []) (mtime : Int)
    (hsize : sizeAt s.files (FsPath.parse path) = 0) :
    FilesInv { s with
      sink := { s.sink with currentPath := path, bytes := 0, file := true, openFailed := false }
      files := append s.files (FsPath.parse path) mtime
      startSize := sizeAt s.files (FsPath.parse path)
      opened := s.opened ++ [FsPath.parse path] } := by
  have hmem : FsPath.parse path ∈ s.opened ++ [FsPath.parse path] := by simp
  -- a file at the new path is empty
  have hempty : ∀ f ∈ s.files, f.path = FsPath.parse path → f.size.toNat = 0 := by
    intro f hf hpath
    rw [← sizeAt_of_mem h.distinct hf, hpath, hsize]
  have hold : ∀ f ∈ s.files, f.path ∈ s.opened ++ [FsPath.parse path] →
      f.size.toNat ≤ s.sink.maxSize.toNat + s.longest := by
    intro f hf hopened
    rcases List.mem_append.mp hopened with hopened | hopened
    · exact h.law.sizes f hf hopened
    · rw [hempty f hf (List.mem_singleton.mp hopened)]
      exact Nat.zero_le _
  rcases append_cases s.files (FsPath.parse path) mtime with ⟨heq, f, hf, hpath⟩ | ⟨heq, hnew⟩
  · rw [heq]
    exact ⟨h.distinct, ⟨hold, fun _ => hsize⟩, by simp, fun _ => hne, fun _ => hmem,
      fun _ => ⟨f, hf, hpath, hempty f hf hpath⟩⟩
  · rw [heq]
    refine ⟨?_, ⟨?_, fun _ => hsize⟩, by simp, fun _ => hne, fun _ => hmem, ?_⟩
    · rw [List.map_append, List.nodup_append]
      refine ⟨h.distinct, List.nodup_singleton _, ?_⟩
      intro p hp q hq heq
      obtain ⟨f, hf, rfl⟩ := List.mem_map.mp hp
      rw [List.map_singleton, List.mem_singleton] at hq
      exact hnew f hf (heq.trans hq)
    · intro f hf hopened
      rcases List.mem_append.mp hf with hf | hf
      · exact hold f hf hopened
      · rw [List.mem_singleton.mp hf]
        exact Nat.zero_le _
    · exact fun _ => ⟨_, List.mem_append_right _ List.mem_cons_self, rfl, rfl⟩

/-- Without a file there is nothing to keep but the old ones. -/
theorem FilesInv.noFile (h : FilesInv s) {sink : TsRotatingSink} (hfile : sink.file = false)
    (hmax : sink.maxSize = s.sink.maxSize) : FilesInv { s with sink := sink } := by
  refine ⟨h.distinct, ⟨?_, ?_⟩, fun _ => hfile, ?_, ?_, ?_⟩
  · intro f hf hopened
    rw [hmax]
    exact h.law.sizes f hf hopened
  all_goals
    intro hopen
    rw [hfile] at hopen
    cases hopen

theorem openNewFile_inv (h : FilesInv s) {o : Opening} (hfresh : FreshOpening strftime s o) :
    FilesInv (openNewFile strftime s o) ∧
      ((openNewFile strftime s o).sink.file = true → (openNewFile strftime s o).sink.bytes = 0) := by
  unfold openNewFile
  split
  · rename_i hfailed
    refine ⟨h, ?_⟩
    intro hopen
    rw [h.failed hfailed] at hopen
    cases hopen
  · rename_i hfailed
    rw [Bool.not_eq_true] at hfailed
    simp only [pickPath_eq]
    split
    · exact ⟨h.noFile rfl rfl, by simp⟩
    · rename_i hcreated
      split
      · rename_i hopened
        have hsize := hfresh hfailed (by simpa using hcreated) hopened
        have hinv := h.openFile (target_ne_nil s.sink (strftime s.sink.tsFmt o.time)) o.mtime hsize
        rw [← hfailed] at hinv
        exact ⟨hinv, fun _ => rfl⟩
      · exact ⟨h.noFile rfl rfl, by simp⟩

/-- An opening that finds something in the file breaks the law. -/
theorem freshOpening_of_startSize {o : Opening}
    (hlaw : (openNewFile strftime s o).sink.file = true → (openNewFile strftime s o).startSize = 0) :
    FreshOpening strftime s o := by
  intro hfailed hcreated hopened
  unfold openNewFile at hlaw
  simp only [hfailed, hcreated, hopened, pickPath_eq, Bool.false_eq_true, if_false, if_true,
    Bool.not_true] at hlaw
  exact hlaw trivial

/-! ## Steps -/

theorem enter_inv {t : State} {o : Opening} (h : SinkInv s) (hstep : enter strftime s o = some t)
    (hfresh : s.sink.file = false → FreshOpening strftime s o) : SinkInv t := by
  unfold enter at hstep
  split at hstep
  · rename_i hpc
    cases hstep
    by_cases hfile : s.sink.file = true
    · simp only [if_pos hfile]
      refine ⟨⟨h.files.distinct, ⟨h.files.law.sizes, h.files.law.fresh⟩, h.files.failed,
        h.files.named, h.files.known, h.files.counted⟩, fun _ => hfile, ?_⟩
      exact fun _ _ => h.room hfile (by rw [hpc]; decide)
    · simp only [if_neg hfile]
      obtain ⟨hinv, hbytes⟩ := openNewFile_inv h.files (hfresh (Bool.eq_false_of_not_eq_true hfile))
      refine ⟨⟨hinv.distinct, ⟨hinv.law.sizes, hinv.law.fresh⟩, hinv.failed, hinv.named, hinv.known,
        hinv.counted⟩, ?_, fun hopen _ => Or.inr (hbytes hopen)⟩
      intro hne
      by_contra hopen
      simp [hopen] at hne
  · cases hstep

theorem write_inv {t : State} {length written : Nat} {mtime : Int} (h : SinkInv s)
    (hstep : write s length written mtime = some t) : SinkInv t := by
  unfold write at hstep
  simp only at hstep
  split at hstep
  · rename_i hok
    obtain ⟨hpc, hle, hfits⟩ := hok
    cases hstep
    have hfile := h.opened (by rw [hpc]; decide)
    have hroom := h.room hfile (by rw [hpc]; decide)
    obtain ⟨cur, hcur, hpath, hsize⟩ := h.files.counted hfile
    rw [← hpath, sizeAt_of_mem h.files.distinct hcur, hsize] at hfits
    -- the current file grows by what was written
    have hgrow : (cur.size + UInt64.ofNat written).toNat = s.sink.bytes + written := by
      rw [UInt64.toNat_add, UInt64.toNat_ofNat', hsize]
      omega
    have hpaths : (s.files.map fun f => if f.path = FsPath.parse s.sink.currentPath then
        { f with size := f.size + UInt64.ofNat written, mtime := mtime } else f).map File.path
          = s.files.map File.path := by
      rw [List.map_map]
      refine List.map_congr_left ?_
      intro f _
      simp only [Function.comp_apply]
      split <;> rfl
    refine ⟨⟨?_, ⟨?_, h.files.law.fresh⟩, h.files.failed, h.files.named, h.files.known, ?_⟩,
      fun _ => hfile, ?_⟩
    · rw [hpaths]
      exact h.files.distinct
    · intro f' hf' hopened
      obtain ⟨f, hf, rfl⟩ := List.mem_map.mp hf'
      show _ ≤ s.sink.maxSize.toNat + max s.longest length
      by_cases hat : f.path = FsPath.parse s.sink.currentPath
      · have : f = cur := List.inj_on_of_nodup_map h.files.distinct hf hcur (hat.trans hpath.symm)
        subst this
        rw [if_pos hat, hgrow]
        omega
      · rw [if_neg hat] at hopened ⊢
        have := h.files.law.sizes f hf hopened
        omega
    · intro _
      refine ⟨_, List.mem_map_of_mem hcur, ?_, ?_⟩
      · rw [if_pos hpath]
        exact hpath
      · rw [if_pos hpath]
        exact hgrow
    · intro _ hfull
      simp only [ne_eq, ite_eq_left_iff, Nat.not_le, reduceCtorEq, imp_false, not_not] at hfull
      exact Or.inl hfull
  · cases hstep

/-- Eviction spares the current file. -/
theorem FilesInv.evict (h : FilesInv s) (remove : File → Bool) : FilesInv (evict s remove) := by
  refine ⟨h.distinct.sublist (List.filter_sublist.map _), ⟨?_, h.law.fresh⟩, h.failed, h.named,
    h.known, ?_⟩
  · exact fun f hf hopened => h.law.sizes f (List.mem_of_mem_filter hf) hopened
  · intro hfile
    obtain ⟨f, hf, hpath, hsize⟩ := h.counted hfile
    refine ⟨f, List.mem_filter.mpr ⟨hf, ?_⟩, hpath, hsize⟩
    refine decide_eq_true ?_
    intro hremoved
    have hother := (mem_evictLoop remove _ _ f hremoved).2
    have hne := h.named hfile
    simp [TsRotatingSink.isCurrent, hpath, hne] at hother

theorem step_sinkInv {t : State} {a : Action} (h : SinkInv s) (hstep : step strftime s a = some t)
    (hfresh : OpensFresh strftime s a) : SinkInv t := by
  cases a with
  | enter o => exact enter_inv h hstep hfresh
  | write length written mtime => exact write_inv h hstep
  | rotate o remove =>
    simp only [step, rotate] at hstep
    split at hstep
    · cases hstep
      obtain ⟨hinv, hbytes⟩ := openNewFile_inv h.files hfresh
      have hev := hinv.evict remove
      exact ⟨⟨hev.distinct, ⟨hev.law.sizes, hev.law.fresh⟩, hev.failed, hev.named, hev.known,
        hev.counted⟩, by simp, fun hopen _ => Or.inr (hbytes hopen)⟩
    · cases hstep
  | reorder files =>
    simp only [step] at hstep
    split at hstep
    · rename_i hperm
      cases hstep
      refine ⟨⟨(hperm.map _).nodup_iff.mpr h.files.distinct, ⟨?_, h.files.law.fresh⟩,
        h.files.failed, h.files.named, h.files.known, ?_⟩, h.opened, h.room⟩
      · exact fun f hf => h.files.law.sizes f (hperm.mem_iff.mp hf)
      · intro hfile
        obtain ⟨f, hf, hcur⟩ := h.files.counted hfile
        exact ⟨f, hperm.mem_iff.mpr hf, hcur⟩
    · cases hstep

theorem opensFresh_of_law {t : State} {a : Action} (hstep : step strftime s a = some t)
    (hlaw : SinkLaw t) : OpensFresh strftime s a := by
  cases a with
  | enter o =>
    intro hfile
    simp only [step, enter, hfile, Bool.false_eq_true, if_false] at hstep
    split at hstep
    · cases hstep
      exact freshOpening_of_startSize hlaw.fresh
    · cases hstep
  | rotate o remove =>
    simp only [step, rotate] at hstep
    split at hstep
    · cases hstep
      exact freshOpening_of_startSize hlaw.fresh
    · cases hstep
  | write => exact trivial
  | reorder => exact trivial

/--
**Rotation.** In every state of a run of a sink no file is larger than `maxSize` plus one message, and
every file was new when it was opened, if and only if no opening picks the path of a file that has
something in it.
-/
theorem sinkLaw_iff (strftime : Strftime) (dir namePattern : Bytes) (maxSizeMb maxTotalMb : UInt64)
    (disk : Disk) (as : List Action) :
    AllStates (step strftime) SinkLaw (State.init dir namePattern maxSizeMb maxTotalMb disk) as ↔
      AllSteps (step strftime) (OpensFresh strftime)
        (State.init dir namePattern maxSizeMb maxTotalMb disk) as :=
  allStates_iff_allSteps SinkInv (fun _ h => h.files.law)
    (fun _ _ _ h hstep hfresh => step_sinkInv h hstep hfresh)
    (fun _ _ _ _ hstep hlaw => opensFresh_of_law hstep hlaw) as _
    (sinkInv_init dir namePattern maxSizeMb maxTotalMb disk)

/-- A rotation that has nothing to evict. -/
theorem rotate_of_small {o : Opening} {remove : File → Bool} (hpc : s.pc = .full)
    (hsmall : ((listing (openNewFile strftime s o)).filter
        (openNewFile strftime s o).sink.isOwn).foldl (fun total f => total + f.size) 0
      ≤ (openNewFile strftime s o).sink.maxTotal) :
    step strftime s (.rotate o remove) = some { openNewFile strftime s o with pc := .idle } := by
  have hnone : (openNewFile strftime s o).sink.evictOldestIfNeeded remove
      (listing (openNewFile strftime s o)) = [] := by
    rw [TsRotatingSink.evictOldestIfNeeded, TsRotatingSink.evictLoop,
      if_neg (UInt64.not_lt.mpr hsmall)]
  rw [step, rotate, if_pos hpc, evict, hnone]
  simp

/-- The answers at noon of 2026-08-17. -/
def noon : Opening := ⟨1786968000, true, true, 1786968000⟩

/-- A sink with a limit of 5 MiB in that second: its files with their sizes, and the open one. -/
def atNoon (pc : Pc) (files : List (String × UInt64)) (current : String) (bytes startSize : Nat)
    (opened : List String) : State where
  sink := { TsRotatingSink.make (utf8 "d") (utf8 "p%Y%m%d%H%M%S") 5 5120 with
    currentPath := utf8 current, file := true, bytes := bytes }
  files := files.map fun f => ⟨FsPath.parse (utf8 f.1), true, f.2, 1786968000⟩
  pc := pc
  startSize := startSize
  opened := opened.map fun path => FsPath.parse (utf8 path)
  longest := 6291456

/--
Three messages of 6 MiB in one second. The third goes to the file of the first, which then has 12 MiB.
-/
theorem not_sinkLaw_same_second : ¬ AllStates (step fun _ _ => utf8 "20260817120000") SinkLaw
    (State.init (utf8 "d") (utf8 "p%Y%m%d%H%M%S") 5 5120 ⟨[], List.nodup_nil⟩)
    [.enter noon, .write 6291456 6291456 1786968000, .rotate noon fun _ => true,
      .enter noon, .write 6291456 6291456 1786968000, .rotate noon fun _ => true,
      .enter noon, .write 6291456 6291456 1786968000] := by
  intro hall
  have h2 : AllStates _ SinkLaw (atNoon .full [("d/p20260817120000.log", 6291456)]
      "d/p20260817120000.log" 6291456 0 ["d/p20260817120000.log"]) _ := (hall.2 _ rfl).2 _ rfl
  have h3 : AllStates _ SinkLaw (atNoon .idle
      [("d/p20260817120000.log", 6291456), ("d/p20260817120000-1.log", 0)]
      "d/p20260817120000-1.log" 0 0 ["d/p20260817120000.log", "d/p20260817120000-1.log"]) _ :=
    h2.2 _ (rotate_of_small rfl (by decide))
  have h5 : AllStates _ SinkLaw (atNoon .full
      [("d/p20260817120000.log", 6291456), ("d/p20260817120000-1.log", 6291456)]
      "d/p20260817120000-1.log" 6291456 0 ["d/p20260817120000.log", "d/p20260817120000-1.log"]) _ :=
    (h3.2 _ rfl).2 _ rfl
  have h6 : AllStates _ SinkLaw (atNoon .idle
      [("d/p20260817120000.log", 6291456), ("d/p20260817120000-1.log", 6291456)]
      "d/p20260817120000.log" 0 6291456
      ["d/p20260817120000.log", "d/p20260817120000-1.log", "d/p20260817120000.log"]) _ :=
    h5.2 _ (rotate_of_small rfl (by decide))
  have hlaw : SinkLaw (atNoon .full
      [("d/p20260817120000.log", 12582912), ("d/p20260817120000-1.log", 6291456)]
      "d/p20260817120000.log" 6291456 6291456
      ["d/p20260817120000.log", "d/p20260817120000-1.log", "d/p20260817120000.log"]) :=
    (h6.2 _ rfl).2 _ rfl
  have hsize := hlaw.sizes
    ⟨FsPath.parse (utf8 "d/p20260817120000.log"), true, 12582912, 1786968000⟩ (by decide) (by decide)
  exact absurd hsize (by decide)

end Dts.Log
