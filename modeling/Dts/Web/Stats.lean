import Dts.Data.FrameLaw
import Dts.Web.ReportFrame
import Mathlib.Data.List.Chain

/-!
# Sequence numbers from the factory to the web statistics

`stats.h`. `Stats.onReport` counts a gap when a report does not follow the one before it. `Link`
connects the factory to it: every published frame is parsed and reported once, in order.

The factory takes a sequence number before the aggregator decides whether there is anything to
publish, so a frame without slices leaves a gap. `seqLaw_of_noEmptyFlush` is the law for the runs
without such a frame between two reports.
-/

namespace Dts.Web

open Infra Data

/-! ## Statistics -/

/-- Seconds of the window. -/
def kWindow : Nat := 60

/-- What came in during one second. -/
structure SecBucket where
  sec : Nat := 0
  frames : UInt64 := 0
  bytes : UInt64 := 0

/-- The counters since the start, and the buckets of the window. -/
structure Stats where
  totalFrames : UInt64 := 0
  totalBytes : UInt64 := 0
  gaps : UInt64 := 0
  lastSeq : UInt32 := 0
  lastTaskId : UInt32 := 0
  hasLastSeq : Bool := false
  buckets : Fin kWindow → SecBucket := fun _ => {}

namespace Stats

/-- The bucket of a second. -/
def bucketIdx (nowSec : Nat) : Fin kWindow := ⟨nowSec % kWindow, Nat.mod_lt _ (by decide)⟩

/-- Clear the bucket when it belongs to another second. -/
def rollTo (s : Stats) (nowSec : Nat) : Stats :=
  if (s.buckets (bucketIdx nowSec)).sec ≠ nowSec then
    { s with buckets := Function.update s.buckets (bucketIdx nowSec) ⟨nowSec, 0, 0⟩ }
  else s

/-- A frame of this many bytes comes in now. -/
def addBucket (s : Stats) (nowSec : Nat) (bytes : UInt32) : Stats :=
  let s := s.rollTo nowSec
  let b := s.buckets (bucketIdx nowSec)
  let b := { b with frames := b.frames + 1, bytes := b.bytes + bytes.toUInt64 }
  { s with buckets := Function.update s.buckets (bucketIdx nowSec) b }

/-- A gap is counted when the sequence number is not the next one. -/
def onReport (s : Stats) (v : ReportView) (nowSec : Nat) : Stats :=
  let s := { s with
    totalFrames := s.totalFrames + 1
    totalBytes := s.totalBytes + v.frameLen.toUInt64 }
  let s := if s.hasLastSeq && v.seq != s.lastSeq + 1 then { s with gaps := s.gaps + 1 } else s
  let s := { s with lastSeq := v.seq, hasLastSeq := true, lastTaskId := v.taskId }
  s.addBucket nowSec v.frameLen

theorem addBucket_eq (s : Stats) (nowSec : Nat) (bytes : UInt32) :
    ∃ buckets, s.addBucket nowSec bytes = { s with buckets := buckets } := by
  simp only [addBucket, rollTo]
  split <;> exact ⟨_, rfl⟩

/-- What `onReport` does to the fields that the gap check uses. -/
theorem onReport_seq (s : Stats) (v : ReportView) (nowSec : Nat) :
    (s.onReport v nowSec).lastSeq = v.seq ∧ (s.onReport v nowSec).hasLastSeq = true ∧
      ((s.hasLastSeq = false ∨ v.seq = s.lastSeq + 1) → (s.onReport v nowSec).gaps = s.gaps) := by
  simp only [onReport]
  split
  · rename_i hgap
    obtain ⟨buckets, hb⟩ := addBucket_eq { s with
      totalFrames := s.totalFrames + 1
      totalBytes := s.totalBytes + v.frameLen.toUInt64
      gaps := s.gaps + 1, lastSeq := v.seq, hasLastSeq := true, lastTaskId := v.taskId }
      nowSec v.frameLen
    rw [hb]
    refine ⟨rfl, rfl, ?_⟩
    intro hok
    rcases hok with hok | hok <;> simp [hok] at hgap
  · obtain ⟨buckets, hb⟩ := addBucket_eq { s with
      totalFrames := s.totalFrames + 1
      totalBytes := s.totalBytes + v.frameLen.toUInt64
      lastSeq := v.seq, hasLastSeq := true, lastTaskId := v.taskId } nowSec v.frameLen
    rw [hb]
    exact ⟨rfl, rfl, fun _ => rfl⟩

end Stats

/-! ## The link -/

/-- The factory, the sequence numbers it has published so far, and the statistics. -/
structure Link where
  factory : DataFactory
  seqs : List UInt32
  stats : Stats

/-- Parse a frame and report it. -/
def Link.deliver (s : Link) (frame : Bytes) (nowSec : Nat) : Link :=
  { s with
    seqs := s.seqs ++ [(ReportHeader.read frame).seq]
    stats := match parseReport (some frame) (UInt32.ofNat frame.length) {} with
      | (true, view) => s.stats.onReport view nowSec
      | (false, _) => s.stats }

/-- An operation of the factory, at a second of the clock of the web process. -/
def linkStep (s : Link) (a : FactoryOp × Nat) : Option Link :=
  match a.1 with
  | .process raw dataType us =>
    let (published, factory) := s.factory.process raw dataType us
    match published with
    | none => some { s with factory := factory }
    | some frame => some ({ s with factory := factory }.deliver frame a.2)
  | op => (factoryStep s.factory op).map fun factory => { s with factory := factory }

/-- Published sequence numbers follow each other, and no gap has been counted. -/
structure SeqLaw (s : Link) : Prop where
  consecutive : s.seqs.IsChain fun a b => b = a + 1
  noGaps : s.stats.gaps = 0

/--
The condition on a call: after the first report, no frame gets as far as `flush` without a slice
that lies in it.
-/
def NoEmptyFlush (s : Link) (a : FactoryOp × Nat) : Prop :=
  match a.1 with
  | .process raw dataType _ =>
    s.seqs = [] ∨ ¬ Reaches s.factory raw dataType ∨ ∃ id ∈ cellDataIds, Fits raw id
  | _ => True

/-- The last published number is that of the factory and of the statistics. -/
structure LinkInv (b : Bypass) (s : Link) : Prop where
  factory : FactoryInv b s.factory
  law : SeqLaw s
  last : ∀ q, s.seqs.getLast? = some q → q = s.factory.seq
  stats : s.stats.hasLastSeq = true → ∃ q, s.seqs.getLast? = some q ∧ s.stats.lastSeq = q

variable {b : Bypass} {s : Link}

/-- A report is delivered with its sequence number. -/
theorem deliver_report (h : FactoryInv b s.factory) {raw : RawFrame}
    (hne : frameRecords s.factory raw ≠ []) (g : DataFactory) (taskId seq : UInt32) (ts : UInt64)
    (nowSec : Nat) :
    ∃ frame view, reportOf taskId ts seq (frameRecords s.factory raw) = some frame ∧
      { s with factory := g }.deliver frame nowSec
        = ⟨g, s.seqs ++ [seq], s.stats.onReport view nowSec⟩ ∧ view.seq = seq := by
  have hcount : (frameRecords s.factory raw).length ≤ 1000 := by
    rw [(frameRecords_perm h raw).length_eq, fitting, List.length_map]
    exact (List.length_filter_le _ _).trans (by rw [length_cellDataIds]; decide)
  have hpad : ([0, 0, 0, 0] : Bytes).length = 4 := rfl
  obtain ⟨view, hparse, hview⟩ := parseReport_encode
    (h := ⟨taskId, ts, seq, UInt32.ofNat (encode (frameRecords s.factory raw)).length⟩)
    hpad rfl (length_encode_frameRecords h raw) hne hcount
  refine ⟨_, view, by rw [reportOf, if_neg hne], ?_, hview.seq⟩
  simp only [Link.deliver, hparse]
  rw [ReportHeader.read_bytes _ hpad]

/-- A call that publishes a report. -/
theorem linkStep_report (h : FactoryInv b s.factory) {raw : RawFrame} {dataType : UInt16}
    (hr : Reaches s.factory raw dataType) (hne : frameRecords s.factory raw ≠ []) (us : UInt64)
    (nowSec : Nat) : ∃ view, view.seq = s.factory.seq + 1 ∧
      linkStep s (.process raw dataType us, nowSec)
        = some ⟨(s.factory.process raw dataType us).2, s.seqs ++ [s.factory.seq + 1],
          s.stats.onReport view nowSec⟩ := by
  have hflush := (process_of_reaches h hr us).2.1
  obtain ⟨frame, view, hreport, hdeliver, hseq⟩ := deliver_report h hne
    (s.factory.process raw dataType us).2 s.factory.currentTask (s.factory.seq + 1)
    (s.factory.tick.toUInt64 * kTickMs) nowSec
  refine ⟨view, hseq, ?_⟩
  simp only [linkStep, hflush.published, hreport, hdeliver]

/-- A call that publishes nothing. -/
theorem linkStep_silent {raw : RawFrame} {dataType : UInt16} {us : UInt64}
    (hnone : (s.factory.process raw dataType us).1 = none) (nowSec : Nat) :
    linkStep s (.process raw dataType us, nowSec)
      = some { s with factory := (s.factory.process raw dataType us).2 } := by
  simp only [linkStep, hnone]

/-- The invariant after a report with the next number. -/
theorem LinkInv.report (h : LinkInv b s) {g : DataFactory} (hg : FactoryInv b g)
    (hseq : g.seq = s.factory.seq + 1) {view : ReportView} (hview : view.seq = s.factory.seq + 1)
    (nowSec : Nat) :
    LinkInv b ⟨g, s.seqs ++ [s.factory.seq + 1], s.stats.onReport view nowSec⟩ := by
  obtain ⟨hlast, hhas, hgaps⟩ := s.stats.onReport_seq view nowSec
  refine ⟨hg, ⟨?_, ?_⟩, ?_, ?_⟩
  · rw [List.isChain_append]
    refine ⟨h.law.consecutive, List.isChain_singleton _, ?_⟩
    intro x hx y hy
    rw [List.head?_singleton, Option.mem_some_iff] at hy
    rw [← hy, h.last x hx]
  · refine (hgaps ?_).trans h.law.noGaps
    -- the statistics compare with the number published last
    cases hs : s.stats.hasLastSeq with
    | false => exact Or.inl rfl
    | true =>
      obtain ⟨q, hq, hqlast⟩ := h.stats hs
      exact Or.inr (by rw [hview, hqlast, h.last q hq])
  · intro q hq
    rw [List.getLast?_concat, Option.some.injEq] at hq
    rw [← hq, hseq]
  · exact fun _ => ⟨s.factory.seq + 1, List.getLast?_concat .., hlast.trans hview⟩

/-- The invariant after an operation without a report that leaves the number alone. -/
theorem LinkInv.silent (h : LinkInv b s) {g : DataFactory} (hg : FactoryInv b g)
    (hseq : s.seqs = [] ∨ g.seq = s.factory.seq) : LinkInv b { s with factory := g } := by
  refine ⟨hg, ⟨h.law.consecutive, h.law.noGaps⟩, fun q hq => ?_, h.stats⟩
  rcases hseq with hnil | hseq
  · simp [hnil] at hq
  · exact (h.last q hq).trans hseq.symm

theorem linkStep_inv {a : FactoryOp × Nat} {t : Link} (h : LinkInv b s)
    (hstep : linkStep s a = some t) (hc : NoEmptyFlush s a) : LinkInv b t := by
  obtain ⟨op, nowSec⟩ := a
  cases op with
  | process raw dataType us =>
    by_cases hr : Reaches s.factory raw dataType
    · obtain ⟨-, hflush, hg⟩ := process_of_reaches h.factory hr us
      by_cases hne : frameRecords s.factory raw = []
      · have hnone : (s.factory.process raw dataType us).1 = none := by
          rw [hflush.published, reportOf, if_pos hne]
        rw [linkStep_silent hnone] at hstep
        cases hstep
        refine h.silent hg (Or.inl ?_)
        rcases hc with hnil | hnot | hfit
        · exact hnil
        · exact absurd hr hnot
        · obtain ⟨id, hid, hfit⟩ := hfit
          exact absurd hfit ((frameRecords_eq_nil h.factory).mp hne id hid)
      · obtain ⟨view, hview, heq⟩ := linkStep_report h.factory hr hne us nowSec
        rw [heq] at hstep
        cases hstep
        exact h.report hg hflush.seq hview nowSec
    · obtain ⟨hstop, hg⟩ := process_of_not_reaches h.factory hr us
      rw [linkStep_silent hstop.published] at hstep
      cases hstep
      exact h.silent hg (Or.inr hstop.seq)
  | tick => cases hstep; exact h.silent (factoryStep_inv .tick h.factory rfl) (Or.inr rfl)
  | task taskId =>
    cases hstep; exact h.silent (factoryStep_inv (.task taskId) h.factory rfl) (Or.inr rfl)
  | sink sink =>
    cases hstep; exact h.silent (factoryStep_inv (.sink sink) h.factory rfl) (Or.inr rfl)
  | budget warnUs alarmUs =>
    cases hstep
    refine h.silent (factoryStep_inv (.budget warnUs alarmUs) h.factory rfl) (Or.inr ?_)
    unfold DataFactory.setBudget
    split <;> rfl

/--
**Consecutive numbers, no gaps.** From assembly on, as long as no frame without slices comes
between two reports, the published sequence numbers follow each other and the statistics count no
gap.
-/
theorem seqLaw_of_noEmptyFlush (alloc : Nat → Nat) (mem : Mem) {reg : ExtractorRegistry}
    (hreg : reg.Perm (initExtractors [])) (bypass : Bypass) (warnUs alarmUs : UInt64)
    (run : List (FactoryOp × Nat))
    (hrun : AllSteps linkStep NoEmptyFlush
      ⟨DataFactory.assemble alloc mem reg bypass warnUs alarmUs, [], {}⟩ run) :
    AllStates linkStep SeqLaw
      ⟨DataFactory.assemble alloc mem reg bypass warnUs alarmUs, [], {}⟩ run := by
  refine allStates_of_allSteps _ (fun _ h => LinkInv.law (b := bypass) h)
    (fun _ _ _ hs hstep hc => linkStep_inv hs hstep hc) run _ ?_ hrun
  refine ⟨factoryInv_assemble alloc mem hreg bypass warnUs alarmUs, ⟨List.isChain_nil, rfl⟩, ?_, ?_⟩
  · intro q hq
    simp at hq
  · intro hhas
    simp at hhas

/-- Two reports in a row. -/
theorem seqLaw_of_two_reports : AllStates linkStep SeqLaw
    ⟨DataFactory.assemble (fun _ => 4096) (fun _ => 0) (initExtractors []) .FULL
      kFrameBudgetWarnUs kFrameBudgetAlarmUs, [], {}⟩
    [(.task 7, 0), (.process (numberedFrame 177) DataType.CELL.code 0, 0),
      (.process (numberedFrame 177) DataType.CELL.code 0, 1)] := by
  have hfits : ∃ id ∈ cellDataIds, Fits (numberedFrame 177) id :=
    exists_fits_iff.mpr ⟨rfl, by decide⟩
  exact seqLaw_of_noEmptyFlush _ _ (List.Perm.refl _) _ _ _ _ fun _ _ => ⟨trivial, fun _ _ =>
    ⟨Or.inr (Or.inr hfits), fun _ _ => ⟨Or.inr (Or.inr hfits), trivial⟩⟩⟩

/-- A frame without slices between two reports always leaves a gap. -/
theorem not_seqLaw_of_emptyFlush (h : FactoryInv b s.factory) {raw short : RawFrame}
    {dataType : UInt16} (hr : Reaches s.factory raw dataType)
    (hkey : extractRawKey dataType short = extractRawKey dataType raw)
    (hfull : ∃ id ∈ cellDataIds, Fits raw id) (hshort : ∀ id ∈ cellDataIds, ¬ Fits short id) :
    ¬ AllStates linkStep SeqLaw s [(.process raw dataType 0, 0), (.process short dataType 0, 0),
      (.process raw dataType 0, 0)] := by
  intro hall
  have hne : ∀ {g : DataFactory}, FactoryInv b g → frameRecords g raw ≠ [] := by
    intro g hg hnil
    obtain ⟨id, hid, hfit⟩ := hfull
    exact (frameRecords_eq_nil hg).mp hnil id hid hfit
  obtain ⟨-, hflush, h1⟩ := process_of_reaches h hr 0
  have hseq := hflush.seq
  have hr1 : Reaches (s.factory.process raw dataType 0).2 short dataType := reaches_again h hr hkey 0
  obtain ⟨view, -, hstep⟩ := linkStep_report h hr (hne h) 0 0
  generalize (s.factory.process raw dataType 0).2 = f1 at *
  obtain ⟨-, hflush1, h2⟩ := process_of_reaches h1 hr1 0
  have hseq1 := hflush1.seq
  have hr2 : Reaches (f1.process short dataType 0).2 raw dataType :=
    reaches_again h1 hr1 hkey.symm 0
  have hnone : (f1.process short dataType 0).1 = none := by
    rw [hflush1.published, reportOf, if_pos ((frameRecords_eq_nil h1).mpr hshort)]
  have hstep1 := linkStep_silent
    (s := ⟨f1, s.seqs ++ [s.factory.seq + 1], s.stats.onReport view 0⟩) hnone 0
  generalize (f1.process short dataType 0).2 = f2 at *
  obtain ⟨view2, -, hstep2⟩ := linkStep_report
    (s := ⟨f2, s.seqs ++ [s.factory.seq + 1], s.stats.onReport view 0⟩) h2 hr2 (hne h2) 0 0
  have hlaw : SeqLaw _ := ((hall.2 _ hstep).2 _ hstep1).2 _ hstep2
  have hchain := hlaw.consecutive
  rw [List.isChain_append] at hchain
  have hlast := hchain.2.2 (s.factory.seq + 1) (by simp) (f2.seq + 1) (by simp)
  rw [hseq1, hseq] at hlast
  have hval := congrArg UInt32.toNat hlast
  simp only [UInt32.toNat_add, UInt32.toNat_one] at hval
  omega

/-- The frames of 177, 16 and 177 bytes are published as 1 and 3. -/
theorem not_seqLaw_short_frame : ¬ AllStates linkStep SeqLaw
    ⟨DataFactory.assemble (fun _ => 4096) (fun _ => 0) (initExtractors []) .FULL
      kFrameBudgetWarnUs kFrameBudgetAlarmUs, [], {}⟩
    [(.task 7, 0), (.process (numberedFrame 177) DataType.CELL.code 0, 0),
      (.process (numberedFrame 16) DataType.CELL.code 0, 0),
      (.process (numberedFrame 177) DataType.CELL.code 0, 0)] := by
  intro hall
  have hinv := factoryInv_of_reachable (List.Perm.refl _) readyFactory_reachable
  have hr : Reaches readyFactory (numberedFrame 177) DataType.CELL.code :=
    ⟨rfl, rfl, by decide, readyFactory_block _⟩
  refine not_seqLaw_of_emptyFlush (s := ⟨readyFactory, [], {}⟩) hinv hr (by decide)
    (exists_fits_iff.mpr ⟨rfl, by decide⟩) (fun id hid hfit => ?_) (hall.2 _ rfl)
  exact absurd (exists_fits_iff.mp ⟨id, hid, hfit⟩).2 (by decide)

end Dts.Web
