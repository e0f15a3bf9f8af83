import Dts.Web.Stats
import Mathlib.Algebra.BigOperators.Intervals
import Mathlib.Algebra.Field.Rat
import Mathlib.Tactic.FieldSimp
import Mathlib.Tactic.Ring

/-!
# The sliding window of the web statistics

`Stats` keeps a bucket for each of the last 60 seconds, clears a bucket when its second comes, and
`SnapshotJson` derives `fps_5s` and `mbps_5s` from the buckets. The sums run over all 60 buckets, the
one of the current second among them, and are divided by 5.

`windowLaw_iff` says for which arrivals the two values are the averages of the last five full
seconds. The values are exact rationals here, without the rounding of `double` and of the format.
-/

namespace Dts.Web

/-! ## Snapshots -/

structure Snapshot where
  totalFrames : UInt64
  totalBytes : UInt64
  gaps : UInt64
  lastSeq : UInt32
  lastTask : UInt32
  fps5s : ℚ
  mbps5s : ℚ

namespace SecBucket

/-- The test in the loop of `SnapshotJson`. -/
def recent (b : SecBucket) (nowSec : Nat) : Bool :=
  decide (0 < b.sec) && decide ((nowSec : Int) - b.sec ≤ kWindow)

theorem recent_iff (b : SecBucket) (nowSec : Nat) :
    b.recent nowSec = true ↔ 0 < b.sec ∧ nowSec ≤ b.sec + 60 := by
  have hwindow : ((kWindow : Nat) : Int) = 60 := rfl
  simp only [recent, Bool.and_eq_true, decide_eq_true_eq, hwindow]
  omega

end SecBucket

namespace Stats

/-- The bucket that the loop reads in its round `i`; `kWindow * 4` keeps the index positive. -/
def roundBucket (s : Stats) (nowSec i : Nat) : SecBucket :=
  s.buckets (bucketIdx (nowSec + kWindow * 4 - i))

/-- The rounds of the loop are `i = 1` up to `kWindow`. -/
def snapshotJson (s : Stats) (nowSec : Nat) : Snapshot × Stats :=
  let s := s.rollTo nowSec
  let sums := (List.range kWindow).foldl (fun (acc : ℚ × ℚ) k =>
    let b := s.roundBucket nowSec (k + 1)
    if b.recent nowSec then (acc.1 + b.frames.toNat, acc.2 + b.bytes.toNat) else acc) (0, 0)
  ({ totalFrames := s.totalFrames
     totalBytes := s.totalBytes
     gaps := s.gaps
     lastSeq := s.lastSeq
     lastTask := s.lastTaskId
     fps5s := sums.1 / 5
     mbps5s := sums.2 / 5 / 1024 / 1024 }, s)

end Stats

/-- A call from outside, at a second of the clock. -/
inductive Call
  | report (v : ReportView) (nowSec : Nat)
  | snapshot (nowSec : Nat)

namespace Call

def sec : Call → Nat
  | report _ nowSec => nowSec
  | snapshot nowSec => nowSec

/-- What a call adds to a total over the reports of a second. -/
def weight (w : ReportView → Nat) (t : Int) : Call → Nat
  | report v nowSec => if (nowSec : Int) = t then w v else 0
  | snapshot _ => 0

end Call

namespace Stats

def call (s : Stats) : Call → Stats
  | .report v nowSec => s.onReport v nowSec
  | .snapshot nowSec => (s.snapshotJson nowSec).2

/-- The statistics after some calls. -/
def after (calls : List Call) : Stats := calls.foldl call {}

end Stats

/-! ## The law -/

/-- A total over the reports that arrived in a second. -/
def totalAt (w : ReportView → Nat) (calls : List Call) (t : Int) : Nat :=
  (calls.map (Call.weight w t)).sum

def framesAt (calls : List Call) (t : Int) : Nat := totalAt (fun _ => 1) calls t

def bytesAt (calls : List Call) (t : Int) : Nat := totalAt (fun v => v.frameLen.toNat) calls t

/-- **The law.** A snapshot reports the averages over the five seconds before its own. -/
structure WindowLaw (calls : List Call) (nowSec : Nat) : Prop where
  fps : ((Stats.after calls).snapshotJson nowSec).1.fps5s
    = (∑ i ∈ Finset.Ico (1 : Nat) 6, framesAt calls (nowSec - i) : Nat) / 5
  mbps : ((Stats.after calls).snapshotJson nowSec).1.mbps5s
    = (∑ i ∈ Finset.Ico (1 : Nat) 6, bytesAt calls (nowSec - i) : Nat) / 1024 / 1024 / 5

/-- What a bucket holds of a total: nothing of second 0, and 64 bits of the others. -/
def held (total : Int → Nat) (t : Int) : Nat := if t ≤ 0 then 0 else total t % 2 ^ 64

/-- The part of a total that the window takes in from seconds outside: the current one, and older. -/
def stray (total : Int → Nat) (nowSec : Nat) : Nat :=
  held total nowSec + ∑ i ∈ Finset.Ico (6 : Nat) 60, held total (nowSec - i)

/-- The part of a total of the five seconds that their buckets do not hold. -/
def lost (total : Int → Nat) (nowSec : Nat) : Nat :=
  ∑ i ∈ Finset.Ico (1 : Nat) 6, (total (nowSec - i) - held total (nowSec - i))

/-! ## Totals -/

theorem totalAt_append (w : ReportView → Nat) (calls calls' : List Call) (t : Int) :
    totalAt w (calls ++ calls') t = totalAt w calls t + totalAt w calls' t := by
  simp [totalAt]

theorem totalAt_snapshot (w : ReportView → Nat) (calls : List Call) (nowSec : Nat) (t : Int) :
    totalAt w (calls ++ [.snapshot nowSec]) t = totalAt w calls t := by
  rw [totalAt_append]
  rfl

theorem totalAt_report (w : ReportView → Nat) (calls : List Call) (v : ReportView) (nowSec : Nat) :
    totalAt w (calls ++ [.report v nowSec]) nowSec = totalAt w calls nowSec + w v := by
  rw [totalAt_append]
  simp [totalAt, Call.weight]

/-- A call of another second adds nothing. -/
theorem totalAt_concat_of_ne (w : ReportView → Nat) (calls : List Call) {c : Call} {t : Nat}
    (h : c.sec ≠ t) : totalAt w (calls ++ [c]) t = totalAt w calls t := by
  cases c with
  | report v nowSec =>
    have hne : (nowSec : Int) ≠ t := fun he => h (Int.ofNat.inj he)
    rw [totalAt_append]
    simp [totalAt, Call.weight, hne]
  | snapshot nowSec => exact totalAt_snapshot w calls nowSec t

theorem totalAt_eq_zero (w : ReportView → Nat) {calls : List Call} {t : Int}
    (h : ∀ v (nowSec : Nat), .report v nowSec ∈ calls → (nowSec : Int) ≠ t) : totalAt w calls t = 0 := by
  refine List.sum_eq_zero ?_
  intro x hx
  obtain ⟨c, hc, rfl⟩ := List.mem_map.mp hx
  cases c with
  | report v nowSec => exact if_neg (h v nowSec hc)
  | snapshot nowSec => rfl

/-! ## The buckets -/

/-- The bucket of a second after `RollTo`. -/
def rolled (b : SecBucket) (nowSec : Nat) : SecBucket := if b.sec = nowSec then b else ⟨nowSec, 0, 0⟩

theorem rolled_sec (b : SecBucket) (nowSec : Nat) : (rolled b nowSec).sec = nowSec := by
  unfold rolled
  split
  · assumption
  · rfl

theorem buckets_rollTo (s : Stats) (nowSec : Nat) :
    (s.rollTo nowSec).buckets = Function.update s.buckets (Stats.bucketIdx nowSec)
      (rolled (s.buckets (Stats.bucketIdx nowSec)) nowSec) := by
  unfold Stats.rollTo rolled
  by_cases h : (s.buckets (Stats.bucketIdx nowSec)).sec = nowSec
  · rw [if_neg (not_not.mpr h), if_pos h, Function.update_eq_self]
  · rw [if_pos h, if_neg h]

theorem buckets_addBucket (s : Stats) (nowSec : Nat) (bytes : UInt32) :
    (s.addBucket nowSec bytes).buckets = Function.update s.buckets (Stats.bucketIdx nowSec)
      ⟨nowSec, (rolled (s.buckets (Stats.bucketIdx nowSec)) nowSec).frames + 1,
        (rolled (s.buckets (Stats.bucketIdx nowSec)) nowSec).bytes + bytes.toUInt64⟩ := by
  simp only [Stats.addBucket, buckets_rollTo, Function.update_self, Function.update_idem, rolled_sec]

theorem buckets_onReport (s : Stats) (v : ReportView) (nowSec : Nat) :
    (s.onReport v nowSec).buckets = (s.addBucket nowSec v.frameLen).buckets := by
  simp only [Stats.onReport]
  split <;> simp only [buckets_addBucket]

/-- The buckets are filled from the calls so far. -/
structure WindowInv (calls : List Call) (buckets : Fin kWindow → SecBucket) : Prop where
  slot : ∀ j, (buckets j).sec = 0 ∨ (buckets j).sec % kWindow = j
  le : ∀ n, (∀ c ∈ calls, c.sec ≤ n) → ∀ j, (buckets j).sec ≤ n
  frames : ∀ j, 0 < (buckets j).sec →
    (buckets j).frames = UInt64.ofNat (framesAt calls (buckets j).sec)
  bytes : ∀ j, 0 < (buckets j).sec →
    (buckets j).bytes = UInt64.ofNat (bytesAt calls (buckets j).sec)
  /-- no bucket is older than a report that it was filled with -/
  kept : ∀ v t, .report v t ∈ calls → t ≤ (buckets (Stats.bucketIdx t)).sec

theorem windowInv_init : WindowInv [] fun _ => {} :=
  ⟨fun _ => Or.inl rfl, fun _ _ _ => Nat.zero_le _, fun _ h => absurd h (Nat.lt_irrefl 0),
    fun _ h => absurd h (Nat.lt_irrefl 0), by simp⟩

section
variable {calls : List Call} {buckets : Fin kWindow → SecBucket}

/-- A second whose bucket is older or younger has no reports. -/
theorem WindowInv.totalAt_eq_zero (h : WindowInv calls buckets) (w : ReportView → Nat) {t n : Nat}
    (hle : ∀ c ∈ calls, c.sec ≤ n) (hwindow : n < t + kWindow)
    (hne : (buckets (Stats.bucketIdx t)).sec ≠ t) : totalAt w calls t = 0 := by
  refine Web.totalAt_eq_zero w ?_
  rintro v nowSec hmem heq
  cases Int.ofNat.inj heq
  have hkept := h.kept v t hmem
  have hn := h.le n hle (Stats.bucketIdx t)
  rcases h.slot (Stats.bucketIdx t) with hzero | hslot
  · omega
  · simp only [Stats.bucketIdx, kWindow] at hslot hwindow
    simp only [Stats.bucketIdx, kWindow] at hkept hn hne
    omega

/-- The bucket of the current second, cleared if it was older. -/
theorem WindowInv.rolled (h : WindowInv calls buckets) {nowSec : Nat}
    (hle : ∀ c ∈ calls, c.sec ≤ nowSec) (hpos : 0 < nowSec) :
    (rolled (buckets (Stats.bucketIdx nowSec)) nowSec).frames
        = UInt64.ofNat (framesAt calls nowSec) ∧
      (rolled (buckets (Stats.bucketIdx nowSec)) nowSec).bytes
        = UInt64.ofNat (bytesAt calls nowSec) := by
  have hwindow : nowSec < nowSec + kWindow := Nat.lt_add_of_pos_right (by decide)
  unfold Web.rolled
  split
  · rename_i hsec
    have hb : 0 < (buckets (Stats.bucketIdx nowSec)).sec := by omega
    have hframes := h.frames _ hb
    have hbytes := h.bytes _ hb
    rw [hsec] at hframes hbytes
    exact ⟨hframes, hbytes⟩
  · rename_i hsec
    rw [framesAt, bytesAt, h.totalAt_eq_zero _ hle hwindow hsec, h.totalAt_eq_zero _ hle hwindow hsec]
    exact ⟨rfl, rfl⟩

/-- A call writes the bucket of its second and leaves the others. -/
theorem WindowInv.update (h : WindowInv calls buckets) (c : Call) (hle : ∀ c' ∈ calls, c'.sec ≤ c.sec)
    (b : SecBucket) (hsec : b.sec = c.sec)
    (hframes : 0 < c.sec → b.frames = UInt64.ofNat (framesAt (calls ++ [c]) c.sec))
    (hbytes : 0 < c.sec → b.bytes = UInt64.ofNat (bytesAt (calls ++ [c]) c.sec)) :
    WindowInv (calls ++ [c]) (Function.update buckets (Stats.bucketIdx c.sec) b) := by
  -- the other buckets are of other seconds
  have hother : ∀ j, j ≠ Stats.bucketIdx c.sec → 0 < (buckets j).sec → c.sec ≠ (buckets j).sec := by
    intro j hj hpos heq
    rcases h.slot j with hzero | hslot
    · omega
    · exact hj (Fin.ext (by simp only [Stats.bucketIdx, heq, hslot]))
  refine ⟨?_, ?_, ?_, ?_, ?_⟩
  · intro j
    by_cases hj : j = Stats.bucketIdx c.sec
    · subst hj
      rw [Function.update_self, hsec]
      exact Or.inr rfl
    · rw [Function.update_of_ne hj]
      exact h.slot j
  · intro n hn j
    by_cases hj : j = Stats.bucketIdx c.sec
    · subst hj
      rw [Function.update_self, hsec]
      exact hn c (List.mem_append_right _ List.mem_cons_self)
    · rw [Function.update_of_ne hj]
      exact h.le n (fun c' hc' => hn c' (List.mem_append_left _ hc')) j
  · intro j hpos
    by_cases hj : j = Stats.bucketIdx c.sec
    · subst hj
      rw [Function.update_self, hsec] at hpos ⊢
      exact hframes hpos
    · rw [Function.update_of_ne hj] at hpos ⊢
      rw [h.frames j hpos, framesAt, framesAt, totalAt_concat_of_ne _ _ (hother j hj hpos)]
  · intro j hpos
    by_cases hj : j = Stats.bucketIdx c.sec
    · subst hj
      rw [Function.update_self, hsec] at hpos ⊢
      exact hbytes hpos
    · rw [Function.update_of_ne hj] at hpos ⊢
      rw [h.bytes j hpos, bytesAt, bytesAt, totalAt_concat_of_ne _ _ (hother j hj hpos)]
  · intro v t hmem
    by_cases hj : Stats.bucketIdx t = Stats.bucketIdx c.sec
    · rw [hj, Function.update_self, hsec]
      rcases List.mem_append.mp hmem with hmem | hmem
      · exact hle _ hmem
      · rw [← List.mem_singleton.mp hmem]
        exact Nat.le_refl _
    · rw [Function.update_of_ne hj]
      rcases List.mem_append.mp hmem with hmem | hmem
      · exact h.kept v t hmem
      · rw [← List.mem_singleton.mp hmem] at hj
        exact absurd rfl hj

end

/-- A report, or the `RollTo` of a snapshot, keeps the buckets in line with the calls. -/
theorem WindowInv.call {calls : List Call} {s : Stats} (h : WindowInv calls s.buckets) (c : Call)
    (hle : ∀ c' ∈ calls, c'.sec ≤ c.sec) : WindowInv (calls ++ [c]) (s.call c).buckets := by
  cases c with
  | report v nowSec =>
    rw [Stats.call, buckets_onReport, buckets_addBucket]
    refine h.update (.report v nowSec) hle _ rfl ?_ ?_
    · intro hpos
      rw [framesAt, Call.sec, totalAt_report, UInt64.ofNat_add]
      exact congrArg (· + 1) (h.rolled hle hpos).1
    · intro hpos
      rw [bytesAt, Call.sec, totalAt_report, UInt64.ofNat_add, UInt64.ofNat_uInt32ToNat]
      exact congrArg (· + v.frameLen.toUInt64) (h.rolled hle hpos).2
  | snapshot nowSec =>
    have hbuckets : (s.call (.snapshot nowSec)).buckets = (s.rollTo nowSec).buckets := rfl
    rw [hbuckets, buckets_rollTo]
    refine h.update (.snapshot nowSec) hle _ (rolled_sec _ _) ?_ ?_
    · intro hpos
      rw [framesAt, totalAt_snapshot]
      exact (h.rolled hle hpos).1
    · intro hpos
      rw [bytesAt, totalAt_snapshot]
      exact (h.rolled hle hpos).2

theorem windowInv_after (calls : List Call) (h : (calls.map Call.sec).Pairwise (· ≤ ·)) :
    WindowInv calls (Stats.after calls).buckets := by
  induction calls using List.reverseRecOn with
  | nil => exact windowInv_init
  | append_singleton calls c ih =>
    rw [List.map_append, List.pairwise_append] at h
    rw [Stats.after, List.foldl_append]
    refine (ih h.1).call c ?_
    intro c' hc'
    exact h.2.2 c'.sec (List.mem_map_of_mem hc') c.sec (by simp)

/-! ## The sums of a snapshot -/

/-- What the round `i` adds to one of the two sums. -/
def counted (s : Stats) (nowSec : Nat) (field : SecBucket → UInt64) (i : Nat) : Nat :=
  if (s.roundBucket nowSec i).recent nowSec then (field (s.roundBucket nowSec i)).toNat else 0

theorem sums_eq (s : Stats) (nowSec n : Nat) :
    (List.range n).foldl (fun (acc : ℚ × ℚ) k =>
      let b := s.roundBucket nowSec (k + 1)
      if b.recent nowSec then (acc.1 + b.frames.toNat, acc.2 + b.bytes.toNat) else acc) (0, 0)
        = (((∑ k ∈ Finset.range n, counted s nowSec SecBucket.frames (k + 1) : Nat) : ℚ),
          ((∑ k ∈ Finset.range n, counted s nowSec SecBucket.bytes (k + 1) : Nat) : ℚ)) := by
  induction n with
  | zero => rfl
  | succ n ih =>
    rw [List.range_succ, List.foldl_append, ih, Finset.sum_range_succ, Finset.sum_range_succ]
    simp only [List.foldl_cons, List.foldl_nil, counted]
    split <;> simp

section
variable {calls : List Call} {s : Stats} {nowSec : Nat}

/-- A round adds what is held of its second. -/
theorem counted_eq (h : WindowInv calls s.buckets)
    (hnow : (s.buckets (Stats.bucketIdx nowSec)).sec = nowSec) (hle : ∀ c ∈ calls, c.sec ≤ nowSec)
    (field : SecBucket → UInt64) (w : ReportView → Nat)
    (hfield : ∀ j, 0 < (s.buckets j).sec →
      field (s.buckets j) = UInt64.ofNat (totalAt w calls (s.buckets j).sec))
    {i : Nat} (hi : i < 60) :
    counted s nowSec field i = held (totalAt w calls) (nowSec - i) := by
  have hbound := h.le nowSec hle (Stats.bucketIdx (nowSec + kWindow * 4 - i))
  have hslot : _ ∨ _ % 60 = (nowSec + 240 - i) % 60 :=
    h.slot (Stats.bucketIdx (nowSec + kWindow * 4 - i))
  by_cases ht : nowSec ≤ i
  · -- a bucket of this slot would be of a second to come
    have hheld : held (totalAt w calls) (nowSec - i) = 0 := if_pos (by omega)
    rw [hheld, counted, if_neg]
    rw [SecBucket.recent_iff, Stats.roundBucket]
    omega
  · have hidx : Stats.bucketIdx (nowSec + kWindow * 4 - i) = Stats.bucketIdx (nowSec - i) := by
      refine Fin.ext ?_
      simp only [Stats.bucketIdx, kWindow]
      omega
    have hheld : held (totalAt w calls) (nowSec - i)
        = totalAt w calls (nowSec - i : Nat) % 2 ^ 64 := by
      rw [held, if_neg (by omega), Int.ofNat_sub (by omega)]
    rw [hheld, counted, Stats.roundBucket]
    by_cases hsec : (s.buckets (Stats.bucketIdx (nowSec - i))).sec = nowSec - i
    · rw [hidx, if_pos, hfield _ (by omega), hsec, UInt64.toNat_ofNat']
      rw [SecBucket.recent_iff]
      omega
    · rw [if_neg, h.totalAt_eq_zero w hle (by simp only [kWindow]; omega) hsec, Nat.zero_mod]
      rw [SecBucket.recent_iff]
      rw [← hidx] at hsec
      -- the bucket is at least 60 seconds older, and that of the current second is current
      rcases Nat.eq_zero_or_pos i with rfl | hpos
      · rw [hidx] at hsec
        exact absurd hnow hsec
      · omega

/-- The sum over the rounds takes in the current second and the 59 before it. -/
theorem sum_counted (h : WindowInv calls s.buckets)
    (hnow : (s.buckets (Stats.bucketIdx nowSec)).sec = nowSec) (hle : ∀ c ∈ calls, c.sec ≤ nowSec)
    (field : SecBucket → UInt64) (w : ReportView → Nat)
    (hfield : ∀ j, 0 < (s.buckets j).sec →
      field (s.buckets j) = UInt64.ofNat (totalAt w calls (s.buckets j).sec)) :
    ∑ k ∈ Finset.range kWindow, counted s nowSec field (k + 1)
      = ∑ i ∈ Finset.Ico (1 : Nat) 6, held (totalAt w calls) (nowSec - i)
        + stray (totalAt w calls) nowSec := by
  have hlast : counted s nowSec field (59 + 1) = held (totalAt w calls) nowSec := by
    have hidx : Stats.bucketIdx (nowSec + kWindow * 4 - (59 + 1))
        = Stats.bucketIdx (nowSec + kWindow * 4 - 0) := by
      refine Fin.ext ?_
      simp only [Stats.bucketIdx, kWindow]
      omega
    have hround : counted s nowSec field (59 + 1) = counted s nowSec field 0 := by
      rw [counted, counted, Stats.roundBucket, hidx]
      rfl
    rw [hround, counted_eq h hnow hle field w hfield (by decide)]
    simp
  have hrest : ∑ k ∈ Finset.range 59, counted s nowSec field (k + 1)
      = ∑ i ∈ Finset.Ico (1 : Nat) 60, held (totalAt w calls) (nowSec - i) := by
    rw [Finset.sum_Ico_eq_sum_range]
    refine Finset.sum_congr rfl ?_
    intro k hk
    rw [Finset.mem_range] at hk
    rw [counted_eq h hnow hle field w hfield (by omega), Nat.add_comm]
  rw [show kWindow = 59 + 1 from rfl, Finset.sum_range_succ, hlast, hrest, stray,
    ← Finset.sum_Ico_consecutive _ (by decide : 1 ≤ 6) (by decide : 6 ≤ 60)]
  omega

end

section
variable {calls : List Call} {nowSec : Nat}

/-- The seconds of the calls, and of a snapshot after them, never decrease. -/
def Ordered (calls : List Call) (nowSec : Nat) : Prop :=
  (calls.map Call.sec ++ [nowSec]).Pairwise (· ≤ ·)

instance : Decidable (Ordered calls nowSec) := inferInstanceAs (Decidable (List.Pairwise _ _))

/-- The two values of a snapshot. -/
theorem snapshotJson_eq (h : Ordered calls nowSec) :
    ((Stats.after calls).snapshotJson nowSec).1.fps5s
        = (∑ i ∈ Finset.Ico (1 : Nat) 6, held (framesAt calls) (nowSec - i)
          + stray (framesAt calls) nowSec : Nat) / 5 ∧
      ((Stats.after calls).snapshotJson nowSec).1.mbps5s
        = (∑ i ∈ Finset.Ico (1 : Nat) 6, held (bytesAt calls) (nowSec - i)
          + stray (bytesAt calls) nowSec : Nat) / 5 / 1024 / 1024 := by
  obtain ⟨hsorted, -, hlast⟩ := List.pairwise_append.mp h
  have hle : ∀ c ∈ calls, c.sec ≤ nowSec := fun c hc =>
    hlast c.sec (List.mem_map_of_mem hc) nowSec List.mem_cons_self
  have hinv := (windowInv_after calls hsorted).call (.snapshot nowSec) hle
  have hle' : ∀ c ∈ calls ++ [.snapshot nowSec], c.sec ≤ nowSec := by
    intro c hc
    rcases List.mem_append.mp hc with hc | hc
    · exact hle c hc
    · rw [List.mem_singleton.mp hc]
      exact Nat.le_refl _
  have hnow : (((Stats.after calls).rollTo nowSec).buckets (Stats.bucketIdx nowSec)).sec
      = nowSec := by
    rw [buckets_rollTo, Function.update_self, rolled_sec]
  have hframes := sum_counted hinv hnow hle' SecBucket.frames (fun _ => 1) hinv.frames
  have hbytes := sum_counted hinv hnow hle' SecBucket.bytes (fun v => v.frameLen.toNat) hinv.bytes
  simp only [totalAt_snapshot, Stats.call, Stats.snapshotJson, held, stray] at hframes hbytes
  unfold Stats.snapshotJson
  simp only [sums_eq, hframes, hbytes]
  exact ⟨rfl, rfl⟩

theorem held_le (total : Int → Nat) (t : Int) : held total t ≤ total t := by
  unfold held
  split
  · exact Nat.zero_le _
  · exact Nat.mod_le _ _

/-- What the window takes in too much, against what it leaves out. -/
theorem window_eq_iff (total : Int → Nat) (nowSec : Nat) :
    ∑ i ∈ Finset.Ico (1 : Nat) 6, held total (nowSec - i) + stray total nowSec
        = ∑ i ∈ Finset.Ico (1 : Nat) 6, total (nowSec - i) ↔
      stray total nowSec = lost total nowSec := by
  have hsplit : ∑ i ∈ Finset.Ico (1 : Nat) 6, total (nowSec - i)
      = ∑ i ∈ Finset.Ico (1 : Nat) 6, held total (nowSec - i) + lost total nowSec := by
    rw [lost, ← Finset.sum_add_distrib]
    refine Finset.sum_congr rfl ?_
    intro i _
    exact (Nat.add_sub_of_le (held_le total (nowSec - i))).symm
  rw [hsplit, Nat.add_left_cancel_iff]

/-- What the window takes in too much is as much as what it leaves out, in frames and in bytes. -/
def Balanced (calls : List Call) (nowSec : Nat) : Prop :=
  stray (framesAt calls) nowSec = lost (framesAt calls) nowSec ∧
    stray (bytesAt calls) nowSec = lost (bytesAt calls) nowSec

instance : Decidable (Balanced calls nowSec) := inferInstanceAs (Decidable (_ ∧ _))

/-- A total without reports in the seconds that do not belong to the window. -/
theorem stray_eq_zero_iff (total : Int → Nat) (hfit : ∀ t, total t < 2 ^ 64) (nowSec : Nat) :
    stray total nowSec = 0 ↔ ∀ t : Nat, 0 < t → t = nowSec ∨ t + 5 < nowSec ∧ nowSec < t + 60 →
      total t = 0 := by
  have hheld : ∀ t : Nat, held total t = 0 ↔ (0 < t → total t = 0) := by
    intro t
    unfold held
    split
    · exact iff_of_true rfl fun hpos => by omega
    · rw [Nat.mod_eq_of_lt (hfit t)]
      exact ⟨fun h _ => h, fun h => h (by omega)⟩
  rw [stray, Nat.add_eq_zero_iff, Finset.sum_eq_zero_iff, hheld]
  constructor
  · rintro ⟨hnow, hold⟩ t hpos (rfl | ⟨h5, h60⟩)
    · exact hnow hpos
    · have hzero := hold (nowSec - t) (by rw [Finset.mem_Ico]; omega)
      rw [show ((nowSec : Int) - (nowSec - t : Nat)) = t by omega] at hzero
      exact (hheld t).mp hzero hpos
  · intro h
    refine ⟨fun hpos => h nowSec hpos (Or.inl rfl), ?_⟩
    intro i hi
    rw [Finset.mem_Ico] at hi
    by_cases hlt : i < nowSec
    · rw [show ((nowSec : Int) - i) = (nowSec - i : Nat) by omega]
      exact (hheld _).mpr fun hpos => h _ hpos (by omega)
    · exact if_pos (by omega)

/-- From second 6 on, when no second has 2^64 bytes: nothing has arrived in the other seconds. -/
theorem balanced_iff_quiet (hlate : 5 < nowSec)
    (hfit : ∀ t, framesAt calls t < 2 ^ 64 ∧ bytesAt calls t < 2 ^ 64) :
    Balanced calls nowSec ↔ ∀ t : Nat, 0 < t → t = nowSec ∨ t + 5 < nowSec ∧ nowSec < t + 60 →
      ∀ v, .report v t ∉ calls := by
  have hlost : ∀ total : Int → Nat, (∀ t, total t < 2 ^ 64) → lost total nowSec = 0 := by
    intro total hfit
    refine Finset.sum_eq_zero ?_
    intro i hi
    rw [Finset.mem_Ico] at hi
    rw [held, if_neg (by omega), Nat.mod_eq_of_lt (hfit _), Nat.sub_self]
  unfold Balanced
  rw [hlost _ fun t => (hfit t).1, hlost _ fun t => (hfit t).2,
    stray_eq_zero_iff _ fun t => (hfit t).1, stray_eq_zero_iff _ fun t => (hfit t).2]
  constructor
  · rintro ⟨hframes, -⟩ t hpos ht v hmem
    have hzero := List.sum_eq_zero_iff_forall_eq_nat.mp (hframes t hpos ht) _
      (List.mem_map_of_mem hmem)
    simp [Call.weight] at hzero
  · intro h
    have hnone : ∀ w, ∀ t : Nat, 0 < t → t = nowSec ∨ t + 5 < nowSec ∧ nowSec < t + 60 →
        totalAt w calls t = 0 := by
      intro w t hpos ht
      refine totalAt_eq_zero w ?_
      intro v t' hmem heq
      rw [Int.ofNat_inj] at heq
      subst heq
      exact h t' hpos ht v hmem
    exact ⟨hnone _, hnone _⟩

/--
**Averages over five seconds.** A snapshot reports the averages over the five seconds before its own
if and only if what the window takes in of other seconds, the current one and the 54 before the five,
is as much as what it leaves out of the five.
-/
theorem windowLaw_iff (calls : List Call) (nowSec : Nat) (h : Ordered calls nowSec) :
    WindowLaw calls nowSec ↔ Balanced calls nowSec := by
  obtain ⟨hfps, hmbps⟩ := snapshotJson_eq h
  rw [Balanced, ← window_eq_iff, ← window_eq_iff]
  constructor
  · rintro ⟨h1, h2⟩
    rw [hfps] at h1
    rw [hmbps] at h2
    constructor
    · field_simp at h1
      exact_mod_cast h1
    · field_simp at h2
      exact_mod_cast h2
  · rintro ⟨h1, h2⟩
    refine ⟨by rw [hfps, h1], ?_⟩
    rw [hmbps, h2]
    ring

/-- A frame of 100 bytes at second 100, and a snapshot three seconds later. -/
theorem windowLaw_recent : WindowLaw [.report { frameLen := 100 } 100] 103 :=
  (windowLaw_iff [.report { frameLen := 100 } 100] 103 (by decide)).mpr (by decide)

/-- Ten seconds later the frame still counts. -/
theorem not_windowLaw_old : ¬ WindowLaw [.report { frameLen := 100 } 100] 110 := by
  intro h
  have hfps := h.fps
  rw [(snapshotJson_eq (by decide)).1] at hfps
  have hreported : ∑ i ∈ Finset.Ico (1 : Nat) 6,
      held (framesAt [.report { frameLen := 100 } 100]) ((110 : Nat) - i)
        + stray (framesAt [.report { frameLen := 100 } 100]) 110 = 1 := by decide
  have harrived : ∑ i ∈ Finset.Ico (1 : Nat) 6,
      framesAt [.report { frameLen := 100 } 100] ((110 : Nat) - i) = 0 := by decide
  rw [hreported, harrived] at hfps
  norm_num at hfps

end

end Dts.Web
