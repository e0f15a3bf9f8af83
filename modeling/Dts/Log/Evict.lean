import Dts.Log.Sink

/-!
# Removing the oldest log files

`EvictOldestIfNeeded` selects the oldest file again and again. `EvictLaw` is what it is for: it removes
the shortest prefix of the other files of the sink, in the order of their times, that brings the total
down to `maxTotal`.

The total is a `uintmax_t`, so the law is about directories whose files add up to less than 2^64 bytes:
`evictLaw_of_fits`.
-/

namespace Dts.Log

open Infra Ctl

/-! ## The law -/

def sizes (files : List File) : Nat := (files.map fun f => f.size.toNat).sum

/-- The files of the sink that may be removed. -/
def candidates (s : TsRotatingSink) (files : List File) : List File :=
  files.filter fun f => !s.isCurrent f

/-- **The law.** What `EvictOldestIfNeeded` removes from a directory with these entries. -/
structure EvictLaw (s : TsRotatingSink) (entries : List File) : Prop where
  /-- only files of the sink, and never the current one -/
  safe : ∀ remove, ∀ f ∈ s.evictOldestIfNeeded remove entries,
    f ∈ entries ∧ s.isOwn f = true ∧ s.isCurrent f = false
  /-- the shortest sufficient prefix when all removals succeed, and all of them if none suffices -/
  shortest : ∀ remove, (∀ f ∈ candidates s (entries.filter s.isOwn), remove f = true) →
    ∃ n, s.evictOldestIfNeeded remove entries
        = (inOrder File.mtime (candidates s (entries.filter s.isOwn))).take n ∧
      (∀ k < n, s.maxTotal.toNat
          + sizes ((inOrder File.mtime (candidates s (entries.filter s.isOwn))).take k)
        < sizes (entries.filter s.isOwn)) ∧
      (sizes (entries.filter s.isOwn) ≤ s.maxTotal.toNat
          + sizes ((inOrder File.mtime (candidates s (entries.filter s.isOwn))).take n) ∨
        n = (candidates s (entries.filter s.isOwn)).length)

/-! ## The order -/

section
variable (s : TsRotatingSink)

/-- Others before the current file, then by time. -/
def evictKey (f : File) : Bool ×ₗ Int := toLex (s.isCurrent f, f.mtime)

theorem comparesBy_before : ComparesBy s.before (evictKey s) := by
  intro a b
  rw [evictKey, evictKey, Prod.Lex.toLex_lt_toLex, TsRotatingSink.before]
  cases s.isCurrent a <;> cases s.isCurrent b <;> simp

theorem comparesBy_mtime :
    ComparesBy (fun a b : File => decide (a.mtime < b.mtime)) File.mtime :=
  fun _ _ => decide_eq_true_iff

variable {s}

/-- When the selected file is the current one there is no other. -/
theorem candidates_eq_nil {files : List File} {oldest : File}
    (h : minElement s.before files = some oldest) (hcur : s.isCurrent oldest = true) :
    candidates s files = [] := by
  refine List.filter_eq_nil_iff.mpr ?_
  intro f hf
  have hle := minElement_le (comparesBy_before s) h f hf
  rw [evictKey, evictKey, Prod.Lex.toLex_le_toLex, hcur] at hle
  cases hother : s.isCurrent f with
  | true => simp
  | false =>
    rw [hother] at hle
    revert hle
    simp

/-- Else it is the oldest of the others. -/
theorem inOrder_candidates {files : List File} {oldest : File}
    (h : minElement s.before files = some oldest) (hcur : s.isCurrent oldest = false) :
    inOrder File.mtime (candidates s files)
      = oldest :: inOrder File.mtime (candidates s (files.erase oldest)) := by
  have hmin : minElement (fun a b : File => decide (a.mtime < b.mtime)) (candidates s files)
      = some oldest := by
    obtain ⟨pre, post, rfl, hpre, hpost⟩ := (minElement_eq_some_iff (comparesBy_before s)).mp h
    refine (minElement_eq_some_iff comparesBy_mtime).mpr
      ⟨candidates s pre, candidates s post, ?_, ?_, ?_⟩
    · rw [candidates, List.filter_append, List.filter_cons_of_pos (by simp [hcur])]
      rfl
    · intro f hf
      obtain ⟨hf, hother⟩ := List.mem_filter.mp hf
      have hlt := hpre f hf
      rw [evictKey, evictKey, Prod.Lex.toLex_lt_toLex, hcur] at hlt
      simpa [show s.isCurrent f = false by simpa using hother] using hlt
    · intro f hf
      obtain ⟨hf, hother⟩ := List.mem_filter.mp hf
      have hle := hpost f hf
      rw [evictKey, evictKey, Prod.Lex.toLex_le_toLex, hcur] at hle
      simpa [show s.isCurrent f = false by simpa using hother] using hle
  rw [inOrder_of_minElement comparesBy_mtime hmin, candidates, candidates, List.erase_filter]

theorem sizes_cons (f : File) (files : List File) : sizes (f :: files) = f.size.toNat + sizes files := by
  simp [sizes]

theorem sizes_erase {files : List File} {f : File} (h : f ∈ files) :
    sizes files = f.size.toNat + sizes (files.erase f) := by
  rw [← sizes_cons]
  exact ((List.perm_cons_erase h).map _).sum_nat

/-! ## The loop -/

/-- Whatever can be removed, it is none but the other files. -/
theorem mem_evictLoop (remove : File → Bool) (total : UInt64) (files : List File) :
    ∀ f ∈ s.evictLoop remove total files, f ∈ files ∧ s.isCurrent f = false := by
  fun_induction s.evictLoop remove total files with
  | case1 => simp
  | case2 => simp
  | case3 total files _ oldest hmin hcur hrem ih =>
    intro f hf
    rcases List.mem_cons.mp hf with rfl | hf
    · exact ⟨mem_of_minElement hmin, Bool.eq_false_of_not_eq_true hcur⟩
    · exact ⟨List.mem_of_mem_erase (ih f hf).1, (ih f hf).2⟩
  | case4 total files _ oldest hmin hcur hrem ih =>
    intro f hf
    exact ⟨List.mem_of_mem_erase (ih f hf).1, (ih f hf).2⟩
  | case5 => simp

/-- The loop when nothing fails, on files whose sizes are the total. -/
theorem evictLoop_eq (remove : File → Bool) (total : UInt64) (files : List File)
    (hremove : ∀ f ∈ candidates s files, remove f = true) (htotal : total.toNat = sizes files) :
    ∃ n, s.evictLoop remove total files = (inOrder File.mtime (candidates s files)).take n ∧
      (∀ k < n, s.maxTotal.toNat + sizes ((inOrder File.mtime (candidates s files)).take k)
        < sizes files) ∧
      (sizes files ≤ s.maxTotal.toNat + sizes ((inOrder File.mtime (candidates s files)).take n) ∨
        n = (candidates s files).length) := by
  fun_induction s.evictLoop remove total files with
  | case1 total files hgt hmin =>
    rw [minElement_eq_none_iff.mp hmin] at htotal ⊢
    rw [UInt64.lt_iff_toNat_lt, htotal] at hgt
    exact absurd hgt (Nat.not_lt_zero _)
  | case2 total files hgt oldest hmin hcur =>
    rw [candidates_eq_nil hmin hcur]
    exact ⟨0, rfl, by simp, Or.inr rfl⟩
  | case3 total files hgt oldest hmin hcur hrem ih =>
    have hother := Bool.eq_false_of_not_eq_true hcur
    have hsizes := sizes_erase (mem_of_minElement hmin)
    have hsub : (total - oldest.size).toNat = sizes (files.erase oldest) := by
      rw [UInt64.toNat_sub_of_le _ _ (by rw [UInt64.le_iff_toNat_le]; omega)]
      omega
    have hsubset : ∀ f ∈ candidates s (files.erase oldest), remove f = true := by
      intro f hf
      obtain ⟨hf, hne⟩ := List.mem_filter.mp hf
      exact hremove f (List.mem_filter.mpr ⟨List.mem_of_mem_erase hf, hne⟩)
    obtain ⟨n, htake, hshort, hend⟩ := ih hsubset hsub
    have horder := inOrder_candidates hmin hother
    have hlength : (candidates s files).length = (candidates s (files.erase oldest)).length + 1 := by
      rw [← (inOrder_perm File.mtime (candidates s files)).length_eq, horder,
        List.length_cons, (inOrder_perm ..).length_eq]
    rw [horder, hlength, hsizes, htake]
    refine ⟨n + 1, rfl, ?_, ?_⟩
    · intro k hk
      cases k with
      | zero =>
        rw [UInt64.lt_iff_toNat_lt] at hgt
        simp only [List.take_zero, sizes, List.map_nil, List.sum_nil] at *
        omega
      | succ k =>
        have := hshort k (by omega)
        rw [List.take_succ_cons, sizes_cons]
        omega
    · rw [List.take_succ_cons, sizes_cons]
      omega
  | case4 total files hgt oldest hmin hcur hrem ih =>
    -- the file can be removed
    have hmem : oldest ∈ candidates s files := List.mem_filter.mpr
      ⟨mem_of_minElement hmin, by simpa using hcur⟩
    exact absurd (hremove oldest hmem) hrem
  | case5 total files hle =>
    refine ⟨0, rfl, by simp, Or.inl ?_⟩
    rw [UInt64.lt_iff_toNat_lt] at hle
    omega

/-- The sum in 64 bits, when it fits. -/
theorem toNat_total (files : List File) (total : UInt64) (hfits : total.toNat + sizes files < 2 ^ 64) :
    (files.foldl (fun total f => total + f.size) total).toNat = total.toNat + sizes files := by
  induction files generalizing total with
  | nil => rfl
  | cons f files ih =>
    rw [sizes_cons] at hfits ⊢
    have hadd : (total + f.size).toNat = total.toNat + f.size.toNat := by
      rw [UInt64.toNat_add, Nat.mod_eq_of_lt (by omega)]
    rw [List.foldl_cons, ih _ (by rw [hadd]; omega), hadd]
    omega

/--
**Eviction.** In a directory where the files of the sink add up to less than 2^64 bytes,
`EvictOldestIfNeeded` keeps the law.
-/
theorem evictLaw_of_fits (s : TsRotatingSink) (entries : List File)
    (hfits : sizes (entries.filter s.isOwn) < 2 ^ 64) : EvictLaw s entries := by
  refine ⟨?_, ?_⟩
  · intro remove f hf
    obtain ⟨hmem, hother⟩ := mem_evictLoop remove _ _ f hf
    obtain ⟨hmem, hown⟩ := List.mem_filter.mp hmem
    exact ⟨hmem, hown, hother⟩
  · intro remove hremove
    refine evictLoop_eq remove _ _ hremove ?_
    rw [toNat_total _ _ (by rw [UInt64.toNat_zero]; omega), UInt64.toNat_zero, Nat.zero_add]

end

/-! ## Two directories -/

/-- A sink for the files `p*.log` of the directory `d`, up to 5 MiB each and 10 MiB together. -/
def plainSink : TsRotatingSink := TsRotatingSink.make (utf8 "d") (utf8 "p%Y") 5 10

def plainFile (name : String) (size : UInt64) (mtime : Int) : File :=
  ⟨FsPath.parse (utf8 "d/" ++ utf8 name), true, size, mtime⟩

/-- The oldest file is the current one, and two files are not of the sink. -/
theorem evictLaw_oldest_current : EvictLaw { plainSink with currentPath := utf8 "d/p1.log" }
    [plainFile "q0.log" 5242880 0, plainFile "p1.log" 5242880 1, plainFile "p2.log" 5242880 2,
      plainFile "p3.log" 5242880 3, plainFile "p4.txt" 5242880 4, plainFile "p5.log" 5242880 5] :=
  evictLaw_of_fits { plainSink with currentPath := utf8 "d/p1.log" }
    [plainFile "q0.log" 5242880 0, plainFile "p1.log" 5242880 1, plainFile "p2.log" 5242880 2,
      plainFile "p3.log" 5242880 3, plainFile "p4.txt" 5242880 4, plainFile "p5.log" 5242880 5]
    (by decide)

/-- Sparse files of 2^63 - 1, 2^63 - 1 and 2 bytes: the total wraps to 0 and nothing is removed. -/
theorem not_evictLaw_wrapped : ¬ EvictLaw plainSink
    [plainFile "p1.log" 9223372036854775807 1, plainFile "p2.log" 9223372036854775807 2,
      plainFile "p3.log" 2 3] := by
  intro h
  obtain ⟨n, hremoved, -, hend⟩ := h.shortest (fun _ => true) fun _ _ => rfl
  have hnone : plainSink.evictOldestIfNeeded (fun _ => true)
      [plainFile "p1.log" 9223372036854775807 1, plainFile "p2.log" 9223372036854775807 2,
        plainFile "p3.log" 2 3] = [] := by
    rw [TsRotatingSink.evictOldestIfNeeded, TsRotatingSink.evictLoop, if_neg (by decide)]
  have hlength := congrArg List.length (hnone.symm.trans hremoved)
  rw [List.length_take, (inOrder_perm ..).length_eq] at hlength
  have hthree : (candidates plainSink (List.filter plainSink.isOwn
      [plainFile "p1.log" 9223372036854775807 1, plainFile "p2.log" 9223372036854775807 2,
        plainFile "p3.log" 2 3])).length = 3 := by decide
  rw [hthree] at hlength hend
  have hzero : n = 0 := by
    simp only [List.length_nil] at hlength
    omega
  subst hzero
  revert hend
  decide

end Dts.Log
