import Mathlib.Logic.Function.Basic
import Dts.Infra.Run

/-!
# Taking a system down

One thread runs a program that joins the other threads and frees objects, while these threads run on
and use the objects until they end. `Guarded` says that the program frees an object behind the joins
of all threads that use it.

* `faultless_iff` — no thread ever uses a freed object exactly when the program is guarded
* `guarded_iff` — for finitely many threads that can be computed
-/

namespace Infra

/-- The statements of the main thread. -/
inductive TeardownOp (τ ω : Type*) where
  | join (t : τ)
  | free (o : ω)

/-- `fault` says that a freed object was used. -/
structure Teardown (τ ω : Type*) where
  rest : List (TeardownOp τ ω)
  alive : ω → Bool
  running : τ → Bool
  fault : Bool

/-- The main thread goes on, a thread uses an object, or it ends. -/
inductive TeardownAct (τ ω : Type*) where
  | main
  | use (t : τ) (o : ω)
  | exit (t : τ)

variable {τ ω : Type*}

/-- All objects are there, and `threads` run. -/
def Teardown.init (threads : τ → Bool) (program : List (TeardownOp τ ω)) : Teardown τ ω :=
  ⟨program, fun _ => true, threads, false⟩

/-- Every object is freed behind the joins of the threads that use it. -/
def Guarded (uses : τ → ω → Bool) (threads : τ → Bool) (program : List (TeardownOp τ ω)) : Prop :=
  ∀ pre o post, program = pre ++ .free o :: post → ∀ t, threads t = true → uses t o = true →
    .join t ∈ pre

/-- What is done so far. -/
structure TeardownInv (threads : τ → Bool) (program : List (TeardownOp τ ω))
    (s : Teardown τ ω) (done : List (TeardownOp τ ω)) : Prop where
  split : program = done ++ s.rest
  freed : ∀ o, s.alive o = false → .free o ∈ done
  joined : ∀ t, .join t ∈ done → s.running t = false
  started : ∀ t, s.running t = true → threads t = true

/-- With fewer threads less is asked. -/
theorem Guarded.mono {uses : τ → ω → Bool} {threads threads' : τ → Bool}
    {program : List (TeardownOp τ ω)} (h : Guarded uses threads' program)
    (hle : ∀ t, threads t = true → threads' t = true) : Guarded uses threads program :=
  fun pre o post hsplit t ht huse => h pre o post hsplit t (hle t ht) huse

variable [DecidableEq τ] [DecidableEq ω]

/-- A join waits until the thread has ended. -/
def teardownStep (uses : τ → ω → Bool) (s : Teardown τ ω) :
    TeardownAct τ ω → Option (Teardown τ ω)
  | .main =>
    match s.rest with
    | [] => none
    | .join t :: rest => if s.running t then none else some { s with rest := rest }
    | .free o :: rest => some { s with rest := rest, alive := Function.update s.alive o false }
  | .use t o =>
    if s.running t && uses t o then some { s with fault := s.fault || !s.alive o } else none
  | .exit t => some { s with running := Function.update s.running t false }

/-! ## A guarded program -/

variable {uses : τ → ω → Bool} {threads : τ → Bool} {program : List (TeardownOp τ ω)}

theorem teardownInv_step {s t : Teardown τ ω} {a : TeardownAct τ ω} {done : List (TeardownOp τ ω)}
    (h : TeardownInv threads program s done) (hstep : teardownStep uses s a = some t) :
    ∃ done', TeardownInv threads program t done' := by
  cases a with
  | main =>
    simp only [teardownStep] at hstep
    split at hstep
    · cases hstep
    · rename_i u rest hrest
      split at hstep
      · cases hstep
      · rename_i hrun
        cases hstep
        refine ⟨done ++ [.join u], by rw [h.split, hrest, List.append_assoc]; rfl, ?_, ?_, h.started⟩
        · exact fun o ho => List.mem_append_left _ (h.freed o ho)
        · intro v hv
          rcases List.mem_append.mp hv with hv | hv
          · exact h.joined v hv
          · cases List.mem_singleton.mp hv
            exact eq_false_of_ne_true hrun
    · rename_i o rest hrest
      cases hstep
      refine ⟨done ++ [.free o], by rw [h.split, hrest, List.append_assoc]; rfl, ?_, ?_, h.started⟩
      · intro p hp
        change Function.update s.alive o false p = false at hp
        by_cases hpo : p = o
        · rw [hpo]
          exact List.mem_append_right _ List.mem_cons_self
        · rw [Function.update_of_ne hpo] at hp
          exact List.mem_append_left _ (h.freed p hp)
      · intro v hv
        rcases List.mem_append.mp hv with hv | hv
        · exact h.joined v hv
        · cases List.mem_singleton.mp hv
  | use u o =>
    simp only [teardownStep] at hstep
    split at hstep
    · cases hstep
      exact ⟨done, h.split, h.freed, h.joined, h.started⟩
    · cases hstep
  | exit u =>
    cases hstep
    refine ⟨done, h.split, h.freed, fun v hv => ?_, fun v hv => ?_⟩
    · show Function.update s.running u false v = false
      by_cases hvu : v = u
      · rw [hvu, Function.update_self]
      · rw [Function.update_of_ne hvu]
        exact h.joined v hv
    · change Function.update s.running u false v = true at hv
      by_cases hvu : v = u
      · rw [hvu, Function.update_self] at hv
        cases hv
      · rw [Function.update_of_ne hvu] at hv
        exact h.started v hv

theorem fault_step {s t : Teardown τ ω} {a : TeardownAct τ ω} {done : List (TeardownOp τ ω)}
    (hguard : Guarded uses threads program) (h : TeardownInv threads program s done)
    (hfault : s.fault = false) (hstep : teardownStep uses s a = some t) : t.fault = false := by
  cases a with
  | main =>
    simp only [teardownStep] at hstep
    split at hstep
    · cases hstep
    · split at hstep <;> cases hstep
      exact hfault
    · cases hstep
      exact hfault
  | use u o =>
    simp only [teardownStep] at hstep
    split at hstep
    · rename_i huse
      cases hstep
      obtain ⟨hrun, huse⟩ := Bool.and_eq_true_iff.mp huse
      have halive : s.alive o = true := by
        by_contra hdead
        obtain ⟨pre, post, hdone⟩ := List.append_of_mem (h.freed o (eq_false_of_ne_true hdead))
        have hsplit : program = pre ++ .free o :: (post ++ s.rest) := by
          rw [h.split, hdone, List.append_assoc]
          rfl
        have hjoin := hguard pre o _ hsplit u (h.started u hrun) huse
        have hended := h.joined u (hdone ▸ List.mem_append_left _ hjoin)
        rw [hrun] at hended
        cases hended
      show (s.fault || !s.alive o) = false
      rw [hfault, halive]
      rfl
    · cases hstep
  | exit u =>
    cases hstep
    exact hfault

/-! ## A program that is not -/

/-- The main thread gets to the end of `pre` while a thread that is not joined there runs. -/
theorem exists_behind (uses : τ → ω → Bool) {t : τ} (pre : List (TeardownOp τ ω))
    {post : List (TeardownOp τ ω)} {s : Teardown τ ω} (hrest : s.rest = pre ++ post)
    (hrun : s.running t = true) (hjoin : .join t ∉ pre) :
    ∃ run s', exec (teardownStep uses) s run = some s' ∧ s'.rest = post ∧ s'.running t = true := by
  induction pre generalizing s with
  | nil => exact ⟨[], s, rfl, hrest, hrun⟩
  | cons op pre ih =>
    have hpre : .join t ∉ pre := fun h => hjoin (List.mem_cons_of_mem op h)
    cases op with
    | join u =>
      have htu : t ≠ u := by
        rintro rfl
        exact hjoin List.mem_cons_self
      obtain ⟨run, s', hexec, hend⟩ := ih
        (s := { s with rest := pre ++ post, running := Function.update s.running u false }) rfl
        (by rw [← hrun]; exact Function.update_of_ne htu _ _) hpre
      refine ⟨.exit u :: .main :: run, s', ?_, hend⟩
      show exec (teardownStep uses) { s with running := Function.update s.running u false }
        (.main :: run) = some s'
      rw [exec_cons]
      simp only [teardownStep, hrest, List.cons_append, Option.bind_some, Function.update_self,
        Bool.false_eq_true, if_false]
      exact hexec
    | free o =>
      obtain ⟨run, s', hexec, hend⟩ := ih
        (s := { s with rest := pre ++ post, alive := Function.update s.alive o false }) rfl hrun hpre
      refine ⟨.main :: run, s', ?_, hend⟩
      rw [exec_cons]
      simp only [teardownStep, hrest, List.cons_append, Option.bind_some]
      exact hexec

/-- **Teardown.** No thread uses a freed object in any run exactly when the program is guarded. -/
theorem faultless_iff : (∀ run s, exec (teardownStep uses) (Teardown.init threads program) run = some s →
      s.fault = false) ↔ Guarded uses threads program := by
  constructor
  · intro hsafe pre o post hprogram t ht huse
    by_contra hjoin
    obtain ⟨run, s, hexec, hrest, hrun⟩ := exists_behind uses pre
      (s := Teardown.init threads program) hprogram ht hjoin
    have hfault := hsafe (run ++ [.main, .use t o])
      { s with rest := post, alive := Function.update s.alive o false, fault := true } ?_
    · cases hfault
    · rw [exec_append, hexec, Option.bind_some, exec_cons]
      simp only [teardownStep, hrest, Option.bind_some, exec_cons, hrun, huse, Bool.and_self, if_true,
        Function.update_self, Bool.not_false, Bool.or_true, exec_nil]
  · intro hguard run s hrun
    have hinv : (∃ done, TeardownInv threads program s done) ∧ s.fault = false := by
      refine @Reachable.invariant _ _ (teardownStep uses)
        (fun s => (∃ done, TeardownInv threads program s done) ∧ s.fault = false) _ s
        ⟨run, hrun⟩ ?_ ?_
      · refine ⟨⟨[], rfl, ?_, ?_, fun t ht => ht⟩, rfl⟩
        · intro o ho
          cases ho
        · intro t ht
          cases ht
      · rintro s a t ⟨⟨done, hinv⟩, hfault⟩ hstep
        exact ⟨teardownInv_step hinv hstep, fault_step hguard hinv hfault hstep⟩
    exact hinv.2

/-! ## Finitely many threads -/

/-- The program is guarded behind the joins of the threads `joined`. -/
def isGuarded (uses : τ → ω → Bool) (threads : List τ) :
    List τ → List (TeardownOp τ ω) → Bool
  | _, [] => true
  | joined, .join t :: rest => isGuarded uses threads (t :: joined) rest
  | joined, .free o :: rest =>
    (threads.all fun t => !uses t o || joined.contains t) && isGuarded uses threads joined rest

omit [DecidableEq ω] in
theorem isGuarded_iff {ts : List τ} (joined : List τ) (program : List (TeardownOp τ ω)) :
    isGuarded uses ts joined program = true ↔
      ∀ pre o post, program = pre ++ .free o :: post → ∀ t ∈ ts, uses t o = true →
        t ∈ joined ∨ .join t ∈ pre := by
  induction program generalizing joined with
  | nil =>
    refine iff_of_true rfl fun pre o post h => ?_
    cases pre <;> cases h
  | cons op rest ih =>
    cases op with
    | join u =>
      rw [isGuarded, ih]
      constructor
      · intro h pre o post hsplit t ht huse
        cases pre with
        | nil => cases hsplit
        | cons x pre =>
          obtain ⟨rfl, hrest⟩ := List.cons_eq_cons.mp hsplit
          rcases h pre o post hrest t ht huse with hjoined | hpre
          · rcases List.mem_cons.mp hjoined with rfl | hjoined
            · exact Or.inr List.mem_cons_self
            · exact Or.inl hjoined
          · exact Or.inr (List.mem_cons_of_mem _ hpre)
      · intro h pre o post hrest t ht huse
        rcases h (.join u :: pre) o post (by rw [hrest]; rfl) t ht huse with hjoined | hpre
        · exact Or.inl (List.mem_cons_of_mem u hjoined)
        · rcases List.mem_cons.mp hpre with heq | hpre
          · cases heq
            exact Or.inl List.mem_cons_self
          · exact Or.inr hpre
    | free p =>
      rw [isGuarded, Bool.and_eq_true, ih, List.all_eq_true]
      constructor
      · rintro ⟨hfree, h⟩ pre o post hsplit t ht huse
        cases pre with
        | nil =>
          cases hsplit
          have hused := hfree t ht
          rw [huse] at hused
          exact Or.inl (List.contains_iff_mem.mp hused)
        | cons x pre =>
          obtain ⟨rfl, hrest⟩ := List.cons_eq_cons.mp hsplit
          exact (h pre o post hrest t ht huse).imp_right (List.mem_cons_of_mem _)
      · intro h
        refine ⟨fun t ht => ?_, fun pre o post hrest t ht huse => ?_⟩
        · cases huse : uses t p with
          | false => rfl
          | true =>
            rcases h [] p rest rfl t ht huse with hjoined | hpre
            · exact List.contains_iff_mem.mpr hjoined
            · cases hpre
        · rcases h (.free p :: pre) o post (by rw [hrest]; rfl) t ht huse with hjoined | hpre
          · exact Or.inl hjoined
          · rcases List.mem_cons.mp hpre with heq | hpre
            · cases heq
            · exact Or.inr hpre

omit [DecidableEq ω] in
/-- The threads of a list are those that run. -/
theorem guarded_iff {ts : List τ} (hts : ∀ t, threads t = true ↔ t ∈ ts) :
    Guarded uses threads program ↔ isGuarded uses ts [] program = true := by
  rw [isGuarded_iff]
  unfold Guarded
  simp only [hts, List.not_mem_nil, false_or]

end Infra
