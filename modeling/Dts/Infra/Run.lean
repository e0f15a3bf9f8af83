import Mathlib.Logic.Basic
import Mathlib.Data.Option.Basic

/-!
# Runs of a transition system

A system is a partial step function `step : σ → α → Option σ`: the action resolves every
choice (which thread moves, what the environment answers), and `none` says that the action
is not enabled. A run is a list of actions.

* `AllStates P s as` — `P` holds in every state the run `as` visits from `s`
* `AllSteps C s as` — every enabled step of the run meets `C` in the state before it

The rule `allStates_of_allSteps` is the one every safety proof uses: an invariant that the steps
meeting `C` preserve holds along all runs made of such steps. `allStates_iff_allSteps` is the
exact form, for the case that a step outside `C` always lands in a state outside `P`.
-/

namespace Infra

variable {σ α : Type*} (step : σ → α → Option σ)

/-- The state after a list of actions, `none` when one of them is not enabled. -/
def exec : σ → List α → Option σ
  | s, [] => some s
  | s, a :: as => (step s a).bind fun t => exec t as

@[simp] theorem exec_nil (s : σ) : exec step s [] = some s := rfl

theorem exec_cons (s : σ) (a : α) (as : List α) :
    exec step s (a :: as) = (step s a).bind fun t => exec step t as := rfl

theorem exec_append (as bs : List α) (s : σ) :
    exec step s (as ++ bs) = (exec step s as).bind fun t => exec step t bs := by
  induction as generalizing s with
  | nil => rfl
  | cons a as ih =>
    rw [List.cons_append, exec_cons, exec_cons]
    cases step s a with
    | none => rfl
    | some t => exact ih t

/-- `s` can be reached from `s₀`. -/
def Reachable (s₀ s : σ) : Prop := ∃ as, exec step s₀ as = some s

/-- `P` holds in every state visited by the run. -/
def AllStates (P : σ → Prop) : σ → List α → Prop
  | s, [] => P s
  | s, a :: as => P s ∧ ∀ t, step s a = some t → AllStates P t as

/-- Every enabled step of the run meets `C` in the state before it. -/
def AllSteps (C : σ → α → Prop) : σ → List α → Prop
  | _, [] => True
  | s, a :: as => ∀ t, step s a = some t → C s a ∧ AllSteps C t as

/-- A condition that can be decided can be checked along a run. -/
instance AllSteps.decidable (C : σ → α → Prop) [∀ s a, Decidable (C s a)] :
    ∀ (s : σ) (as : List α), Decidable (AllSteps step C s as)
  | _, [] => isTrue trivial
  | s, a :: as =>
    match h : step s a with
    | none => isTrue fun t ht => by simp [h] at ht
    | some t =>
      have := AllSteps.decidable C t as
      decidable_of_iff (C s a ∧ AllSteps step C t as) <| by simp [AllSteps, h]

/-- A property that can be decided can be checked in the states of a run. -/
instance AllStates.decidable (P : σ → Prop) [DecidablePred P] :
    ∀ (s : σ) (as : List α), Decidable (AllStates step P s as)
  | s, [] => inferInstanceAs (Decidable (P s))
  | s, a :: as =>
    match h : step s a with
    | none => decidable_of_iff (P s) <| by simp [AllStates, h]
    | some t =>
      have := AllStates.decidable P t as
      decidable_of_iff (P s ∧ AllStates step P t as) <| by simp [AllStates, h]

variable {step}

theorem Reachable.refl (s : σ) : Reachable step s s := ⟨[], rfl⟩

theorem Reachable.tail {s₀ s t : σ} {a : α} (h : Reachable step s₀ s) (hs : step s a = some t) :
    Reachable step s₀ t := by
  obtain ⟨as, has⟩ := h
  refine ⟨as ++ [a], ?_⟩
  rw [exec_append, has]
  simp [exec_cons, hs]

/-- An invariant of the initial state that every step preserves holds in every reachable state. -/
theorem Reachable.invariant {Inv : σ → Prop} {s₀ s : σ} (h : Reachable step s₀ s) (h₀ : Inv s₀)
    (hstep : ∀ s a t, Inv s → step s a = some t → Inv t) : Inv s := by
  obtain ⟨as, has⟩ := h
  induction as generalizing s₀ with
  | nil => rw [exec_nil] at has; exact Option.some.inj has ▸ h₀
  | cons a as ih =>
    rw [exec_cons, Option.bind_eq_some_iff] at has
    obtain ⟨t, ht, hrest⟩ := has
    exact ih (hstep _ _ _ h₀ ht) hrest

/-- What no step makes smaller. -/
theorem exec_mono (f : σ → Nat) (hstep : ∀ s a t, step s a = some t → f s ≤ f t) :
    ∀ {as : List α} {s t : σ}, exec step s as = some t → f s ≤ f t
  | [], s, t, h => by
    cases h
    exact Nat.le_refl _
  | a :: as, s, t, h => by
    rw [exec_cons, Option.bind_eq_some_iff] at h
    obtain ⟨u, hu, hrest⟩ := h
    exact Nat.le_trans (hstep s a u hu) (exec_mono f hstep hrest)

/-- **Simulation rule.** A system that follows another one step by step follows its runs. -/
theorem exec_simulation {τ : Type*} {step' : τ → α → Option τ} (R : σ → τ → Prop)
    (hstep : ∀ s t a s', R s t → step s a = some s' → ∃ t', step' t a = some t' ∧ R s' t') :
    ∀ {as : List α} {s s' : σ} {t : τ}, R s t → exec step s as = some s' →
      ∃ t', exec step' t as = some t' ∧ R s' t'
  | [], s, s', t, hR, h => by
    cases h
    exact ⟨t, rfl, hR⟩
  | a :: as, s, s', t, hR, h => by
    rw [exec_cons, Option.bind_eq_some_iff] at h
    obtain ⟨u, hu, hrest⟩ := h
    obtain ⟨v, hv, hR'⟩ := hstep s t a u hR hu
    rw [exec_cons, hv]
    exact exec_simulation R hstep hR' hrest

/--
**Refinement rule.** When every step is matched by a run of the other system, which can be empty,
every run is matched by a run.
-/
theorem exec_refinement {τ β : Type*} {step' : τ → β → Option τ} (R : σ → τ → Prop)
    (hstep : ∀ s t a s', R s t → step s a = some s' →
      ∃ bs t', exec step' t bs = some t' ∧ R s' t') :
    ∀ {as : List α} {s s' : σ} {t : τ}, R s t → exec step s as = some s' →
      ∃ bs t', exec step' t bs = some t' ∧ R s' t'
  | [], s, s', t, hR, h => by
    cases h
    exact ⟨[], t, rfl, hR⟩
  | a :: as, s, s', t, hR, h => by
    rw [exec_cons, Option.bind_eq_some_iff] at h
    obtain ⟨u, hu, hrest⟩ := h
    obtain ⟨bs, v, hv, hR'⟩ := hstep s t a u hR hu
    obtain ⟨cs, t', ht', hend⟩ := exec_refinement R hstep hR' hrest
    refine ⟨bs ++ cs, t', ?_, hend⟩
    rw [exec_append, hv]
    exact ht'

/-- A condition on the actions alone joins the condition on the steps. -/
theorem AllSteps.and {C : σ → α → Prop} {D : α → Prop} : ∀ {as : List α} {s : σ},
    AllSteps step C s as → (∀ a ∈ as, D a) → AllSteps step (fun s a => C s a ∧ D a) s as
  | [], _, _, _ => trivial
  | a :: _, _, h, hD => fun t ht =>
    ⟨⟨(h t ht).1, hD a List.mem_cons_self⟩,
      (h t ht).2.and fun b hb => hD b (List.mem_cons_of_mem a hb)⟩

/-- **Safety rule.** What the steps meeting `C` preserve holds along every run of such steps. -/
theorem allStates_of_allSteps (Inv : σ → Prop) {P : σ → Prop} {C : σ → α → Prop}
    (hP : ∀ s, Inv s → P s)
    (hstep : ∀ s a t, Inv s → step s a = some t → C s a → Inv t) :
    ∀ (as : List α) (s : σ), Inv s → AllSteps step C s as → AllStates step P s as
  | [], s, hs, _ => hP s hs
  | a :: as, s, hs, hC => by
    refine ⟨hP s hs, ?_⟩
    intro t ht
    obtain ⟨hca, hrest⟩ := hC t ht
    exact allStates_of_allSteps Inv hP hstep as t (hstep s a t hs ht hca) hrest

/--
**Exact safety rule.** When a step outside `C` lands outside `P`, a run keeps `P` exactly when
all its steps meet `C`.
-/
theorem allStates_iff_allSteps (Inv : σ → Prop) {P : σ → Prop} {C : σ → α → Prop}
    (hP : ∀ s, Inv s → P s)
    (hstep : ∀ s a t, Inv s → step s a = some t → C s a → Inv t)
    (hbad : ∀ s a t, Inv s → step s a = some t → P t → C s a)
    (as : List α) (s : σ) (hs : Inv s) : AllStates step P s as ↔ AllSteps step C s as := by
  refine ⟨?_, allStates_of_allSteps Inv hP hstep as s hs⟩
  induction as generalizing s with
  | nil => exact fun _ => trivial
  | cons a as ih =>
    intro hall t ht
    have hrest := hall.2 t ht
    have hPt : P t := by cases as with
      | nil => exact hrest
      | cons b bs => exact hrest.1
    have hca : C s a := hbad s a t hs ht hPt
    exact ⟨hca, ih t (hstep s a t hs ht hca) hrest⟩

/-- What every step meeting `C` meets too, where the invariant holds. -/
theorem allSteps_of_allSteps (Inv : σ → Prop) {C D : σ → α → Prop}
    (hstep : ∀ s a t, Inv s → step s a = some t → C s a → Inv t)
    (hD : ∀ s a t, Inv s → step s a = some t → C s a → D s a) :
    ∀ (as : List α) (s : σ), Inv s → AllSteps step C s as → AllSteps step D s as
  | [], _, _, _ => trivial
  | a :: as, s, hs, hC => by
    intro t ht
    obtain ⟨hca, hrest⟩ := hC t ht
    exact ⟨hD s a t hs ht hca, allSteps_of_allSteps Inv hstep hD as t (hstep s a t hs ht hca) hrest⟩

/-- `AllStates` is about the states after the prefixes of the run. -/
theorem allStates_iff_prefixes {P : σ → Prop} : ∀ (as : List α) (s : σ),
    AllStates step P s as ↔ ∀ pre, pre <+: as → ∀ t, exec step s pre = some t → P t
  | [], s => by
    constructor
    · intro h pre hpre t ht
      rw [List.prefix_nil.mp hpre, exec_nil] at ht
      exact Option.some.inj ht ▸ h
    · exact fun h => h [] (List.prefix_refl _) s rfl
  | a :: as, s => by
    constructor
    · rintro ⟨hs, hrest⟩ pre hpre t ht
      cases pre with
      | nil => exact Option.some.inj ht ▸ hs
      | cons b pre =>
        obtain ⟨rfl, hpre'⟩ := List.cons_prefix_cons.mp hpre
        rw [exec_cons, Option.bind_eq_some_iff] at ht
        obtain ⟨u, hu, ht⟩ := ht
        exact (allStates_iff_prefixes as u).mp (hrest u hu) pre hpre' t ht
    · intro h
      refine ⟨h [] List.nil_prefix s rfl, ?_⟩
      intro u hu
      refine (allStates_iff_prefixes as u).mpr ?_
      intro pre hpre t ht
      refine h (a :: pre) (List.cons_prefix_cons.mpr ⟨rfl, hpre⟩) t ?_
      rw [exec_cons, hu]
      exact ht

/-- What is equivalent in the states of a run is equivalent along it. -/
theorem AllStates.congr {P Q R : σ → Prop} (h : ∀ s, P s → (Q s ↔ R s)) : ∀ {as : List α} {s : σ},
    AllStates step P s as → (AllStates step Q s as ↔ AllStates step R s as)
  | [], s, hP => h s hP
  | _ :: _, s, hP =>
    and_congr (h s hP.1) (forall_congr' fun t => imp_congr_right fun ht => congr h (hP.2 t ht))

/-- `P` holds in the state that the run ends in. -/
theorem AllStates.last {P : σ → Prop} {as : List α} {s t : σ} (h : AllStates step P s as)
    (ht : exec step s as = some t) : P t :=
  (allStates_iff_prefixes as s).mp h as (List.prefix_refl as) t ht

end Infra
