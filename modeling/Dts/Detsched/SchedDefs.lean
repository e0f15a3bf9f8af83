import Mathlib.Algebra.Order.Ring.Rat
import Mathlib.Data.Rat.Cast.Order
import Mathlib.Data.List.Chain
import Mathlib.Order.Fin.Basic
import Mathlib.Tactic.NormNum

/-!
# The table of scheduling domains

`gen_sched_defs.py` reads `sched_defs.json`, validates it and generates the table of
`platform_sched_defs.h`; `thread_factory.cpp` looks a priority up in the table. `validate` compares
the interval of a domain with that of the domain before it and with no other, and with
`system_reserve` not at all.

A Python exception stops the build, as a failed validation does: it is `none` here. A list or an
object where the script expects a scalar is left out, and so are `NaN` and `Infinity`.
-/

namespace Dts.Detsched

/-! ## The configuration -/

/-- A scalar of the JSON file; an absent key reads as `null`. -/
inductive Value where
  | null
  | bool (b : Bool)
  | int (n : ℤ)
  | float (q : ℚ)
  | str (s : String)
  deriving DecidableEq

namespace Value

/-- The number a value is in a Python comparison; `True` is 1. -/
def num : Value → Option ℚ
  | bool b => some (if b then 1 else 0)
  | int n => some n
  | float q => some q
  | _ => none

/-- `a < b`. Two strings compare as strings, a string and a number raise `TypeError`. -/
def less : Value → Value → Option Bool
  | str s, str t => some (s < t)
  | a, b => do return decide ((← a.num) < (← b.num))

/-- `<=`, which Python refuses for the same pairs as `<`. -/
def lessEq (a b : Value) : Option Bool := (b.less a).map not

/-- `isinstance(v, int)`. -/
def isInt : Value → Bool
  | bool _ | int _ => true
  | _ => false

/-- The value of an `int`, as the table has it. -/
def toInt : Value → ℤ
  | bool b => if b then 1 else 0
  | int n => n
  | _ => 0

/--
The value of `constexpr int C = …;` with the text of this value behind the equals sign. A number with
a fraction loses it; `cpp` is what the compiler makes of any other text, `none` when it refuses it.
-/
def constant (cpp : String → Option ℤ) : Value → Option ℤ
  | int n => some n
  | float q => some (q.num.tdiv q.den)
  | str s => cpp s
  | bool b => cpp (if b then "True" else "False")
  | null => cpp "None"

end Value

/-- `system_reserve`. -/
structure Reserve where
  start : Value
  end_ : Value

/-- An entry of `domains`. -/
structure Domain where
  name : Value
  start : Value
  end_ : Value
  policy : Value
  roles : List (String × Value) := []

/-- What `validate` reads of the file. -/
structure Config where
  systemReserve : Reserve
  domains : List Domain

/-! ## `validate` -/

/-- `UPPER.match`: a match at the start of the string, so one capital letter is enough. -/
def upperMatch (s : String) : Bool := s.toList.head?.any fun c => 'A' ≤ c && c ≤ 'Z'

/-- `UPPER.match(name or "")`. A value that is not a string and not falsy raises `TypeError`. -/
def upperName : Value → Option Bool
  | .str s => some (upperMatch s)
  | .null | .bool false => some false
  | .bool true => none
  | .int n => if n = 0 then some false else none
  | .float q => if q = 0 then some false else none

/-- The policies that `validate` accepts. -/
def policies : List Value := [.str "SCHED_FIFO", .str "SCHED_RR", .str "SCHED_OTHER"]

/-- The variables of the loop over the domains. -/
structure Check where
  ok : Bool
  seenNames : List Value := []
  seenRoles : List String := []
  prev : Option (Value × Value) := none

/-- `isinstance(prio, int) and start <= prio <= end`. -/
def inRange (d : Domain) (prio : Value) : Option Bool :=
  if prio.isInt then
    (d.start.lessEq prio).bind fun le => if le then prio.lessEq d.end_ else some false
  else some false

/-- A role of a thread: its priority lies in the domain, and its name is new. -/
def checkRole (d : Domain) (c : Check) (role : String × Value) : Option Check := do
  let range ← inRange d role.2
  return { c with
    ok := c.ok && upperMatch role.1 && !c.seenRoles.contains role.1 && range
    seenRoles := role.1 :: c.seenRoles }

/-- `start` and `end` are of type `int` and in order. -/
def ordered (d : Domain) : Option Bool :=
  if d.start.isInt && d.end_.isInt then d.start.lessEq d.end_ else some false

/-- The comparison with the domain before: `end < prev[0] or prev[1] < start`. -/
def clear (prev : Option (Value × Value)) (d : Domain) : Option Bool :=
  match prev with
  | none => some true
  | some (prevStart, prevEnd) =>
    (d.end_.less prevStart).bind fun lt => if lt then some true else prevEnd.less d.start

/-- The checks of one domain, and what they leave for the next one. -/
def checkDomain (c : Check) (d : Domain) : Option Check := do
  let upper ← upperName d.name
  let inOrder ← ordered d
  let apart ← clear c.prev d
  d.roles.foldlM (checkRole d) { c with
    ok := c.ok && upper && !c.seenNames.contains d.name && inOrder
      && policies.contains d.policy && apart
    seenNames := d.name :: c.seenNames
    prev := some (d.start, d.end_) }

/-- Both bounds are there and in order. -/
def checkReserve (r : Reserve) : Option Bool :=
  if r.start = .null ∨ r.end_ = .null then some false else r.start.lessEq r.end_

/-- `validate` ends without `fail`. -/
def validate (cfg : Config) : Option Bool := do
  let reserve ← checkReserve cfg.systemReserve
  let c ← cfg.domains.foldlM checkDomain { ok := reserve && !cfg.domains.isEmpty }
  return c.ok

/-! ## The generated table -/

/-- `SYS_RESERVE_START` and `SYS_RESERVE_END`. -/
def Reserve.constants (cpp : String → Option ℤ) (r : Reserve) : Option (ℤ × ℤ) := do
  return (← r.start.constant cpp, ← r.end_.constant cpp)

/-- A row of `KSCHED_SEGMENTS`. -/
structure SchedSegment where
  minPrio : ℤ
  maxPrio : ℤ
  schedPolicy : ℤ
  name : Value

/-- The macro of `<sched.h>` that the table names. -/
def policyCode (policy : Value) : ℤ :=
  if policy = .str "SCHED_FIFO" then 1 else if policy = .str "SCHED_RR" then 2 else 0

/-- The rows of the generated table, in the order of the file. -/
def render (cfg : Config) : List SchedSegment :=
  cfg.domains.map fun d => ⟨d.start.toInt, d.end_.toInt, policyCode d.policy, d.name⟩

def SchedSegment.covers (seg : SchedSegment) (prio : ℤ) : Bool :=
  seg.minPrio ≤ prio && prio ≤ seg.maxPrio

/-- `SegmentIndex`: the first row that covers the priority, or -1. -/
def segmentIndex (segments : List SchedSegment) (prio : ℤ) : ℤ :=
  match segments.findIdx? (·.covers prio) with
  | some i => i
  | none => -1

/-! ## The thread factory -/

/-- What a caller may set besides the priority. -/
structure ThreadParams where
  schedPriority : ℤ
  schedPolicy : ℤ

/-- The fields of a handle that `CreateThread` fills from the domain. -/
structure ThreadHandle where
  segIndex : ℤ
  prio : ℤ
  schedPolicy : ℤ

/-- `DeclareDomain` on `m_domains`. -/
def declareDomain (segments : List SchedSegment) (declared : ℤ → Bool) (prioLevel : ℤ) :
    Bool × (ℤ → Bool) :=
  let segIdx := segmentIndex segments prioLevel
  if segIdx < 0 then (false, declared) else (true, fun i => if i = segIdx then true else declared i)

/-- A field of the parameters overrides the default unless it is negative. -/
def override (given : Option ℤ) (default : ℤ) : ℤ :=
  match given with
  | some v => if 0 ≤ v then v else default
  | none => default

/-- `CreateThread` up to the check of the priority: what the thread is created with. -/
def createThread (segments : List SchedSegment) (declared : ℤ → Bool) (prioLevel : ℤ)
    (params : Option ThreadParams) : Option ThreadHandle :=
  let segIdx := segmentIndex segments prioLevel
  if segIdx < 0 then none
  else if !declared segIdx then none
  else do
    let seg ← segments[segIdx.toNat]?
    let prio := override (params.map (·.schedPriority)) prioLevel
    let policy := override (params.map (·.schedPolicy)) seg.schedPolicy
    if prio < seg.minPrio ∨ seg.maxPrio < prio then none
    else return ⟨segIdx, prio, policy⟩

/-! ## What the table has to guarantee -/

/-- The interval of a domain; all numbers between its bounds. -/
def Within (start end_ : Value) (x : ℚ) : Prop :=
  ∃ a b, start.num = some a ∧ end_.num = some b ∧ a ≤ x ∧ x ≤ b

def Domain.Has (d : Domain) (x : ℚ) : Prop := Within d.start d.end_ x

/-- The interval of the reserve, between the constants of the generated header. -/
def Reserve.Has (cpp : String → Option ℤ) (r : Reserve) (x : ℚ) : Prop :=
  ∃ b ∈ r.constants cpp, (b.1 : ℚ) ≤ x ∧ x ≤ b.2

/-- **No priority belongs to two domains, and none that a domain hands out is reserved.** -/
structure Sound (cpp : String → Option ℤ) (cfg : Config) : Prop where
  /-- the intervals of the domains are pairwise disjoint -/
  apart : ∀ i j : Fin cfg.domains.length, i ≠ j →
    ∀ x, ¬(cfg.domains[i].Has x ∧ cfg.domains[j].Has x)
  /-- and disjoint from the reserve -/
  reserved : ∀ d ∈ cfg.domains, ∀ x, ¬(d.Has x ∧ cfg.systemReserve.Has cpp x)
  /-- the lookup in the table finds the domain of a priority -/
  index : ∀ (p : ℤ) (i : Fin cfg.domains.length),
    segmentIndex (render cfg) p = i ↔ cfg.domains[i].Has p
  /-- no thread is created with a reserved priority -/
  handsOut : ∀ declared prioLevel params h,
    createThread (render cfg) declared prioLevel params = some h →
      ¬cfg.systemReserve.Has cpp h.prio

/-- The two intervals meet. -/
def Overlap (start end_ start' end' : Value) : Prop :=
  start.lessEq end' = some true ∧ start'.lessEq end_ = some true

instance (start end_ start' end' : Value) : Decidable (Overlap start end_ start' end') :=
  inferInstanceAs (Decidable (_ ∧ _))

/-- What `validate` does not look at: domains that are not neighbours in the file, and the
reserve. -/
structure Separated (cpp : String → Option ℤ) (cfg : Config) : Prop where
  skipped : ∀ i j : Fin cfg.domains.length, i.val + 1 < j.val →
    ¬Overlap cfg.domains[i].start cfg.domains[i].end_ cfg.domains[j].start cfg.domains[j].end_
  /-- a reserve that is not empty begins behind each domain or ends before it -/
  reserved : ∀ d ∈ cfg.domains, ∀ b ∈ cfg.systemReserve.constants cpp, b.1 ≤ b.2 →
    d.end_.toInt < b.1 ∨ b.2 < d.start.toInt

/-! ## Values as numbers -/

namespace Value

theorem less_of_num {a b : Value} {x y : ℚ} (ha : a.num = some x) (hb : b.num = some y) :
    a.less b = some (decide (x < y)) := by
  cases a <;> cases b <;> simp_all [less, num]

theorem lessEq_of_num {a b : Value} {x y : ℚ} (ha : a.num = some x) (hb : b.num = some y) :
    a.lessEq b = some (decide (x ≤ y)) := by
  rw [lessEq, less_of_num hb ha]
  simp [← not_lt]

theorem num_of_isInt {a : Value} (h : a.isInt = true) : a.num = some (a.toInt : ℚ) := by
  cases a with
  | bool b => cases b <;> simp [num, toInt]
  | int n => rfl
  | _ => cases h

end Value

theorem overlap_iff {a b a' b' : Value} {x y x' y' : ℚ} (ha : a.num = some x) (hb : b.num = some y)
    (ha' : a'.num = some x') (hb' : b'.num = some y') :
    Overlap a b a' b' ↔ x ≤ y' ∧ x' ≤ y := by
  simp [Overlap, Value.lessEq_of_num ha hb', Value.lessEq_of_num ha' hb]

/-- Intervals that share a number overlap. -/
theorem overlap_of_within {a b a' b' : Value} {z : ℚ} (h : Within a b z) (h' : Within a' b' z) :
    Overlap a b a' b' := by
  obtain ⟨x, y, ha, hb, hxz, hzy⟩ := h
  obtain ⟨x', y', ha', hb', hxz', hzy'⟩ := h'
  exact (overlap_iff ha hb ha' hb').mpr ⟨hxz.trans hzy', hxz'.trans hzy⟩

/-- Nonempty intervals that overlap share a number. -/
theorem exists_within_of_overlap {a b a' b' : Value} {x y x' y' : ℚ} (ha : a.num = some x)
    (hb : b.num = some y) (ha' : a'.num = some x') (hb' : b'.num = some y') (hxy : x ≤ y)
    (hxy' : x' ≤ y') (h : Overlap a b a' b') : ∃ z, Within a b z ∧ Within a' b' z := by
  obtain ⟨h, h'⟩ := (overlap_iff ha hb ha' hb').mp h
  exact ⟨max x x', ⟨x, y, ha, hb, le_max_left _ _, max_le hxy h'⟩,
    x', y', ha', hb', le_max_right _ _, max_le h hxy'⟩

/-! ## What an accepted configuration has -/

/-- The checks on roles only lower `ok`, and leave the interval of the domain in `prev`. -/
theorem checkRole_ok {d : Domain} {c c' : Check} {role : String × Value}
    (h : checkRole d c role = some c') (hok : c'.ok = true) :
    c.ok = true ∧ c'.prev = c.prev := by
  unfold checkRole at h
  obtain ⟨range, -, h⟩ := Option.bind_eq_some_iff.mp h
  have hc' := Option.some.inj h
  subst hc'
  simp only [Bool.and_eq_true] at hok
  exact ⟨hok.1.1.1, rfl⟩

theorem foldlM_checkRole_ok {d : Domain} (roles : List (String × Value)) {c c' : Check}
    (h : roles.foldlM (checkRole d) c = some c') (hok : c'.ok = true) :
    c.ok = true ∧ c'.prev = c.prev := by
  induction roles generalizing c with
  | nil =>
    have hc' : c = c' := Option.some.inj h
    subst hc'
    exact ⟨hok, rfl⟩
  | cons role roles ih =>
    rw [List.foldlM_cons] at h
    obtain ⟨c₁, h₁, h⟩ := Option.bind_eq_some_iff.mp h
    obtain ⟨hok₁, hprev⟩ := ih h
    obtain ⟨hok₀, hprev₀⟩ := checkRole_ok h₁ hok₁
    exact ⟨hok₀, hprev.trans hprev₀⟩

/-- The bounds of a domain that passed the checks. -/
def Domain.Bounds (d : Domain) (s e : ℤ) : Prop :=
  d.start.num = some (s : ℚ) ∧ d.end_.num = some (e : ℚ) ∧ d.start.toInt = s ∧ d.end_.toInt = e
    ∧ s ≤ e

/-- The interval of the domain before is clear of this one. -/
def ClearOf (d e : Domain) : Prop := ¬Overlap d.start d.end_ e.start e.end_

theorem clearOf_of_clear {d e : Domain} {s t s' t' : ℤ} (hd : d.Bounds s t) (he : e.Bounds s' t')
    (h : clear (some (d.start, d.end_)) e = some true) : ClearOf d e := by
  show ¬Overlap d.start d.end_ e.start e.end_
  rw [overlap_iff hd.1 hd.2.1 he.1 he.2.1]
  simp only [clear, Value.less_of_num he.2.1 hd.1, Value.less_of_num hd.2.1 he.1] at h
  intro hover
  have hs : ¬(t' : ℚ) < s := not_lt.mpr hover.1
  have ht : ¬(t : ℚ) < s' := not_lt.mpr hover.2
  simp [hs, ht] at h

/-- **What one turn of the loop has checked.** -/
theorem checkDomain_ok {c c' : Check} {d : Domain} (h : checkDomain c d = some c')
    (hok : c'.ok = true) :
    c.ok = true ∧ clear c.prev d = some true ∧ (∃ s e, d.Bounds s e) ∧
      c'.prev = some (d.start, d.end_) := by
  unfold checkDomain at h
  obtain ⟨upper, -, h⟩ := Option.bind_eq_some_iff.mp h
  obtain ⟨inOrder, hordered, h⟩ := Option.bind_eq_some_iff.mp h
  obtain ⟨apart, hapart, h⟩ := Option.bind_eq_some_iff.mp h
  obtain ⟨hand, hprev⟩ := foldlM_checkRole_ok _ h hok
  simp only [Bool.and_eq_true] at hand
  obtain ⟨⟨⟨⟨⟨hc, -⟩, -⟩, ho⟩, -⟩, ha⟩ := hand
  subst ho ha
  refine ⟨hc, hapart, ?_, hprev⟩
  unfold ordered at hordered
  by_cases hint : (d.start.isInt && d.end_.isInt) = true
  · rw [if_pos hint] at hordered
    obtain ⟨hs, he⟩ := Bool.and_eq_true_iff.mp hint
    have hs := Value.num_of_isInt hs
    have he := Value.num_of_isInt he
    rw [Value.lessEq_of_num hs he] at hordered
    have hle : (d.start.toInt : ℚ) ≤ d.end_.toInt := by simpa using hordered
    exact ⟨_, _, hs, he, rfl, rfl, by exact_mod_cast hle⟩
  · rw [if_neg hint] at hordered
    simp at hordered

theorem foldlM_checkDomain_ok (ds : List Domain) {c c' : Check}
    (h : ds.foldlM checkDomain c = some c') (hok : c'.ok = true) :
    c.ok = true ∧ (∀ d ∈ ds.head?, clear c.prev d = some true) ∧
      (∀ d ∈ ds, ∃ s e, d.Bounds s e) ∧ ds.IsChain ClearOf := by
  induction ds generalizing c with
  | nil =>
    have hc' : c = c' := Option.some.inj h
    subst hc'
    exact ⟨hok, by simp, by simp, List.isChain_nil⟩
  | cons d ds ih =>
    rw [List.foldlM_cons] at h
    obtain ⟨c₁, h₁, h⟩ := Option.bind_eq_some_iff.mp h
    obtain ⟨hok₁, hhead, hbounds, hchain⟩ := ih h
    obtain ⟨hok₀, hclear, ⟨s, t, hd⟩, hprev⟩ := checkDomain_ok h₁ hok₁
    refine ⟨hok₀, ?_, ?_, ?_⟩
    · intro d' hd'
      have hdd : d = d' := Option.some.inj hd'
      subst hdd
      exact hclear
    · intro d' hd'
      rcases List.mem_cons.mp hd' with rfl | hd'
      · exact ⟨s, t, hd⟩
      · exact hbounds d' hd'
    · refine List.isChain_cons.mpr ⟨?_, hchain⟩
      intro e he
      obtain ⟨s', t', hb⟩ := hbounds e (List.mem_of_mem_head? he)
      have hce := hhead e he
      rw [hprev] at hce
      exact clearOf_of_clear hd hb hce

/-- **What `validate` establishes**: bounds in order, and neighbours clear of each other. -/
structure Accepted (cfg : Config) : Prop where
  bounds : ∀ d ∈ cfg.domains, ∃ s e, d.Bounds s e
  chain : cfg.domains.IsChain ClearOf

theorem accepted_of_validate {cfg : Config} (h : validate cfg = some true) : Accepted cfg := by
  unfold validate at h
  obtain ⟨reserve, -, h⟩ := Option.bind_eq_some_iff.mp h
  obtain ⟨c, hfold, h⟩ := Option.bind_eq_some_iff.mp h
  have hok : c.ok = true := Option.some.inj h
  obtain ⟨-, -, hbounds, hchain⟩ := foldlM_checkDomain_ok _ hfold hok
  exact ⟨hbounds, hchain⟩

theorem Domain.Bounds.exists_within {d e : Domain} {s t s' t' : ℤ} (hd : d.Bounds s t)
    (he : e.Bounds s' t') (h : Overlap d.start d.end_ e.start e.end_) :
    ∃ z, d.Has z ∧ e.Has z := by
  have hst : (s : ℚ) ≤ t := by exact_mod_cast hd.2.2.2.2
  have hst' : (s' : ℚ) ≤ t' := by exact_mod_cast he.2.2.2.2
  exact exists_within_of_overlap hd.1 hd.2.1 he.1 he.2.1 hst hst' h

/-- The numbers of a domain that passed the checks. -/
theorem Domain.Bounds.has_iff {d : Domain} {s t : ℤ} (hd : d.Bounds s t) (x : ℚ) :
    d.Has x ↔ (d.start.toInt : ℚ) ≤ x ∧ x ≤ d.end_.toInt := by
  obtain ⟨hs, ht, hs', ht', -⟩ := hd
  rw [hs', ht']
  constructor
  · rintro ⟨a, b, ha, hb, hax, hxb⟩
    rw [hs] at ha
    rw [ht] at hb
    obtain ⟨rfl, rfl⟩ : (s : ℚ) = a ∧ (t : ℚ) = b := ⟨Option.some.inj ha, Option.some.inj hb⟩
    exact ⟨hax, hxb⟩
  · rintro ⟨hsx, hxt⟩
    exact ⟨s, t, hs, ht, hsx, hxt⟩

/-- A domain and a reserve share a number unless one lies behind the other. -/
theorem Domain.Bounds.reserved_iff {d : Domain} {s t : ℤ} (hd : d.Bounds s t)
    (cpp : String → Option ℤ) (r : Reserve) : (∀ x, ¬(d.Has x ∧ r.Has cpp x)) ↔
      ∀ b ∈ r.constants cpp, b.1 ≤ b.2 → d.end_.toInt < b.1 ∨ b.2 < d.start.toInt := by
  have hle : d.start.toInt ≤ d.end_.toInt := by
    obtain ⟨-, -, hs, ht, hst⟩ := hd
    rw [hs, ht]
    exact hst
  constructor
  · intro h b hb hbb
    by_contra hmeet
    push Not at hmeet
    -- the larger one of the two starts is in both
    refine h ((max d.start.toInt b.1 : ℤ) : ℚ) ⟨(hd.has_iff _).mpr ⟨?_, ?_⟩, b, hb, ?_, ?_⟩
    · exact_mod_cast le_max_left _ _
    · exact_mod_cast max_le hle hmeet.1
    · exact_mod_cast le_max_right _ _
    · exact_mod_cast max_le hmeet.2 hbb
  · rintro h x ⟨hx, b, hb, hbx, hxb⟩
    obtain ⟨hsx, hxt⟩ := (hd.has_iff x).mp hx
    have hbb : b.1 ≤ b.2 := by exact_mod_cast hbx.trans hxb
    rcases h b hb hbb with hlt | hlt
    · have : b.1 ≤ d.end_.toInt := by exact_mod_cast hbx.trans hxt
      omega
    · have : d.start.toInt ≤ b.2 := by exact_mod_cast hsx.trans hxb
      omega

/-! ## The lookup -/

/-- The first element that meets a test, when no two elements do. -/
theorem findIdx?_eq_some_iff_of_unique {α : Type*} {xs : List α} {p : α → Bool}
    (huniq : ∀ (i j : ℕ) (a b : α), xs[i]? = some a → xs[j]? = some b →
      p a = true → p b = true → i = j)
    {i : ℕ} {a : α} (ha : xs[i]? = some a) : xs.findIdx? p = some i ↔ p a = true := by
  obtain ⟨hi, rfl⟩ := List.getElem?_eq_some_iff.mp ha
  rw [List.findIdx?_eq_some_iff_getElem]
  constructor
  · rintro ⟨_, hp, -⟩
    exact hp
  · intro hp
    refine ⟨hi, hp, ?_⟩
    intro j hj hpj
    have hji := huniq j i _ _ (List.getElem?_eq_getElem (hj.trans hi)) ha hpj hp
    exact Nat.lt_irrefl _ (hji ▸ hj)

theorem segmentIndex_eq_iff (segments : List SchedSegment) (p : ℤ) (i : ℕ) :
    segmentIndex segments p = i ↔ segments.findIdx? (·.covers p) = some i := by
  unfold segmentIndex
  split
  · next k hk => simp [hk]
  · next hk =>
      rw [hk]
      constructor
      · intro h
        omega
      · intro h
        cases h

/-- The line of the table for a domain. -/
def Domain.segment (d : Domain) : SchedSegment :=
  ⟨d.start.toInt, d.end_.toInt, policyCode d.policy, d.name⟩

theorem render_getElem?_eq_some_iff {cfg : Config} {i : ℕ} {seg : SchedSegment} :
    (render cfg)[i]? = some seg ↔ ∃ d, cfg.domains[i]? = some d ∧ d.segment = seg := by
  show (cfg.domains.map Domain.segment)[i]? = some seg ↔ _
  rw [List.getElem?_map, Option.map_eq_some_iff]

/-- A segment of the table covers the priorities of its domain. -/
theorem Accepted.covers_iff {cfg : Config} (h : Accepted cfg) {d : Domain} (hd : d ∈ cfg.domains)
    (p : ℤ) : d.segment.covers p = true ↔ d.Has p := by
  obtain ⟨s, t, hb⟩ := h.bounds d hd
  show (decide (d.start.toInt ≤ p) && decide (p ≤ d.end_.toInt)) = true ↔ _
  rw [Bool.and_eq_true, decide_eq_true_eq, decide_eq_true_eq, hb.has_iff, Int.cast_le, Int.cast_le]

/-- Whatever the lookup and the parameters are, a thread gets a priority of its segment. -/
theorem exists_segment_of_createThread {segments : List SchedSegment} {declared : ℤ → Bool}
    {prioLevel : ℤ} {params : Option ThreadParams} {h : ThreadHandle}
    (hc : createThread segments declared prioLevel params = some h) :
    ∃ seg ∈ segments, seg.covers h.prio = true := by
  simp only [createThread] at hc
  split at hc
  · cases hc
  split at hc
  · cases hc
  obtain ⟨seg, hseg, hc⟩ := Option.bind_eq_some_iff.mp hc
  split at hc
  · cases hc
  · next hrange =>
      have hh := Option.some.inj hc
      subst hh
      refine ⟨seg, List.mem_of_getElem? hseg, ?_⟩
      simp only [SchedSegment.covers, Bool.and_eq_true, decide_eq_true_eq]
      push Not at hrange
      exact hrange

/-! ## Soundness of the gate -/

variable {cpp : String → Option ℤ} {cfg : Config}

theorem Accepted.clearOf (h : Accepted cfg) (hsep : Separated cpp cfg)
    {i j : Fin cfg.domains.length} (hij : i < j) : ClearOf cfg.domains[i] cfg.domains[j] := by
  by_cases hnext : i.val + 1 = j.val
  · -- neighbours: this is the pair the loop compares
    have hchain := List.isChain_iff_getElem.mp h.chain i.val (by omega)
    simpa [hnext] using hchain
  · have hlt : i.val < j.val := hij
    exact hsep.skipped i j (by omega)

theorem Accepted.apart (h : Accepted cfg) (hsep : Separated cpp cfg)
    {i j : Fin cfg.domains.length} {x : ℚ} (hi : cfg.domains[i].Has x)
    (hj : cfg.domains[j].Has x) : i = j := by
  rcases lt_trichotomy i j with hlt | heq | hlt
  · exact absurd (overlap_of_within hi hj) (h.clearOf hsep hlt)
  · exact heq
  · exact absurd (overlap_of_within hj hi) (h.clearOf hsep hlt)

theorem Accepted.index (h : Accepted cfg) (hsep : Separated cpp cfg) (p : ℤ)
    (i : Fin cfg.domains.length) :
    segmentIndex (render cfg) p = i ↔ cfg.domains[i].Has p := by
  have hi : cfg.domains[i.val]? = some cfg.domains[i] := List.getElem?_eq_getElem i.isLt
  have hseg : (render cfg)[i.val]? = some cfg.domains[i].segment :=
    render_getElem?_eq_some_iff.mpr ⟨_, hi, rfl⟩
  rw [segmentIndex_eq_iff, findIdx?_eq_some_iff_of_unique ?_ hseg]
  · exact h.covers_iff (List.getElem_mem i.isLt) p
  intro j k a b ha hb hpa hpb
  obtain ⟨d, hd, rfl⟩ := render_getElem?_eq_some_iff.mp ha
  obtain ⟨e, he, rfl⟩ := render_getElem?_eq_some_iff.mp hb
  obtain ⟨hj, rfl⟩ := List.getElem?_eq_some_iff.mp hd
  obtain ⟨hk, rfl⟩ := List.getElem?_eq_some_iff.mp he
  have hpd := (h.covers_iff (List.getElem_mem hj) p).mp hpa
  have hpe := (h.covers_iff (List.getElem_mem hk) p).mp hpb
  exact Fin.mk.inj (h.apart hsep (i := ⟨j, hj⟩) (j := ⟨k, hk⟩) hpd hpe)

theorem Accepted.reserved (h : Accepted cfg) (hsep : Separated cpp cfg) {d : Domain}
    (hd : d ∈ cfg.domains) (x : ℚ) : ¬(d.Has x ∧ cfg.systemReserve.Has cpp x) := by
  obtain ⟨s, t, hb⟩ := h.bounds d hd
  exact (hb.reserved_iff cpp cfg.systemReserve).mpr (hsep.reserved d hd) x

theorem Accepted.sound (h : Accepted cfg) (hsep : Separated cpp cfg) : Sound cpp cfg := by
  refine ⟨?_, fun d hd => h.reserved hsep hd, h.index hsep, ?_⟩
  · intro i j hij x hx
    exact hij (h.apart hsep hx.1 hx.2)
  · intro declared prioLevel params t hc hres
    obtain ⟨seg, hseg, hcov⟩ := exists_segment_of_createThread hc
    obtain ⟨i, hi⟩ := List.mem_iff_getElem?.mp hseg
    obtain ⟨d, hd, rfl⟩ := render_getElem?_eq_some_iff.mp hi
    have hmem := List.mem_of_getElem? hd
    exact h.reserved hsep hmem _ ⟨(h.covers_iff hmem _).mp hcov, hres⟩

theorem Accepted.separated (h : Accepted cfg) (hs : Sound cpp cfg) : Separated cpp cfg := by
  constructor
  · intro i j hij hover
    obtain ⟨s, t, hi⟩ := h.bounds _ (List.getElem_mem i.isLt)
    obtain ⟨s', t', hj⟩ := h.bounds _ (List.getElem_mem j.isLt)
    obtain ⟨z, hz⟩ := hi.exists_within hj hover
    have hne : i ≠ j := by
      rintro rfl
      omega
    exact hs.apart i j hne z hz
  · intro d hd
    obtain ⟨s, t, hb⟩ := h.bounds d hd
    exact (hb.reserved_iff cpp cfg.systemReserve).mp (hs.reserved d hd)

/-- The shipped `sched_defs.json`. -/
def schedDefs : Config where
  systemReserve := ⟨.int 90, .int 99⟩
  domains := [
    ⟨.str "CORE", .int 75, .int 89, .str "SCHED_FIFO", []⟩,
    ⟨.str "DATA", .int 60, .int 74, .str "SCHED_FIFO", []⟩,
    ⟨.str "APP", .int 45, .int 59, .str "SCHED_RR", []⟩,
    ⟨.str "DTS", .int 32, .int 34, .str "SCHED_RR",
      [("DATA_PRIO", .int 34), ("TASK_PRIO", .int 33), ("LOG_PRIO", .int 32)]⟩,
    ⟨.str "BKG", .int 15, .int 29, .str "SCHED_OTHER", []⟩,
    ⟨.str "DEF", .int 1, .int 14, .str "SCHED_OTHER", []⟩]

/-- A third domain that meets the first one and the reserve passes the gate. -/
def overlapping : Config where
  systemReserve := ⟨.int 90, .int 99⟩
  domains := [
    ⟨.str "CORE", .int 75, .int 89, .str "SCHED_FIFO", []⟩,
    ⟨.str "DATA", .int 60, .int 74, .str "SCHED_FIFO", []⟩,
    ⟨.str "APP", .int 80, .int 95, .str "SCHED_RR", []⟩]

end Dts.Detsched
