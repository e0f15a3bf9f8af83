import Dts.Detmw.StaticDiscovery
import Mathlib.Algebra.BigOperators.Group.List.Basic
import Mathlib.Data.List.Nodup

/-!
# Entity ids

`main` of `gen_detmw.py` numbers the topic entries of all processes of a group, the processes sorted by
name and the entries of each in their order. The numbers are written into the dictionaries that were
loaded, so they are in the list of the processes, which keeps the order in which the file system lists
the files. Everything that is generated is written from that list.

`assignIds_eq` says what number an entry gets: it depends on the processes with a smaller name only.
`idLaw` follows for all groups of processes with different names: the ids are different, and the same
for every order of the files, in the JSON file of a process as in the XML files of all processes.
-/

namespace Dts.Detmw

open Infra

/-! ## Loading -/

/-- A file of the configuration directory; `process` is `none` when it has no such field. -/
structure ConfigFile where
  name : String
  process : Option String
  topics : List TopicEntry

/-- The process of a `.json` file. -/
def ConfigFile.config (f : ConfigFile) : Option ProcessConfig :=
  if ".json".toList.isSuffixOf f.name.toList then f.process.map fun p => ⟨p, f.topics⟩ else none

/-- `load_processes`: `os.walk` yields the files of each directory, the directories in any order. -/
def loadProcesses (walk : List (List ConfigFile)) : List ProcessConfig :=
  walk.flatMap fun files =>
    (files.mergeSort fun f g => f.name ≤ g.name).filterMap ConfigFile.config

/-! ## Numbering -/

/-- The inner loop: `seq` is the last number given. -/
def numberTopics : ℕ → List TopicEntry → List TopicEntry
  | _, [] => []
  | seq, t :: ts => { t with entityId := seq + 1, userId := seq + 1 } :: numberTopics (seq + 1) ts

def numberProcess (seq : ℕ) (p : ProcessConfig) : ProcessConfig :=
  { p with topics := numberTopics seq p.topics }

/-- The dictionaries of all processes, and the last number given. -/
structure Numbering where
  seq : ℕ
  procs : List ProcessConfig

/-- A round of the outer loop, for the dictionary at position `r`. -/
def numberAt (s : Numbering) (r : ℕ) : Numbering :=
  match s.procs[r]? with
  | some p => ⟨s.seq + p.topics.length, s.procs.set r (numberProcess s.seq p)⟩
  | none => s

/-- The name of the process at a position. -/
def nameAt (procs : List ProcessConfig) (r : ℕ) : String :=
  ((procs[r]?).map ProcessConfig.process).getD ""

/-- `sorted(procs, key=lambda x: x["process"])`, as positions. -/
def sortedRefs (procs : List ProcessConfig) : List ℕ :=
  (List.range procs.length).mergeSort fun i j => nameAt procs i ≤ nameAt procs j

def assignIds (procs : List ProcessConfig) : List ProcessConfig :=
  ((sortedRefs procs).foldl numberAt ⟨0, procs⟩).procs

/-! ## What is generated -/

/-- The JSON file and the XML file of a process. -/
structure Generated where
  json : ProcessConfig
  xml : List (String × List XmlEndpoint)

/-- `main`; `none` is a `KeyError`. Without a process nothing is generated. -/
def generate (walk : List (List ConfigFile)) : Option (List Generated) :=
  let procs := assignIds (loadProcesses walk)
  procs.mapM fun p => (genStaticXml procs).map fun xml => ⟨p, xml⟩

/-! ## The law -/

/-- The entity ids and the user ids of topic entries. -/
def idPairs (ts : List TopicEntry) : List (ℕ × ℕ) := ts.map fun t => (t.entityId, t.userId)

def xmlPairs (xs : List XmlEndpoint) : List (ℕ × ℕ) := xs.map fun x => (x.entityId, x.userId)

/-- A process without the ids. -/
def ProcessConfig.source (p : ProcessConfig) : String × List (List (String × JsonValue)) :=
  (p.process, p.topics.map TopicEntry.fields)

/-- **The law.** -/
structure IdLaw (walk : List (List ConfigFile)) : Prop where
  /-- every entry of every process is numbered, and keeps its fields -/
  entries : (assignIds (loadProcesses walk)).map ProcessConfig.source =
    (loadProcesses walk).map ProcessConfig.source
  /-- no two entries of the group have one id -/
  entityIds : (((assignIds (loadProcesses walk)).flatMap (·.topics)).map (·.entityId)).Nodup
  userIds : (((assignIds (loadProcesses walk)).flatMap (·.topics)).map (·.userId)).Nodup
  /-- a process has the same entries with the same ids, in whatever order the files are found -/
  order : ∀ walk', walk'.flatten.Perm walk.flatten → ∀ p ∈ assignIds (loadProcesses walk),
    ∀ p' ∈ assignIds (loadProcesses walk'), p'.process = p.process → p'.topics = p.topics
  /-- all XML files have the ids of the JSON file, entry by entry -/
  files : ∀ walk', walk'.flatten.Perm walk.flatten → ∀ gs gs', generate walk = some gs →
    generate walk' = some gs' → ∀ g ∈ gs, ∀ g' ∈ gs', ∀ x ∈ g'.xml, x.1 = g.json.process →
    xmlPairs x.2 = idPairs g.json.topics

/-! ## The inner loop -/

theorem map_fields_numberTopics (seq : ℕ) (ts : List TopicEntry) :
    (numberTopics seq ts).map TopicEntry.fields = ts.map TopicEntry.fields := by
  induction ts generalizing seq with
  | nil => rfl
  | cons t ts ih => rw [numberTopics, List.map_cons, List.map_cons, ih]

/-- The numbers follow on the last one given. -/
theorem idPairs_numberTopics (seq : ℕ) (ts : List TopicEntry) :
    idPairs (numberTopics seq ts) = (List.range' (seq + 1) ts.length).map fun n => (n, n) := by
  induction ts generalizing seq with
  | nil => rfl
  | cons t ts ih =>
    have ih := ih (seq + 1)
    unfold idPairs at ih ⊢
    rw [numberTopics, List.map_cons, ih, List.length_cons, List.range'_succ, List.map_cons]

theorem length_numberTopics (seq : ℕ) (ts : List TopicEntry) :
    (numberTopics seq ts).length = ts.length := by
  have h := congrArg List.length (map_fields_numberTopics seq ts)
  rwa [List.length_map, List.length_map] at h

/-! ## The outer loop -/

/-- The number of entries at a position. -/
def countAt (procs : List ProcessConfig) (r : ℕ) : ℕ :=
  ((procs[r]?).map fun p => p.topics.length).getD 0

section
variable {s : Numbering} {r i : ℕ} {p : ProcessConfig}

theorem numberAt_some (h : s.procs[r]? = some p) :
    numberAt s r = ⟨s.seq + p.topics.length, s.procs.set r (numberProcess s.seq p)⟩ := by
  unfold numberAt
  rw [h]

theorem numberAt_none (h : s.procs[r]? = none) : numberAt s r = s := by
  unfold numberAt
  rw [h]

theorem getElem?_numberAt_ne (h : r ≠ i) : (numberAt s r).procs[i]? = s.procs[i]? := by
  cases hr : s.procs[r]? with
  | none => rw [numberAt_none hr]
  | some p =>
    rw [numberAt_some hr]
    exact List.getElem?_set_ne h

/-- A round changes no number of entries. -/
theorem countAt_numberAt (s : Numbering) (r : ℕ) :
    countAt (numberAt s r).procs = countAt s.procs := by
  funext i
  unfold countAt
  by_cases hi : r = i
  · subst hi
    cases hr : s.procs[r]? with
    | none => rw [numberAt_none hr, hr]
    | some p =>
      have hlt := (List.getElem?_eq_some_iff.mp hr).1
      rw [numberAt_some hr]
      simp only [List.getElem?_set_self hlt, Option.map_some, Option.getD_some, numberProcess,
        length_numberTopics]
  · rw [getElem?_numberAt_ne hi]

theorem seq_numberAt (s : Numbering) (r : ℕ) :
    (numberAt s r).seq = s.seq + countAt s.procs r := by
  unfold countAt
  cases hr : s.procs[r]? with
  | none =>
    rw [numberAt_none hr]
    rfl
  | some p =>
    rw [numberAt_some hr]
    rfl

theorem seq_foldl (rs : List ℕ) (s : Numbering) :
    (rs.foldl numberAt s).seq = s.seq + (rs.map (countAt s.procs)).sum := by
  induction rs generalizing s with
  | nil => rfl
  | cons r rs ih =>
    rw [List.foldl_cons, ih, seq_numberAt, countAt_numberAt, List.map_cons, List.sum_cons,
      Nat.add_assoc]

/-- The loop does not touch other positions. -/
theorem getElem?_foldl_of_notMem {rs : List ℕ} (h : i ∉ rs) (s : Numbering) :
    (rs.foldl numberAt s).procs[i]? = s.procs[i]? := by
  induction rs generalizing s with
  | nil => rfl
  | cons r rs ih =>
    rw [List.mem_cons, not_or] at h
    rw [List.foldl_cons, ih h.2, getElem?_numberAt_ne (Ne.symm h.1)]

/-- **A position is numbered in its turn**, behind the entries of those before it. -/
theorem getElem?_foldl {before after : List ℕ} (hnd : (before ++ i :: after).Nodup)
    (h : s.procs[i]? = some p) : ((before ++ i :: after).foldl numberAt s).procs[i]? =
      some (numberProcess (s.seq + (before.map (countAt s.procs)).sum) p) := by
  have hmid := List.nodup_middle.mp hnd
  rw [List.nodup_cons, List.mem_append, not_or] at hmid
  have hturn : (before.foldl numberAt s).procs[i]? = some p := by
    rw [getElem?_foldl_of_notMem hmid.1.1, h]
  have hlt := (List.getElem?_eq_some_iff.mp hturn).1
  rw [List.foldl_append, List.foldl_cons, getElem?_foldl_of_notMem hmid.1.2, numberAt_some hturn,
    seq_foldl]
  exact List.getElem?_set_self hlt

end

theorem length_foldl (rs : List ℕ) (s : Numbering) :
    (rs.foldl numberAt s).procs.length = s.procs.length := by
  induction rs generalizing s with
  | nil => rfl
  | cons r rs ih =>
    rw [List.foldl_cons, ih]
    cases hr : s.procs[r]? with
    | none => rw [numberAt_none hr]
    | some p =>
      rw [numberAt_some hr]
      exact List.length_set

/-! ## The number of an entry -/

/-- The entries of the processes with a smaller name. -/
def idsBefore (procs : List ProcessConfig) (name : String) : ℕ :=
  (procs.map fun q => if q.process < name then q.topics.length else 0).sum

theorem idsBefore_perm {procs procs' : List ProcessConfig} (h : procs.Perm procs') (name : String) :
    idsBefore procs name = idsBefore procs' name := (h.map _).sum_eq

/-- The same sum over positions. -/
theorem idsBefore_eq (procs : List ProcessConfig) (name : String) : idsBefore procs name =
    ((List.range procs.length).map fun r =>
      if nameAt procs r < name then countAt procs r else 0).sum := by
  unfold idsBefore
  refine congrArg List.sum (List.ext_getElem (by simp) ?_)
  intro i hi _
  have hlt : i < procs.length := by simpa using hi
  simp [nameAt, countAt, hlt]

theorem perm_sortedRefs (procs : List ProcessConfig) :
    (sortedRefs procs).Perm (List.range procs.length) := List.mergeSort_perm _ _

theorem sorted_sortedRefs (procs : List ProcessConfig) :
    (sortedRefs procs).Pairwise fun i j => nameAt procs i ≤ nameAt procs j := by
  have htrans : ∀ a b c, decide (nameAt procs a ≤ nameAt procs b) = true →
      decide (nameAt procs b ≤ nameAt procs c) = true →
      decide (nameAt procs a ≤ nameAt procs c) = true := by
    intro a b c hab hbc
    exact decide_eq_true (String.le_trans (of_decide_eq_true hab) (of_decide_eq_true hbc))
  have htotal : ∀ a b, (decide (nameAt procs a ≤ nameAt procs b) ||
      decide (nameAt procs b ≤ nameAt procs a)) = true := by
    intro a b
    rw [Bool.or_eq_true, decide_eq_true_eq, decide_eq_true_eq]
    exact String.le_total _ _
  exact (List.pairwise_mergeSort htrans htotal (List.range procs.length)).imp of_decide_eq_true

theorem nodup_sortedRefs (procs : List ProcessConfig) : (sortedRefs procs).Nodup :=
  (perm_sortedRefs procs).nodup_iff.mpr List.nodup_range

section
variable {procs : List ProcessConfig} (hnd : (procs.map ProcessConfig.process).Nodup)

include hnd

theorem nameAt_inj {i j : ℕ} (hi : i < procs.length) (hj : j < procs.length)
    (h : nameAt procs i = nameAt procs j) : i = j := by
  have hilen : i < (procs.map ProcessConfig.process).length := by rwa [List.length_map]
  have hjlen : j < (procs.map ProcessConfig.process).length := by rwa [List.length_map]
  have hsame : (procs.map ProcessConfig.process)[i] = (procs.map ProcessConfig.process)[j] := by
    simpa [nameAt, hi, hj] using h
  exact (List.Nodup.getElem_inj_iff hnd).mp hsame

/-- What comes first in the order has a smaller name, and the other way round. -/
theorem sum_countAt_before {before after : List ℕ} {i : ℕ}
    (h : sortedRefs procs = before ++ i :: after) :
    (before.map (countAt procs)).sum = idsBefore procs (nameAt procs i) := by
  have hmem : ∀ r ∈ before ++ i :: after, r < procs.length := fun r hr =>
    List.mem_range.mp ((perm_sortedRefs procs).mem_iff.mp (h ▸ hr))
  have hne := List.nodup_middle.mp (h ▸ nodup_sortedRefs procs)
  rw [List.nodup_cons, List.mem_append, not_or] at hne
  have hsorted := h ▸ sorted_sortedRefs procs
  rw [List.pairwise_append, List.pairwise_cons] at hsorted
  have hi : i < procs.length := hmem i (by simp)
  have hfirst : ∀ r ∈ before, nameAt procs r < nameAt procs i := by
    intro r hr
    have hle := hsorted.2.2 r hr i List.mem_cons_self
    refine String.not_le.mp fun hge => ?_
    have heq := nameAt_inj hnd (hmem r (List.mem_append_left _ hr)) hi (String.le_antisymm hle hge)
    exact hne.1.1 (heq ▸ hr)
  have hlast : ∀ r ∈ i :: after, ¬ nameAt procs r < nameAt procs i := by
    intro r hr
    rcases List.mem_cons.mp hr with rfl | hr
    · exact String.lt_irrefl _
    · exact String.not_lt.mpr (hsorted.2.1.1 r hr)
  rw [idsBefore_eq, ← ((perm_sortedRefs procs).map _).sum_eq, h, List.map_append, List.sum_append]
  have hzero : ((i :: after).map fun r =>
      if nameAt procs r < nameAt procs i then countAt procs r else 0).sum = 0 := by
    refine List.sum_eq_zero fun n hn => ?_
    obtain ⟨r, hr, rfl⟩ := List.mem_map.mp hn
    exact if_neg (hlast r hr)
  rw [hzero, Nat.add_zero]
  refine congrArg List.sum (List.map_congr_left fun r hr => ?_)
  exact (if_pos (hfirst r hr)).symm

/-- **The numbers of a process** follow on those of the processes with a smaller name. -/
theorem assignIds_eq : assignIds procs =
    procs.map fun p => numberProcess (idsBefore procs p.process) p := by
  refine List.ext_getElem? fun i => ?_
  rw [List.getElem?_map]
  cases hi : procs[i]? with
  | none =>
    have hlen : (assignIds procs).length = procs.length := length_foldl _ _
    rw [List.getElem?_eq_none_iff] at hi
    exact List.getElem?_eq_none_iff.mpr (hlen ▸ hi)
  | some p =>
    have hlt := (List.getElem?_eq_some_iff.mp hi).1
    obtain ⟨before, after, h⟩ := List.append_of_mem
      ((perm_sortedRefs procs).mem_iff.mpr (List.mem_range.mpr hlt))
    have hname : nameAt procs i = p.process := by rw [nameAt, hi, Option.map_some, Option.getD_some]
    have hturn := getElem?_foldl (s := ⟨0, procs⟩) (h ▸ nodup_sortedRefs procs) hi
    rw [sum_countAt_before hnd h, hname, Nat.zero_add] at hturn
    rw [assignIds, h, hturn, Option.map_some]

end

/-! ## Different numbers -/

theorem idsBefore_mono (procs : List ProcessConfig) {m n : String} (h : m < n) :
    idsBefore procs m ≤ idsBefore procs n := by
  induction procs with
  | nil => exact Nat.le_refl _
  | cons q qs ih =>
    unfold idsBefore at ih ⊢
    rw [List.map_cons, List.map_cons, List.sum_cons, List.sum_cons]
    refine Nat.add_le_add ?_ ih
    by_cases hq : q.process < m
    · rw [if_pos hq, if_pos (String.lt_trans hq h)]
    · rw [if_neg hq]
      exact Nat.zero_le _

/-- The entries of a process come before those of a greater name. -/
theorem idsBefore_add_le {procs : List ProcessConfig} {p : ProcessConfig} (hp : p ∈ procs)
    {n : String} (h : p.process < n) :
    idsBefore procs p.process + p.topics.length ≤ idsBefore procs n := by
  induction procs with
  | nil => cases hp
  | cons q qs ih =>
    have hmono := idsBefore_mono qs h
    unfold idsBefore at ih hmono ⊢
    rw [List.map_cons, List.map_cons, List.sum_cons, List.sum_cons]
    rcases List.mem_cons.mp hp with rfl | hp
    · rw [if_neg (String.lt_irrefl _), if_pos h]
      omega
    · have ih := ih hp
      by_cases hq : q.process < p.process
      · rw [if_pos hq, if_pos (String.lt_trans hq h)]
        omega
      · rw [if_neg hq]
        omega

/-- The numbers of a process. -/
def idRange (procs : List ProcessConfig) (p : ProcessConfig) : List ℕ :=
  List.range' (idsBefore procs p.process + 1) p.topics.length

theorem disjoint_idRange {procs : List ProcessConfig} {p q : ProcessConfig} (hp : p ∈ procs)
    (hq : q ∈ procs) (hne : p.process ≠ q.process) :
    List.Disjoint (idRange procs p) (idRange procs q) := by
  intro n hnp hnq
  rw [idRange, List.mem_range'_1] at hnp hnq
  by_cases hlt : p.process < q.process
  · have := idsBefore_add_le hp hlt
    omega
  · have hgt : q.process < p.process := by
      refine String.not_le.mp fun hle => hne ?_
      exact String.le_antisymm hle (String.not_lt.mp hlt)
    have := idsBefore_add_le hq hgt
    omega

theorem nodup_flatMap_idRange {procs : List ProcessConfig}
    (hnd : (procs.map ProcessConfig.process).Nodup) : (procs.flatMap (idRange procs)).Nodup := by
  rw [List.nodup_flatMap]
  refine ⟨fun p _ => List.nodup_range', ?_⟩
  refine (List.pairwise_map.mp hnd).imp_of_mem ?_
  exact fun hp hq hne => disjoint_idRange hp hq hne

/-- The ids in the order of the list. -/
theorem idPairs_assignIds {procs : List ProcessConfig}
    (hnd : (procs.map ProcessConfig.process).Nodup) :
    idPairs ((assignIds procs).flatMap (·.topics)) =
      (procs.flatMap (idRange procs)).map fun n => (n, n) := by
  rw [assignIds_eq hnd, idPairs, List.map_flatMap, List.flatMap_map, List.map_flatMap]
  refine List.flatMap_congr fun p _ => ?_
  exact idPairs_numberTopics _ _

/-! ## The order of the files -/

theorem perm_loadProcesses (walk : List (List ConfigFile)) :
    (loadProcesses walk).Perm (walk.flatten.filterMap ConfigFile.config) := by
  induction walk with
  | nil => exact List.Perm.refl _
  | cons files walk ih =>
    rw [loadProcesses, List.flatMap_cons, List.flatten_cons, List.filterMap_append]
    exact ((List.mergeSort_perm _ _).filterMap _).append ih

theorem perm_of_flatten {walk walk' : List (List ConfigFile)}
    (h : walk'.flatten.Perm walk.flatten) : (loadProcesses walk').Perm (loadProcesses walk) :=
  (perm_loadProcesses walk').trans ((h.filterMap _).trans (perm_loadProcesses walk).symm)

/-- **The order of the files does not matter**: a process of two lists has one numbering. -/
theorem assignIds_agree {procs procs' : List ProcessConfig}
    (hnd : (procs.map ProcessConfig.process).Nodup) (hperm : procs'.Perm procs)
    {p p' : ProcessConfig} (hp : p ∈ assignIds procs) (hp' : p' ∈ assignIds procs')
    (hname : p'.process = p.process) : p' = p := by
  have hnd' := (hperm.map ProcessConfig.process).nodup_iff.mpr hnd
  rw [assignIds_eq hnd] at hp
  rw [assignIds_eq hnd'] at hp'
  obtain ⟨q, hq, rfl⟩ := List.mem_map.mp hp
  obtain ⟨q', hq', rfl⟩ := List.mem_map.mp hp'
  have hsame : q' = q :=
    List.inj_on_of_nodup_map hnd (hperm.mem_iff.mp hq') hq hname
  rw [hsame, idsBefore_perm hperm]

/-! ## The files -/

theorem ids_of_xmlEndpoint {t : TopicEntry} {x : XmlEndpoint} (h : xmlEndpoint t = some x) :
    (x.entityId, x.userId) = (t.entityId, t.userId) := by
  unfold xmlEndpoint at h
  split at h
  · cases h
    rfl
  · cases h

/-- The XML endpoints of a process have the ids of its entries. -/
theorem xmlPairs_eq {ts : List TopicEntry} {xs : List XmlEndpoint}
    (h : ts.mapM xmlEndpoint = some xs) : xmlPairs xs = idPairs ts := by
  refine List.map_injective_iff.mpr (Option.some_injective _) ?_
  have hmap := congrArg (List.map (Option.map fun x : XmlEndpoint => (x.entityId, x.userId)))
    (map_of_mapM h)
  rw [List.map_map, List.map_map] at hmap
  rw [xmlPairs, idPairs, List.map_map, List.map_map]
  refine hmap.symm.trans (List.map_congr_left fun t ht => ?_)
  obtain ⟨x, -, hx⟩ := exists_of_mapM h ht
  show (xmlEndpoint t).map _ = some (t.entityId, t.userId)
  rw [hx, Option.map_some, ids_of_xmlEndpoint hx]

/-- Every participant of an XML file is a process, with its ids. -/
theorem participant_of_genStaticXml {procs : List ProcessConfig}
    {xml : List (String × List XmlEndpoint)} (h : genStaticXml procs = some xml)
    {x : String × List XmlEndpoint} (hx : x ∈ xml) :
    ∃ p ∈ procs, x.1 = p.process ∧ xmlPairs x.2 = idPairs p.topics := by
  obtain ⟨p, hp, hrow⟩ := exists_mem_of_mapM h hx
  obtain ⟨endpoints, hendpoints, rfl⟩ := Option.map_eq_some_iff.mp hrow
  exact ⟨p, hp, rfl, xmlPairs_eq hendpoints⟩

/-- What is generated comes from the numbered processes. -/
theorem generated_of_generate {walk : List (List ConfigFile)} {gs : List Generated}
    (h : generate walk = some gs) {g : Generated} (hg : g ∈ gs) :
    g.json ∈ assignIds (loadProcesses walk) ∧
      genStaticXml (assignIds (loadProcesses walk)) = some g.xml := by
  obtain ⟨p, hp, hfiles⟩ := exists_mem_of_mapM h hg
  obtain ⟨xml, hxml, rfl⟩ := Option.map_eq_some_iff.mp hfiles
  exact ⟨hp, hxml⟩

/-- An entry of a configuration file, not yet numbered. -/
def fileEntry (msgId : Int) : TopicEntry :=
  ⟨[("session_type", .str "DTS"), ("session_inst", .str "data"), ("msg_id", .int msgId)], 0, 0⟩

/-- Two directories, the process with the greater name in the first. -/
def twoDirs : List (List ConfigFile) :=
  [[⟨"web.json", some "web", [fileEntry 1]⟩],
    [⟨"README.md", none, []⟩, ⟨"dts.json", some "dts", [fileEntry 1, fileEntry 2]⟩]]

end Dts.Detmw
