import Dts.Console.Ctl
import Dts.Detmw.StaticDiscovery
import Dts.Infra.Print
import Mathlib.Algebra.BigOperators.Group.List.Basic
import Mathlib.Data.Nat.Digits.Defs

/-!
# The dump of a communicator

`dump` prints a line for the communicator and one for each entry of its table into a buffer of the
caller, one behind the other. Every call of `snprintf` gets `cap - off`, also when an earlier text has
gone over the end of the buffer.

`dumpLaw_iff` is about every table and every capacity: all lines are printed inside the buffer if and
only if the lines before the last one have at most `cap` bytes together.
-/

namespace Dts.Detmw

open Infra
open Ctl (decimal decimalInt)

/-! ## The table and its listing -/

/-- What the texts of an entry take in the file. -/
def ConfigEntry.texts (e : ConfigEntry) : ℕ :=
  (utf8 e.ep.sessionType).length + (utf8 e.ep.sessionInst).length + 1

/--
What the constructor has loaded; `Loaded.ofTopics` loads the topics of a file. It refuses a file of
more than `1 << 20` bytes.
-/
structure Loaded where
  process : String
  domainId : Int
  config : List ConfigEntry
  int : -2 ^ 31 ≤ domainId ∧ domainId < 2 ^ 31
  topic : ∀ e ∈ config, e.topic = makeTopic e.ep
  file : (utf8 process).length + (config.map ConfigEntry.texts).sum ≤ 1 <<< 20

/-- The entries that the constructor reads have the topic of their endpoint. -/
theorem topic_of_mem_loadConfig (cast : CastU32) (topics : List TopicEntry) :
    ∀ e ∈ (loadConfig cast topics).config, e.topic = makeTopic e.ep := by
  have hfold : ∀ (ts : List TopicEntry) (c : Config), (∀ e ∈ c.config, e.topic = makeTopic e.ep) →
      ∀ e ∈ (ts.foldl (loadEntry cast) c).config, e.topic = makeTopic e.ep := by
    intro ts
    induction ts with
    | nil => exact fun _ h => h
    | cons t ts ih =>
      intro c hc
      refine ih _ fun e he => ?_
      unfold loadEntry at he
      split at he
      · exact hc e he
      · rename_i e' hparse
        rcases List.mem_append.mp he with hold | hnew
        · exact hc e hold
        · rw [List.mem_singleton.mp hnew]
          exact topic_of_parseEntry cast hparse
  exact hfold topics _ fun _ h => absurd h List.not_mem_nil

/-- The table of the constructor for the topics of a file. -/
def Loaded.ofTopics (cast : CastU32) (topics : List TopicEntry) (process : String) (domainId : Int)
    (int : -2 ^ 31 ≤ domainId ∧ domainId < 2 ^ 31)
    (file : (utf8 process).length +
      ((loadConfig cast topics).config.map ConfigEntry.texts).sum ≤ 1 <<< 20) : Loaded :=
  ⟨process, domainId, (loadConfig cast topics).config, int, topic_of_mem_loadConfig cast topics, file⟩

/-- `ToString`. -/
def Endpoint.toString (ep : Endpoint) : String :=
  ep.sessionType ++ "." ++ ep.sessionInst ++ "." ++ ep.msgId.toNat.repr

def Loaded.head (c : Loaded) : Bytes :=
  utf8 "[detmw] process=" ++ cStr (utf8 c.process) ++ utf8 " domain=" ++ decimalInt c.domainId ++
    utf8 " topics=" ++ decimal c.config.length ++ utf8 "\n"

def ConfigEntry.line (e : ConfigEntry) : Bytes :=
  utf8 "  " ++ cStr (utf8 e.topic) ++ utf8 " " ++ cStr (utf8 e.ep.toString) ++ utf8 " role=" ++
    utf8 (if e.isPublish then "pub" else "sub") ++ utf8 "\n"

def Loaded.listing (c : Loaded) : List Bytes := c.head :: c.config.map ConfigEntry.line

/-- `none` is `nullptr`. -/
def dump (c : Loaded) (buf : Option Mem) (cap : UInt64) : Int × Option Mem :=
  match buf with
  | none => (-1, none)
  | some m => if cap = 0 then (-1, some m) else (0, some (printAll m (prints cap 0 c.listing)))

/-! ## The law -/

/-- **The law.** -/
structure DumpLaw (c : Loaded) (buf : Mem) (cap : UInt64) : Prop where
  /-- nothing is written outside of the buffer -/
  inside : ∀ p ∈ prints cap 0 c.listing, p.Inside cap
  /-- the offset is at most `cap` at every call, and `cap - off` does not wrap -/
  room : ∀ p ∈ prints cap 0 c.listing, p.off.toNat ≤ cap.toNat ∧
    p.size.toNat = cap.toNat - p.off.toNat
  /-- the buffer holds a beginning of the listing and a NUL -/
  terminated : ∃ m n, dump c (some buf) cap = (0, some m) ∧ n < cap.toNat ∧
    m.load 0 n = c.listing.flatten.take n ∧ m n = 0

/-! ## Lengths -/

theorem length_utf8_append (s t : String) :
    (utf8 (s ++ t)).length = (utf8 s).length + (utf8 t).length := by
  rw [utf8, String.toList_append, List.flatMap_append, List.length_append]
  rfl

/-- A character takes four bytes at most. -/
theorem length_utf8_le (s : String) : (utf8 s).length ≤ 4 * s.length := by
  have hchars : ∀ cs : List Char, (cs.flatMap String.utf8EncodeChar).length ≤ 4 * cs.length := by
    intro cs
    induction cs with
    | nil => exact Nat.le_refl 0
    | cons c cs ih =>
      have hc := c.utf8Size_le_four
      rw [List.flatMap_cons, List.length_append, String.length_utf8EncodeChar, List.length_cons]
      omega
  exact hchars s.toList

theorem length_cStr_le (s : Bytes) : (cStr s).length ≤ s.length :=
  (List.takeWhile_sublist _).length_le

theorem length_decimal_le {n k : ℕ} (hk : 0 < k) (h : n < 10 ^ k) : (decimal n).length ≤ 4 * k :=
  (length_utf8_le _).trans (Nat.mul_le_mul_left 4 (Nat.repr_length n k hk h))

theorem length_decimalInt_le {z : Int} (h : -2 ^ 31 ≤ z ∧ z < 2 ^ 31) :
    (decimalInt z).length ≤ 41 := by
  have hdigits : (decimal z.natAbs).length ≤ 4 * 10 := length_decimal_le (by decide) (by omega)
  have hminus : (utf8 "-").length = 1 := by decide
  unfold decimalInt
  split
  · rw [List.length_append]
    omega
  · omega

theorem length_joined (ep : Endpoint) (sep : String) (hsep : (utf8 sep).length = 1) :
    (utf8 (ep.sessionType ++ sep ++ ep.sessionInst ++ sep ++ ep.msgId.toNat.repr)).length ≤
      (utf8 ep.sessionType).length + (utf8 ep.sessionInst).length + 42 := by
  have hid : (decimal ep.msgId.toNat).length ≤ 4 * 10 :=
    length_decimal_le (by decide) (ep.msgId.toNat_lt.trans (by decide))
  unfold decimal at hid
  simp only [length_utf8_append, hsep]
  omega

theorem length_line {e : ConfigEntry} (h : e.topic = makeTopic e.ep) :
    e.line.length ≤ 100 * e.texts := by
  have htopic : (cStr (utf8 e.topic)).length ≤
      (utf8 e.ep.sessionType).length + (utf8 e.ep.sessionInst).length + 42 := by
    rw [h]
    exact (length_cStr_le _).trans (length_joined e.ep "_" (by decide))
  have hname := (length_cStr_le (utf8 e.ep.toString)).trans (length_joined e.ep "." (by decide))
  have hrole : (utf8 (if e.isPublish then "pub" else "sub")).length = 3 := by
    split
    · decide
    · decide
  have hfixed : (utf8 "  ").length = 2 ∧ (utf8 " ").length = 1 ∧ (utf8 " role=").length = 6 ∧
      (utf8 "\n").length = 1 := by decide
  unfold ConfigEntry.line ConfigEntry.texts
  simp only [List.length_append, hrole, hfixed]
  omega

section
variable (c : Loaded)

theorem Loaded.length_config_le : c.config.length ≤ (c.config.map ConfigEntry.texts).sum := by
  have hone : ∀ n ∈ c.config.map ConfigEntry.texts, 1 ≤ n := by
    intro n hn
    obtain ⟨e, -, rfl⟩ := List.mem_map.mp hn
    exact Nat.le_add_left 1 _
  simpa using List.length_le_sum_of_one_le _ hone

theorem Loaded.length_head_le : c.head.length ≤ (utf8 c.process).length + 200 := by
  have hprocess := length_cStr_le (utf8 c.process)
  have hdomain := length_decimalInt_le c.int
  have hfile := c.file
  have hcount : (decimal c.config.length).length ≤ 4 * 10 :=
    length_decimal_le (by decide) (by have := c.length_config_le; omega)
  have hfixed : (utf8 "[detmw] process=").length = 16 ∧ (utf8 " domain=").length = 8 ∧
      (utf8 " topics=").length = 8 ∧ (utf8 "\n").length = 1 := by decide
  unfold Loaded.head
  simp only [List.length_append, hfixed]
  omega

theorem Loaded.length_lines_le :
    (c.config.map ConfigEntry.line).flatten.length ≤ 100 * (c.config.map ConfigEntry.texts).sum := by
  have hall : ∀ es : List ConfigEntry, (∀ e ∈ es, e.topic = makeTopic e.ep) →
      (es.map ConfigEntry.line).flatten.length ≤ 100 * (es.map ConfigEntry.texts).sum := by
    intro es
    induction es with
    | nil => exact fun _ => Nat.le_refl 0
    | cons e es ih =>
      intro h
      obtain ⟨he, hes⟩ := List.forall_mem_cons.mp h
      have hline := length_line he
      have hrest := ih hes
      simp only [List.map_cons, List.flatten_cons, List.length_append, List.sum_cons]
      omega
  exact hall c.config c.topic

/-- The whole listing is shorter than `INT_MAX`. -/
theorem Loaded.length_listing : c.listing.flatten.length < 2 ^ 31 := by
  have hhead := c.length_head_le
  have hlines := c.length_lines_le
  have hfile := c.file
  rw [Loaded.listing, List.flatten_cons, List.length_append]
  omega

end

/-! ## The condition -/

theorem forall_room_iff (c : Loaded) (cap : UInt64) :
    (∀ p ∈ prints cap 0 c.listing, p.Fits cap) ↔ c.listing.dropLast.flatten.length ≤ cap.toNat := by
  have hlen : (0 : UInt64).toNat + c.listing.flatten.length < 2 ^ 31 := by
    rw [UInt64.toNat_zero, Nat.zero_add]
    exact c.length_listing
  have hne : c.listing ≠ [] := List.cons_ne_nil _ _
  rw [forall_fits_iff cap c.listing 0 hlen, UInt64.toNat_zero, Nat.zero_add, or_iff_right hne]

/--
**The dump.** For every table and every capacity: `dump` writes only inside the buffer, is given the
room that is left at every call, and leaves a beginning of the listing with a NUL, if and only if the
lines before the last one have at most `cap` bytes.
-/
theorem dumpLaw_iff (c : Loaded) (buf : Mem) (cap : UInt64) (hcap : 0 < cap) :
    DumpLaw c buf cap ↔ c.listing.dropLast.flatten.length ≤ cap.toNat := by
  rw [← forall_room_iff]
  constructor
  · intro h
    exact (forall_inside_iff cap c.listing 0).mp h.inside
  · intro hfits
    have hheld : Terminated (printAll buf (prints cap 0 c.listing)) c.listing.flatten cap.toNat :=
      terminated_printAll hcap buf c.length_listing hfits
    refine ⟨(forall_inside_iff cap c.listing 0).mpr hfits, ?_, ?_⟩
    · intro p hp
      have hp := hfits p hp
      unfold Print.Fits at hp
      omega
    · have hpos : 0 < cap.toNat := UInt64.lt_iff_toNat_lt.mp hcap
      refine ⟨_, min c.listing.flatten.length (cap.toNat - 1), if_neg (UInt64.pos_iff_ne_zero.mp hcap),
        by omega, ?_, hheld.nul⟩
      rw [hheld.held, Nat.min_comm, ← List.take_eq_take_min]

/-- Two entries of 33 bytes behind a head of 38. -/
def twoTopics : Loaded where
  process := "dts"
  domainId := 0
  config := [⟨⟨"DTS", "data", 1⟩, true, 0, "DTS_data_1"⟩, ⟨⟨"DTS", "data", 2⟩, true, 0, "DTS_data_2"⟩]
  int := by decide
  topic := by decide
  file := by decide

theorem dumpLaw_twoTopics : DumpLaw twoTopics (fun _ => 0) 80 :=
  (dumpLaw_iff twoTopics (fun _ => 0) 80 (by decide)).mpr (by decide)

/-- With 40 bytes the second entry is printed at offset 71, with a size of `2 ^ 64 - 31`. -/
theorem not_dumpLaw_twoTopics :
    (prints 40 0 twoTopics.listing).map (fun p => (p.off, p.size)) =
        [(0, 40), (38, 2), (71, 18446744073709551585)] ∧
      ¬ DumpLaw twoTopics (fun _ => 0) 40 := by
  have hcalls : (prints 40 0 twoTopics.listing).map (fun p => (p.off, p.size)) =
      [(0, 40), (38, 2), (71, 18446744073709551585)] := by decide
  refine ⟨hcalls, fun h => ?_⟩
  have hroom : ∀ q ∈ (prints 40 0 twoTopics.listing).map (fun p => (p.off, p.size)),
      q.1.toNat ≤ 40 := by
    intro q hq
    obtain ⟨p, hp, rfl⟩ := List.mem_map.mp hq
    exact (h.room p hp).1
  rw [hcalls] at hroom
  have hlast : (71 : UInt64).toNat ≤ 40 :=
    hroom (71, 18446744073709551585) (List.getLast_mem (List.cons_ne_nil _ _))
  exact absurd hlast (by decide)

end Dts.Detmw
