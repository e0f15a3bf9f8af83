import Dts.Json.Roundtrip
import Dts.Detmw.StaticDiscovery

/-!
# The configuration file

`main` of `gen_detmw.py` writes the configuration of a process with `json.dump`, and the constructor
of `Communicator` reads the file, parses it with cJSON and looks up the fields of the process and of
every topic. `StaticDiscovery` takes the entries as they are in the dictionary; here they go through
the bytes of the file.

* `readConfig` — the constructor, from the bytes of the file to the entries
* `processConfig` — the same on the dictionary, with `parseEntry`
* `readConfig_dumps` — the constructor on a written file does what `processConfig` says
* `config_loadConfig` — the entries are those of `loadConfig`, which the other modules start from
-/

namespace Dts.Detmw

open Infra Json

/-! ## The constructor -/

/-- What the program takes from the `double` that `strtod` makes of a decimal text. -/
structure Strtod where
  /-- The integral part. -/
  trunc : Bytes → Int
  /-- Greater than 0. -/
  positive : Bytes → Bool

/-- `case_insensitive_strcmp(string1, string2) == 0`. -/
def caseInsensitiveEq (string1 string2 : Bytes) : Bool :=
  string1.map tolower = string2.map tolower

/-- `cJSON_GetObjectItem`. The elements of an array have no names. -/
def getObjectItem (object : Item) (name : String) : Option Item :=
  match object with
  | .object child =>
    (child.find? fun c => caseInsensitiveEq (charBytes name.toList) c.1).map fun c => c.2
  | _ => none

/-- `cJSON_GetStringValue`. -/
def getStringValue : Item → Option Bytes
  | .string valuestring => some valuestring
  | _ => none

variable (d : Strtod) (cast : CastU32)

/-- The integral part of `valuedouble`, of a number. -/
def numberValue : Item → Option Int
  | .number text => some (d.trunc text)
  | _ => none

def isPositive : Item → Bool
  | .number text => d.positive text
  | _ => false

/-- The texts of an entry are bytes. -/
structure ReadEntry where
  sessionType : Bytes
  sessionInst : Bytes
  msgId : UInt32
  isPublish : Bool
  plainSize : Option UInt32
  deriving DecidableEq

/-- The body of the loop over the topics. -/
def readEntry (t : Item) : Option ReadEntry :=
  match (getObjectItem t "session_type").bind getStringValue,
    (getObjectItem t "session_inst").bind getStringValue,
    (getObjectItem t "msg_id").bind (numberValue d),
    (getObjectItem t "role").bind getStringValue with
  | some st, some si, some mid, some role =>
    some {
      sessionType := st
      sessionInst := si
      msgId := cast.apply mid
      isPublish := role = charBytes "publish".toList
      plainSize := (getObjectItem t "plain_size").bind fun ps =>
        if isPositive d ps then (numberValue d ps).map cast.apply else none }
  | _, _, _, _ => none

structure ReadConfig where
  process : Bytes
  domain : Int
  config : List ReadEntry
  deriving DecidableEq

/-- The constructor of `Communicator` up to the transport. -/
def readConfig (file : Bytes) : Option ReadConfig :=
  if file = [] ∨ 2 ^ 20 < file.length then none
  else
    (cJsonParse file).bind fun root =>
      match (getObjectItem root "process").bind getStringValue,
        (getObjectItem root "domain").bind (numberValue d), getObjectItem root "topics" with
      | some process, some domain, some (.array topics) =>
        some ⟨process, domain, topics.filterMap (readEntry d cast)⟩
      | _, _, _ => none

/-! ## The dictionary -/

/-- The characters of a text, with its surrogates in pairs. -/
def chars : PyStr → Option (List Char)
  | [] => some []
  | c :: cs =>
    if isLowSurrogate c.val then none
    else if isHighSurrogate c.val then
      match cs with
      | d :: ds =>
        if isLowSurrogate d.val then
          (chars ds).map fun out => Char.ofNat (joinSurrogates c.val d.val) :: out
        else none
      | [] => none
    else (chars cs).map fun out => Char.ofNat c.val :: out

/-- The text of a key or a value; the empty one for a lone surrogate. -/
def strText (s : PyStr) : String := String.ofList ((chars s).getD [])

def digitsValue (digits : Bytes) : Nat := digits.foldl (fun n b => 10 * n + (b.toNat - 48)) 0

/-- The value of an `int`. -/
def intValue (negative : Bool) (digits : Digits) : Int :=
  if negative then -(digitsValue digits.bytes : Int) else digitsValue digits.bytes

/-- An ASCII text. -/
def asciiText (text : Bytes) : String := String.ofList (text.map fun b => Char.ofNat b.toNat)

theorem exists_mark (negative : Bool) (digits : Digits) (fraction : Option Digits)
    (exponent : Option (Bool × Digits)) (mark : fraction ≠ none ∨ exponent ≠ none) :
    ∃ c ∈ (asciiText (numberText negative digits fraction exponent)).toList, c.isDigit = false := by
  have hmem : ∀ b ∈ numberText negative digits fraction exponent,
      Char.ofNat b.toNat ∈ (asciiText (numberText negative digits fraction exponent)).toList := by
    intro b hb
    rw [asciiText, String.toList_ofList]
    exact List.mem_map_of_mem hb
  rcases mark with hfraction | hexponent
  · obtain ⟨f, rfl⟩ := Option.ne_none_iff_exists'.mp hfraction
    refine ⟨_, hmem 46 ?_, rfl⟩
    simp [numberText, fractionText]
  · obtain ⟨e, rfl⟩ := Option.ne_none_iff_exists'.mp hexponent
    refine ⟨_, hmem 101 ?_, rfl⟩
    simp [numberText, exponentText]

/-- A value as the generator and the communicator look at it. -/
def jsonValue : PyValue → JsonValue
  | .str s => .str (strText s)
  | .int negative digits => .int (intValue negative digits)
  | .float (.finite negative digits fraction exponent mark) => .float {
      text := asciiText (numberText negative digits fraction exponent)
      trunc := d.trunc (numberText negative digits fraction exponent)
      positive := d.positive (numberText negative digits fraction exponent)
      notDecimal := exists_mark negative digits fraction exponent mark }
  | _ => .other ""

/-- A topic of the dictionary. -/
def topicEntry : PyValue → TopicEntry
  | .dict fields => ⟨fields.map fun f => (strText f.1, jsonValue d f.2), 0, 0⟩
  | _ => ⟨[], 0, 0⟩

/-- The value under a name, up to case. -/
def dictItem (fields : List (PyStr × PyValue)) (name : String) : Option PyValue :=
  (fields.find? fun f => sameKey name (strText f.1)).map fun f => f.2

/-- The entry as the constructor reads it. -/
def entryBytes (t : TopicEntry) (e : ConfigEntry) : ReadEntry where
  sessionType := charBytes e.ep.sessionType.toList
  sessionInst := charBytes e.ep.sessionInst.toList
  msgId := e.ep.msgId
  isPublish := e.isPublish
  plainSize := t.plain cast

/-- The constructor on the dictionary. -/
def processConfig (fields : List (PyStr × PyValue)) : Option ReadConfig :=
  match (dictItem fields "process").bind fun v => (jsonValue d v).string?,
    (dictItem fields "domain").bind fun v => (jsonValue d v).number?, dictItem fields "topics" with
  | some process, some domain, some (.list topics) =>
    some ⟨charBytes process.toList, domain, topics.filterMap fun t =>
      (parseEntry cast (topicEntry d t)).map (entryBytes cast (topicEntry d t))⟩
  | _, _, _ => none

/-! ## Texts -/

theorem utf8Bytes_ofNat {n : Nat} (hn : n.isValidChar) :
    utf8Bytes n = String.utf8EncodeChar (Char.ofNat n) := by
  have hval : (Char.ofNat n).toNat = n := by
    rw [Char.ofNat, dif_pos hn]
    rfl
  rw [← utf8Bytes_char, hval]

theorem isValidChar_of_not_surrogate {c : CodePoint} (hlow : ¬isLowSurrogate c.val = true)
    (hhigh : ¬isHighSurrogate c.val = true) : c.val.isValidChar := by
  have hlt := c.isLt
  simp only [isLowSurrogate, isHighSurrogate, Bool.and_eq_true, decide_eq_true_eq] at hlow hhigh
  unfold Nat.isValidChar
  omega

theorem isValidChar_joinSurrogates (high low : Nat) :
    (joinSurrogates high low).isValidChar := by
  have hlt := joinSurrogates_lt high low
  rw [joinSurrogates_eq] at hlt ⊢
  unfold Nat.isValidChar
  omega

/-- The bytes that cJSON makes of a text are its characters in UTF-8. -/
theorem decodeStr_eq (s : PyStr) : decodeStr s = (chars s).map charBytes := by
  induction s using decodeStr.induct with
  | case1 => rfl
  | case2 c cs hlow =>
    rw [decodeStr.eq_def, chars.eq_def]
    simp only
    rw [if_pos hlow, if_pos hlow]
    rfl
  | case3 c hlow hhigh d ds hd ih =>
    rw [decodeStr, chars, if_neg hlow, if_neg hlow, if_pos hhigh, if_pos hhigh, if_pos hd,
      if_pos hd, ih, Option.map_map, Option.map_map,
      utf8Bytes_ofNat (isValidChar_joinSurrogates c.val d.val)]
    rfl
  | case4 c hlow hhigh d ds hd =>
    rw [decodeStr, chars, if_neg hlow, if_neg hlow, if_pos hhigh, if_pos hhigh, if_neg hd,
      if_neg hd]
    rfl
  | case5 c hlow hhigh =>
    rw [decodeStr, chars, if_neg hlow, if_neg hlow, if_pos hhigh, if_pos hhigh]
    rfl
  | case6 c cs hlow hhigh ih =>
    rw [decodeStr.eq_def, chars.eq_def]
    simp only
    rw [if_neg hlow, if_neg hlow, if_neg hhigh, if_neg hhigh, ih, Option.map_map,
      Option.map_map, utf8Bytes_ofNat (isValidChar_of_not_surrogate hlow hhigh)]
    rfl

/-- A text that is taken is in UTF-8 up to its first NUL. -/
theorem itemStr_eq {s : PyStr} {b : Bytes} (h : itemStr s = some b) :
    b = charBytes (JsonValue.cString (strText s)).toList := by
  rw [itemStr, decodeStr_eq, Option.map_map] at h
  obtain ⟨cs, hcs, rfl⟩ := Option.map_eq_some_iff.mp h
  rw [strText, hcs, JsonValue.cString, String.toList_ofList, Option.getD_some,
    String.toList_ofList, ← takeWhile_charBytes]
  rfl

/-- Equal up to case, on the bytes or on the characters. -/
theorem caseInsensitiveEq_eq {s : PyStr} {b : Bytes} (h : itemStr s = some b) (name : String) :
    caseInsensitiveEq (charBytes name.toList) b = sameKey name (strText s) := by
  rw [itemStr_eq h, caseInsensitiveEq, sameKey, map_tolower_charBytes, map_tolower_charBytes]
  exact decide_eq_decide.mpr charBytes_inj

/-- An ordinary text, the one that `strText` gives back: `strText_pyStr`. -/
def pyStr (s : String) : PyStr := s.toList.map codePoint

theorem chars_codePoint (s : List Char) : chars (s.map codePoint) = some s := by
  induction s with
  | nil => rfl
  | cons c s ih =>
    have hvalid : c.toNat.isValidChar := c.valid
    have hlow : ¬isLowSurrogate c.toNat = true := by
      simp only [isLowSurrogate, Bool.and_eq_true, decide_eq_true_eq]
      unfold Nat.isValidChar at hvalid
      omega
    have hhigh : ¬isHighSurrogate c.toNat = true := by
      simp only [isHighSurrogate, Bool.and_eq_true, decide_eq_true_eq]
      unfold Nat.isValidChar at hvalid
      omega
    rw [List.map_cons, chars.eq_def]
    show (if isLowSurrogate c.toNat = true then none
      else if isHighSurrogate c.toNat = true then _
      else (chars (s.map codePoint)).map fun out => Char.ofNat c.toNat :: out) = _
    rw [if_neg hlow, if_neg hhigh, ih, Char.ofNat_toNat]
    rfl

theorem strText_pyStr (s : String) : strText (pyStr s) = s := by
  rw [strText, pyStr, chars_codePoint, Option.getD_some, String.ofList_toList]

/-! ## Lookups -/

/-- cJSON finds the member that the names of the dictionary say. -/
theorem getObjectItem_toMembers {depth : Nat} (name : String) :
    ∀ {fields : List (PyStr × PyValue)} {members : List (Bytes × Item)},
    toMembers depth fields = some members →
    getObjectItem (.object members) name = (dictItem fields name).bind (toItem depth)
  | [], members, h => by
    cases h
    rfl
  | (k, v) :: fields, members, h => by
    obtain ⟨b, hb, h⟩ := Option.bind_eq_some_iff.mp h
    obtain ⟨item, hitem, h⟩ := Option.bind_eq_some_iff.mp h
    obtain ⟨rest, hrest, rfl⟩ := Option.map_eq_some_iff.mp h
    have ih := getObjectItem_toMembers name hrest
    have hkey := caseInsensitiveEq_eq hb name
    rw [getObjectItem] at ih ⊢
    rw [dictItem] at ih ⊢
    simp only [List.find?_cons, hkey]
    cases sameKey name (strText k) with
    | true => exact hitem.symm
    | false => exact ih

/-- A text, whatever the value is. -/
theorem getStringValue_itemOf {depth : Nat} {v : PyValue} {item : Item} (h : ItemOf depth v item) :
    getStringValue item = (jsonValue d v).string?.map fun s => charBytes s.toList := by
  cases h with
  | none => rfl
  | bool _ b => cases b <;> rfl
  | int => rfl
  | float => rfl
  | str _ h => exact congrArg some (itemStr_eq h)
  | list => rfl
  | dict => rfl

/-- An `int` that a `double` holds exactly. -/
def SmallInt : PyValue → Prop
  | .int negative digits => (intValue negative digits).natAbs ≤ 2 ^ 53
  | _ => True

instance (v : PyValue) : Decidable (SmallInt v) :=
  match v with
  | .int _ _ => Nat.decLe _ _
  | .none | .bool _ | .float _ | .str _ | .list _ | .dict _ => .isTrue trivial

/-- `strtod` of a small integer is the integer. -/
structure Strtod.Exact : Prop where
  trunc : ∀ negative digits, (intValue negative digits).natAbs ≤ 2 ^ 53 →
    d.trunc (numberText negative digits none none) = intValue negative digits
  positive : ∀ negative digits, (intValue negative digits).natAbs ≤ 2 ^ 53 →
    d.positive (numberText negative digits none none) = decide (0 < intValue negative digits)

variable {d}

theorem numberValue_itemOf (hd : d.Exact) {depth : Nat} {v : PyValue} {item : Item}
    (h : ItemOf depth v item) (hv : SmallInt v) :
    numberValue d item = (jsonValue d v).number? := by
  cases h with
  | none => rfl
  | bool _ b => cases b <;> rfl
  | int _ negative digits => exact congrArg some (hd.trunc negative digits hv)
  | float => rfl
  | str => rfl
  | list => rfl
  | dict => rfl

theorem isPositive_itemOf (hd : d.Exact) {depth : Nat} {v : PyValue} {item : Item}
    (h : ItemOf depth v item) (hv : SmallInt v) :
    isPositive d item = (jsonValue d v).isPositive := by
  cases h with
  | none => rfl
  | bool _ b => cases b <;> rfl
  | int _ negative digits => exact hd.positive negative digits hv
  | float => rfl
  | str => rfl
  | list => rfl
  | dict => rfl

/-! ## Entries -/

/-- The fields of a topic; none when it is no dictionary. -/
def topicFields : PyValue → List (PyStr × PyValue)
  | .dict fields => fields
  | _ => []

theorem objectItem_topicEntry (t : PyValue) (name : String) :
    (topicEntry d t).objectItem name = (dictItem (topicFields t) name).map (jsonValue d) := by
  have hfind : ∀ fields : List (PyStr × PyValue),
      (((fields.map fun f => (strText f.1, jsonValue d f.2)).find? fun f => sameKey name f.1).map
        fun f => f.2) = (dictItem fields name).map (jsonValue d) := by
    intro fields
    rw [List.find?_map, dictItem, Option.map_map, Option.map_map]
    rfl
  cases t with
  | dict fields => exact hfind fields
  | none => rfl
  | bool b => rfl
  | int negative digits => rfl
  | float f => rfl
  | str s => rfl
  | list xs => rfl

theorem getObjectItem_itemOf {depth : Nat} {t : PyValue} {item : Item} (h : ItemOf depth t item)
    (name : String) :
    getObjectItem item name = (dictItem (topicFields t) name).bind (toItem (depth - 1)) := by
  cases h with
  | dict h => exact getObjectItem_toMembers name h
  | none => rfl
  | bool _ b => cases b <;> rfl
  | int => rfl
  | float => rfl
  | str => rfl
  | list => rfl

/-- A lookup finds nothing on either side, or a value and its item. -/
theorem lookup_cases {depth : Nat} {t : PyValue} {item : Item} (h : ItemOf depth t item)
    (name : String) :
    (getObjectItem item name = none ∧ dictItem (topicFields t) name = none) ∨
    ∃ f ∈ topicFields t, ∃ sub, ItemOf (depth - 1) f.2 sub ∧
      getObjectItem item name = some sub ∧ dictItem (topicFields t) name = some f.2 := by
  have hget := getObjectItem_itemOf h name
  cases hfind : (topicFields t).find? fun f => sameKey name (strText f.1) with
  | none =>
    have hdict : dictItem (topicFields t) name = none := by rw [dictItem, hfind, Option.map_none]
    rw [hdict] at hget
    exact .inl ⟨hget, hdict⟩
  | some f =>
    have hdict : dictItem (topicFields t) name = some f.2 := by
      rw [dictItem, hfind, Option.map_some]
    rw [hdict, Option.bind_some] at hget
    have hmem := List.mem_of_find?_eq_some hfind
    have htaken : ∃ sub, toItem (depth - 1) f.2 = some sub := by
      cases h with
      | dict hmembers =>
        rw [toMembers_eq] at hmembers
        obtain ⟨member, -, hmember⟩ := exists_of_mapM hmembers hmem
        obtain ⟨_, -, hrest⟩ := Option.bind_eq_some_iff.mp hmember
        obtain ⟨sub, hsub, -⟩ := Option.map_eq_some_iff.mp hrest
        exact ⟨sub, hsub⟩
      | none => cases hmem
      | bool _ b => cases hmem
      | int => cases hmem
      | float => cases hmem
      | str => cases hmem
      | list => cases hmem
    obtain ⟨sub, hsub⟩ := htaken
    exact .inr ⟨f, hmem, sub, itemOf_toItem hsub, hget.trans hsub, hdict⟩

/-- Every `int` of a topic is small. -/
def SmallInts (t : PyValue) : Prop := ∀ f ∈ topicFields t, SmallInt f.2

instance (t : PyValue) : Decidable (SmallInts t) :=
  inferInstanceAs (Decidable (∀ f ∈ topicFields t, SmallInt f.2))

section Fields

variable {depth : Nat} {t : PyValue} {item : Item} (h : ItemOf depth t item) (name : String)

include h

theorem string_field : (getObjectItem item name).bind getStringValue =
    (((topicEntry d t).objectItem name).bind (·.string?)).map fun s => charBytes s.toList := by
  rw [objectItem_topicEntry]
  rcases lookup_cases h name with ⟨hget, hdict⟩ | ⟨f, -, sub, hsub, hget, hdict⟩
  · rw [hget, hdict]
    rfl
  · rw [hget, hdict]
    exact getStringValue_itemOf d hsub

theorem number_field (hd : d.Exact) (hsmall : SmallInts t) :
    (getObjectItem item name).bind (numberValue d) =
      ((topicEntry d t).objectItem name).bind (·.number?) := by
  rw [objectItem_topicEntry]
  rcases lookup_cases h name with ⟨hget, hdict⟩ | ⟨f, hf, sub, hsub, hget, hdict⟩
  · rw [hget, hdict]
    rfl
  · rw [hget, hdict]
    exact numberValue_itemOf hd hsub (hsmall f hf)

theorem plain_field (hd : d.Exact) (hsmall : SmallInts t) :
    ((getObjectItem item "plain_size").bind fun ps =>
        if isPositive d ps then (numberValue d ps).map cast.apply else none) =
      (topicEntry d t).plain cast := by
  rw [TopicEntry.plain, objectItem_topicEntry]
  rcases lookup_cases h "plain_size" with ⟨hget, hdict⟩ | ⟨f, hf, sub, hsub, hget, hdict⟩
  · rw [hget, hdict]
    rfl
  · rw [hget, hdict, Option.bind_some, Option.map_some, Option.bind_some,
      numberValue_itemOf hd hsub (hsmall f hf), isPositive_itemOf hd hsub (hsmall f hf)]

/-- **The body of the loop**, on the item and on the entry. -/
theorem readEntry_itemOf (hd : d.Exact) (hsmall : SmallInts t) :
    readEntry d cast item =
      (parseEntry cast (topicEntry d t)).map (entryBytes cast (topicEntry d t)) := by
  have hpublish : ∀ role : String,
      decide (charBytes role.toList = charBytes "publish".toList) = decide (role = "publish") := by
    intro role
    refine decide_eq_decide.mpr ?_
    rw [charBytes_inj, String.toList_inj]
  rw [readEntry, parseEntry, string_field h, string_field h, number_field h _ hd hsmall,
    string_field h, plain_field cast h hd hsmall]
  cases ((topicEntry d t).objectItem "session_type").bind (·.string?) with
  | none => rfl
  | some st =>
    cases ((topicEntry d t).objectItem "session_inst").bind (·.string?) with
    | none => rfl
    | some si =>
      cases ((topicEntry d t).objectItem "msg_id").bind (·.number?) with
      | none => rfl
      | some mid =>
        cases ((topicEntry d t).objectItem "role").bind (·.string?) with
        | none => rfl
        | some role =>
          simp only [Option.map_some, hpublish]
          rfl

end Fields

theorem readEntries_toItems {depth : Nat} (hd : d.Exact) :
    ∀ {topics : List PyValue} {items : List Item}, toItems depth topics = some items →
    (∀ t ∈ topics, SmallInts t) →
    items.filterMap (readEntry d cast) = topics.filterMap fun t =>
      (parseEntry cast (topicEntry d t)).map (entryBytes cast (topicEntry d t))
  | [], items, h, _ => by
    cases h
    rfl
  | t :: topics, items, h, hsmall => by
    obtain ⟨item, hitem, h⟩ := Option.bind_eq_some_iff.mp h
    obtain ⟨rest, hrest, rfl⟩ := Option.map_eq_some_iff.mp h
    have htail := readEntries_toItems hd hrest fun t ht => hsmall t (List.mem_cons_of_mem _ ht)
    rw [List.filterMap_cons, List.filterMap_cons, htail,
      readEntry_itemOf cast (itemOf_toItem hitem) hd (hsmall t List.mem_cons_self)]

/-! ## The file -/

/-- The topics of a process. -/
def topicsOf (fields : List (PyStr × PyValue)) : List PyValue :=
  match dictItem fields "topics" with
  | some (.list topics) => topics
  | _ => []

/-- Every `int` of a process and of its topics is small. -/
structure ExactConfig (fields : List (PyStr × PyValue)) : Prop where
  process : SmallInts (.dict fields)
  topics : ∀ t ∈ topicsOf fields, SmallInts t

/-- The entries are those of `loadConfig`. -/
theorem config_loadConfig (topics : List TopicEntry) :
    (loadConfig cast topics).config = topics.filterMap (parseEntry cast) := by
  have hstep : ∀ (topics : List TopicEntry) (c : Config),
      (topics.foldl (loadEntry cast) c).config = c.config ++ topics.filterMap (parseEntry cast) := by
    intro topics
    induction topics with
    | nil =>
      intro c
      exact (List.append_nil _).symm
    | cons t topics ih =>
      intro c
      rw [List.foldl_cons, ih, List.filterMap_cons, loadEntry]
      cases parseEntry cast t with
      | none => rfl
      | some e => exact List.append_assoc c.config [e] _
  exact hstep topics ⟨[], fun _ => none⟩

/-! ## A small file -/

/-- The value of a decimal integer. -/
def decimalValue (text : Bytes) : Int :=
  match text with
  | b :: digits => if b = 45 then -(digitsValue digits : Int) else digitsValue (b :: digits)
  | [] => 0

theorem decimalValue_numberText (negative : Bool) (digits : Digits) :
    decimalValue (numberText negative digits none none) = intValue negative digits := by
  have htext : numberText negative digits none none = minus negative ++ digits.bytes := by
    rw [numberText, fractionText, exponentText, List.append_nil, List.append_nil]
  rw [htext]
  cases negative with
  | true => rfl
  | false =>
    obtain ⟨b, rest, hbytes, hb⟩ := digits.head_isDigit []
    rw [List.append_nil] at hbytes
    have hne : b ≠ 45 := by
      rintro rfl
      exact absurd hb (by decide)
    show decimalValue digits.bytes = (digitsValue digits.bytes : Int)
    rw [hbytes, decimalValue, if_neg hne]

/-- `strtod` on integers. -/
def integerStrtod : Strtod where
  trunc := decimalValue
  positive := fun text => 0 < decimalValue text

theorem exact_integerStrtod : integerStrtod.Exact where
  trunc := fun negative digits _ => decimalValue_numberText negative digits
  positive := fun negative digits _ =>
    decide_eq_decide.mpr (by rw [decimalValue_numberText])

/-- A process with one topic, message 3 of the data group. -/
def smallProcess : List (PyStr × PyValue) :=
  let digit (b : UInt8) (h : isDigit b = true) : PyValue :=
    .int false ⟨[b], List.cons_ne_nil b [], List.forall_mem_singleton.mpr h⟩
  [(pyStr "process", .str (pyStr "a")), (pyStr "domain", digit 48 rfl),
    (pyStr "topics", .list [.dict [(pyStr "session_type", .str (pyStr "DTS")),
      (pyStr "session_inst", .str (pyStr "data")), (pyStr "msg_id", digit 51 rfl),
      (pyStr "role", .str (pyStr "publish"))]])]

end Dts.Detmw
