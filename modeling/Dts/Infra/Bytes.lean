import Mathlib.Data.List.Basic
import Mathlib.Tactic.Ring

/-!
# Little-endian bytes and byte-addressed memory

* `Payload` — bytes with a length of type `uint32_t`
* `utf8`, `cStr` — the bytes of a text, and what C sees of them
* `leBytes w n` / `leNat bs` — the `w` low bytes of a number and back
* `slice bs off n` — `n` bytes of a byte string from `off`
* `Mem` with `load` / `store` — a flat memory and the two directions of `memcpy`

The rules about `Mem` are the frame rules: a load of what was stored, and a load that the store
does not touch.
-/

namespace Infra

abbrev Bytes := List UInt8

/-- Data whose length is a `uint32_t`. -/
structure Payload where
  bytes : Bytes
  sizeT : bytes.length < 2 ^ 32

def Payload.len (p : Payload) : UInt32 := UInt32.ofNat p.bytes.length

/-- The bytes of a text. -/
def utf8 (s : String) : Bytes := s.toList.flatMap String.utf8EncodeChar

/-- What C sees of a text that may hold a NUL. -/
def cStr (s : Bytes) : Bytes := s.takeWhile fun b => b != 0

/-! ## Little-endian numbers -/

/-- The `w` low bytes of `n`, least significant first. -/
def leBytes : Nat → Nat → Bytes
  | 0, _ => []
  | w + 1, n => UInt8.ofNat n :: leBytes w (n / 256)

/-- The number a little-endian byte string stands for. -/
def leNat : Bytes → Nat
  | [] => 0
  | b :: bs => b.toNat + 256 * leNat bs

@[simp] theorem length_leBytes : ∀ (w n : Nat), (leBytes w n).length = w
  | 0, _ => rfl
  | w + 1, n => by rw [leBytes, List.length_cons, length_leBytes w]

/-- **Round trip.** Decoding the `w` low bytes gives the number modulo `256 ^ w`. -/
theorem leNat_leBytes : ∀ (w n : Nat), leNat (leBytes w n) = n % 256 ^ w
  | 0, n => by simp [leBytes, leNat, Nat.mod_one]
  | w + 1, n => by
    have hb : (UInt8.ofNat n).toNat = n % 256 := UInt8.toNat_ofNat'
    rw [leBytes, leNat, leNat_leBytes w, hb, Nat.pow_succ', Nat.mod_mul]

theorem leNat_append : ∀ as bs : Bytes, leNat (as ++ bs) = leNat as + 256 ^ as.length * leNat bs
  | [], bs => by simp [leNat]
  | a :: as, bs => by
    rw [List.cons_append, leNat, leNat, leNat_append as bs, List.length_cons, Nat.pow_succ']
    ring

theorem leNat_lt : ∀ bs : Bytes, leNat bs < 256 ^ bs.length
  | [] => by simp [leNat]
  | b :: bs => by
    have ih := leNat_lt bs
    have hb := b.toNat_lt
    rw [leNat, List.length_cons, Nat.pow_succ']
    omega

/-- Byte strings of one length are told apart by the numbers they stand for. -/
theorem leNat_injective : ∀ {as bs : Bytes}, as.length = bs.length → leNat as = leNat bs → as = bs
  | [], [], _, _ => rfl
  | [], _ :: _, h, _ => by simp at h
  | _ :: _, [], h, _ => by simp at h
  | a :: as, b :: bs, hlen, h => by
    have ha := a.toNat_lt
    have hb := b.toNat_lt
    simp only [leNat] at h
    have hab : a.toNat = b.toNat := by omega
    have hrest : leNat as = leNat bs := by omega
    rw [UInt8.toNat_inj.mp hab, leNat_injective (by simpa using hlen) hrest]

/-! ## Slices -/

/-- `n` bytes of `bs` starting at `off` (fewer when `bs` ends before). -/
def slice (bs : Bytes) (off n : Nat) : Bytes := (bs.drop off).take n

theorem length_slice {bs : Bytes} {off n : Nat} (h : off + n ≤ bs.length) :
    (slice bs off n).length = n := by
  simp only [slice, List.length_take, List.length_drop]
  omega

/-- A slice is its first `n` bytes and the rest. -/
theorem slice_add (bs : Bytes) (off n k : Nat) :
    slice bs off (n + k) = slice bs off n ++ slice bs (off + n) k := by
  rw [slice, slice, slice, List.take_add, List.drop_drop]

theorem slice_append_right {as bs : Bytes} {off n : Nat} (h : as.length ≤ off) :
    slice (as ++ bs) off n = slice bs (off - as.length) n := by
  rw [slice, slice, List.drop_append, List.drop_of_length_le h, List.nil_append]

theorem slice_zero_append (as bs : Bytes) : slice (as ++ bs) 0 as.length = as := by
  simp [slice]

/-! ## Memory -/

/-- Byte-addressed memory. -/
abbrev Mem := Nat → UInt8

namespace Mem

/-- Copy `bs` to address `a`. -/
def store (m : Mem) (a : Nat) (bs : Bytes) : Mem :=
  fun x => if a ≤ x ∧ x < a + bs.length then bs.getD (x - a) 0 else m x

/-- The `n` bytes at address `a`. -/
def load (m : Mem) (a n : Nat) : Bytes := (List.range n).map fun i => m (a + i)

@[simp] theorem length_load (m : Mem) (a n : Nat) : (m.load a n).length = n := by simp [load]

theorem load_add (m : Mem) (a n k : Nat) : m.load a (n + k) = m.load a n ++ m.load (a + n) k := by
  simp [load, List.range_add, Nat.add_assoc, Function.comp_def]

theorem load_congr {m m' : Mem} {a n : Nat} (h : ∀ x, a ≤ x → x < a + n → m x = m' x) :
    m.load a n = m'.load a n := by
  refine List.map_congr_left ?_
  intro i hi
  have := List.mem_range.mp hi
  exact h _ (by omega) (by omega)

@[simp] theorem store_nil (m : Mem) (a : Nat) : m.store a [] = m := by
  funext x
  rw [store, if_neg (by simp)]

@[simp] theorem load_zero (m : Mem) (a : Nat) : m.load a 0 = [] := rfl

/-- A load of what was just stored. -/
@[simp] theorem load_store_same (m : Mem) (a : Nat) (bs : Bytes) :
    (m.store a bs).load a bs.length = bs := by
  refine List.ext_getElem (by simp) ?_
  intro i h1 h2
  simp only [load, List.getElem_map, List.getElem_range, store]
  rw [if_pos (by omega), Nat.add_sub_cancel_left, ← List.getElem_eq_getD]

theorem load_store_eq {m : Mem} {a n : Nat} {bs : Bytes} (h : bs.length = n) :
    (m.store a bs).load a n = bs := by rw [← h, load_store_same]

/-- A load outside the stored bytes is not affected. -/
theorem load_store_disjoint {m : Mem} {a b n : Nat} {bs : Bytes}
    (h : b + n ≤ a ∨ a + bs.length ≤ b) : (m.store a bs).load b n = m.load b n := by
  refine load_congr ?_
  intro x h1 h2
  rw [store, if_neg (by omega)]

end Mem

end Infra
