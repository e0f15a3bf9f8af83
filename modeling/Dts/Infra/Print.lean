import Dts.Infra.Bytes

/-!
# Printing into a buffer piece by piece

The texts of a list are printed one behind the other by
`n = snprintf(buf + off, cap - off, ...); if (n > 0) off += n;`. The return value of `snprintf` is the
length of the whole text, also when there was room for a part of it only, so `off` may go over `cap`;
then `cap - off` is a number near `2 ^ 64`.

* `prints cap off ts` — the calls that print `ts` from offset `off` on
* `forall_fits_iff` — when every call gets the room that is left, and `forall_inside_iff`: no other
  calls stay inside the buffer
* `terminated_prints` — what the buffer holds after such calls
-/

namespace Infra

/-- A call of `snprintf`: where it writes, the size it is given, and the text of the format. -/
structure Print where
  off : UInt64
  size : UInt64
  text : Bytes

namespace Print

/-- The bytes it writes: as much of the text as leaves room for a NUL, and the NUL. -/
def bytes (p : Print) : Bytes :=
  if p.size = 0 then [] else p.text.take (p.size.toNat - 1) ++ [0]

/-- The length of the whole text; negative when that is no `int`. -/
def ret (p : Print) : Int := if p.text.length < 2 ^ 31 then p.text.length else -1

/-- The call is given the room that is left in a buffer. -/
def Fits (cap : UInt64) (p : Print) : Prop := p.off.toNat + p.size.toNat = cap.toNat

/-- What it writes lies in the buffer. -/
def Inside (cap : UInt64) (p : Print) : Prop :=
  p.bytes ≠ [] → p.off.toNat + p.bytes.length ≤ cap.toNat

end Print

/-- `if (n > 0) off += n;` -/
def advance (off : UInt64) (n : Int) : UInt64 := if 0 < n then off + UInt64.ofNat n.toNat else off

def prints (cap : UInt64) : UInt64 → List Bytes → List Print
  | _, [] => []
  | off, t :: ts =>
    let p : Print := ⟨off, cap - off, t⟩
    p :: prints cap (advance off p.ret) ts

/-- The buffer after the calls. -/
def printAll (m : Mem) (ps : List Print) : Mem :=
  ps.foldl (fun m p => m.store p.off.toNat p.bytes) m

/-! ## Offsets -/

section
variable {cap off : UInt64} {t : Bytes}

theorem toNat_advance (off size : UInt64) (h : off.toNat + t.length < 2 ^ 31) :
    (advance off (Print.ret ⟨off, size, t⟩)).toNat = off.toNat + t.length := by
  have hlen : t.length < 2 ^ 31 := by omega
  have hret : Print.ret ⟨off, size, t⟩ = t.length := if_pos hlen
  unfold advance
  rw [hret]
  split
  · rw [UInt64.toNat_add, Int.toNat_natCast, UInt64.toNat_ofNat']
    omega
  · omega

/-- The room that is left, as long as there is room. -/
theorem toNat_room (h : off.toNat ≤ cap.toNat) : (cap - off).toNat = cap.toNat - off.toNat :=
  UInt64.toNat_sub_of_le _ _ (UInt64.le_iff_toNat_le.mpr h)

theorem fits_iff : Print.Fits cap ⟨off, cap - off, t⟩ ↔ off.toNat ≤ cap.toNat := by
  show off.toNat + (cap - off).toNat = cap.toNat ↔ off.toNat ≤ cap.toNat
  constructor
  · intro h
    omega
  · intro h
    rw [toNat_room h]
    omega

/-- A call never writes more than it is given. -/
theorem Print.length_bytes_le (p : Print) : p.bytes.length ≤ p.size.toNat := by
  unfold Print.bytes
  split
  · exact Nat.zero_le _
  · rename_i hsize
    have hpos : p.size.toNat ≠ 0 := fun h => hsize (UInt64.toNat_inj.mp h)
    rw [List.length_append, List.length_take, List.length_singleton]
    omega

/-- Behind the end of the buffer a call is given a size, and writes a NUL at least. -/
theorem inside_iff : Print.Inside cap ⟨off, cap - off, t⟩ ↔ Print.Fits cap ⟨off, cap - off, t⟩ := by
  constructor
  · intro hin
    rw [fits_iff]
    by_contra hover
    have hsize : ¬ cap - off = 0 := by
      intro h
      have hoff := off.toNat_lt
      have hzero := congrArg UInt64.toNat h
      rw [UInt64.toNat_sub, UInt64.toNat_zero] at hzero
      omega
    have hne : Print.bytes ⟨off, cap - off, t⟩ ≠ [] := by
      unfold Print.bytes
      rw [if_neg hsize]
      simp
    exact hover ((Nat.le_add_right _ _).trans (hin hne))
  · intro hfits _
    have hlen := Print.length_bytes_le ⟨off, cap - off, t⟩
    unfold Print.Fits at hfits
    omega

end

/-! ## All calls -/

theorem forall_inside_iff (cap : UInt64) : ∀ (ts : List Bytes) (off : UInt64),
    (∀ p ∈ prints cap off ts, p.Inside cap) ↔ ∀ p ∈ prints cap off ts, p.Fits cap
  | [], _ => by simp [prints]
  | t :: ts, off => by
    rw [prints, List.forall_mem_cons, List.forall_mem_cons, inside_iff, forall_inside_iff cap ts]

/-- **Room for all calls.** Every text but the last has to fit, with one byte less than a NUL needs. -/
theorem forall_fits_iff (cap : UInt64) : ∀ (ts : List Bytes) (off : UInt64),
    off.toNat + ts.flatten.length < 2 ^ 31 →
    ((∀ p ∈ prints cap off ts, p.Fits cap) ↔
      ts = [] ∨ off.toNat + ts.dropLast.flatten.length ≤ cap.toNat)
  | [], _, _ => by simp [prints]
  | [t], off, _ => by simp [prints, fits_iff]
  | t :: u :: ts, off, h => by
    rw [List.flatten_cons, List.length_append] at h
    have hnext := toNat_advance off (cap - off) (t := t) (by omega)
    rw [prints, List.forall_mem_cons, fits_iff,
      forall_fits_iff cap (u :: ts) _ (by rw [hnext]; omega), hnext, List.dropLast_cons_cons,
      List.flatten_cons, List.length_append]
    simp only [List.cons_ne_nil, false_or]
    omega

/-! ## What the buffer holds -/

/-- The first `cap - 1` bytes of a text and a NUL. -/
structure Terminated (m : Mem) (text : Bytes) (cap : ℕ) : Prop where
  held : m.load 0 (min text.length (cap - 1)) = text.take (cap - 1)
  nul : m (min text.length (cap - 1)) = 0

theorem Mem.load_store_prefix (m : Mem) (a : ℕ) (xs ys : Bytes) :
    (m.store a (xs ++ ys)).load a xs.length = xs ∧
      (m.store a (xs ++ ys)).load (a + xs.length) ys.length = ys := by
  have h := Mem.load_store_same m a (xs ++ ys)
  rw [List.length_append, Mem.load_add] at h
  exact List.append_inj h (Mem.length_load _ _ _)

/-- A call that has room goes on where the text has ended. -/
theorem terminated_of_room {m : Mem} {done t : Bytes} {cap off : UInt64}
    (hdone : m.load 0 done.length = done) (hoff : off.toNat = done.length)
    (hroom : off.toNat < cap.toNat) :
    Terminated (m.store off.toNat (Print.bytes ⟨off, cap - off, t⟩)) (done ++ t) cap.toNat := by
  have hsize := toNat_room (Nat.le_of_lt hroom)
  have hne : ¬ cap - off = 0 := by
    intro h
    rw [h, UInt64.toNat_zero] at hsize
    omega
  rw [Print.bytes, if_neg hne, hsize, hoff]
  rw [hoff] at hroom
  obtain ⟨htext, hnul⟩ :=
    Mem.load_store_prefix m done.length (t.take (cap.toNat - done.length - 1)) [0]
  have hlen : min (done ++ t).length (cap.toNat - 1)
      = done.length + (t.take (cap.toNat - done.length - 1)).length := by
    rw [List.length_append, List.length_take]
    omega
  have hcut : cap.toNat - 1 - done.length = cap.toNat - done.length - 1 := by omega
  constructor
  · rw [hlen, Mem.load_add, Nat.zero_add, htext, Mem.load_store_disjoint (Or.inl (by omega)), hdone,
      List.take_append, List.take_of_length_le (by omega : done.length ≤ cap.toNat - 1), hcut]
  · rw [hlen]
    exact List.head_eq_of_cons_eq hnul

/-- One call, with the buffer full or not. -/
theorem terminated_print {m : Mem} {done t : Bytes} {cap off : UInt64}
    (hm : Terminated m done cap.toNat) (hoff : off.toNat = done.length)
    (hfits : off.toNat ≤ cap.toNat) :
    Terminated (m.store off.toNat (Print.bytes ⟨off, cap - off, t⟩)) (done ++ t) cap.toNat := by
  rcases Nat.lt_or_ge off.toNat cap.toNat with hroom | hfull
  · have hdone := hm.held
    rw [Nat.min_eq_left (by omega), List.take_of_length_le (by omega)] at hdone
    exact terminated_of_room hdone hoff hroom
  · -- the buffer is full, and the call is given no room
    have hsize := toNat_room hfits
    have hzero : cap - off = 0 := UInt64.toNat_inj.mp (by rw [hsize, UInt64.toNat_zero]; omega)
    have hmin : min (done ++ t).length (cap.toNat - 1) = min done.length (cap.toNat - 1) := by
      rw [List.length_append]
      omega
    rw [Print.bytes, if_pos hzero, Mem.store_nil]
    refine ⟨?_, hmin ▸ hm.nul⟩
    rw [hmin, hm.held, List.take_append_of_le_length (by omega)]

theorem terminated_prints {cap : UInt64} : ∀ {ts : List Bytes} {off : UInt64} {m : Mem} {done : Bytes},
    Terminated m done cap.toNat → off.toNat = done.length →
    off.toNat + ts.flatten.length < 2 ^ 31 → (∀ p ∈ prints cap off ts, p.Fits cap) →
    Terminated (printAll m (prints cap off ts)) (done ++ ts.flatten) cap.toNat
  | [], _, _, _, hm, _, _, _ => by
    rw [List.flatten_nil, List.append_nil]
    exact hm
  | t :: ts, off, m, done, hm, hoff, hlen, hfits => by
    rw [prints, List.forall_mem_cons, fits_iff] at hfits
    rw [List.flatten_cons, List.length_append] at hlen
    have hnext := toNat_advance off (cap - off) (t := t) (by omega)
    rw [List.flatten_cons, ← List.append_assoc, prints, printAll, List.foldl_cons]
    refine terminated_prints (terminated_print hm hoff hfits.1) ?_ (by omega) hfits.2
    rw [hnext, hoff, List.length_append]

/-- **What is printed.** From the beginning of a buffer: the texts, as far as there is room. -/
theorem terminated_printAll {cap : UInt64} (hcap : 0 < cap) {t : Bytes} {ts : List Bytes} (m : Mem)
    (hlen : (t :: ts).flatten.length < 2 ^ 31) (hfits : ∀ p ∈ prints cap 0 (t :: ts), p.Fits cap) :
    Terminated (printAll m (prints cap 0 (t :: ts))) (t :: ts).flatten cap.toNat := by
  have hpos : 0 < cap.toNat := UInt64.lt_iff_toNat_lt.mp hcap
  have hfirst : Terminated (m.store (0 : UInt64).toNat (Print.bytes ⟨0, cap - 0, t⟩)) ([] ++ t)
      cap.toNat := terminated_of_room rfl rfl hpos
  rw [prints, List.forall_mem_cons] at hfits
  rw [List.flatten_cons, List.length_append] at hlen
  have hnext := toNat_advance 0 (cap - 0) (t := t)
    (by rw [UInt64.toNat_zero]; omega)
  rw [UInt64.toNat_zero, Nat.zero_add] at hnext
  rw [prints, printAll, List.foldl_cons]
  exact terminated_prints hfirst hnext (by omega) hfits.2

end Infra
