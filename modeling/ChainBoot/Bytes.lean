/-!
# Byte strings

Memory images are lists of bytes.  Numbers in them are little-endian: `le` writes one
in any width, `u16At?`, `u32At?`, `u64At?` read one at an offset and fail where the bytes run out.

* `Bytes.slice bs a b`      the bytes from offset `a` up to `b`;
* `Bytes.overwrite bs o n`  `n` in place of the bytes from `o` on, the length kept;
* `Bytes.cString`           the text in front of the first zero byte.
-/

namespace ChainBoot

abbrev Bytes := List UInt8

namespace Bytes

/-! ## numbers -/

/-- the lowest `n` bytes of `v`, lowest first -/
def le : (n : Nat) → (v : Nat) → Bytes
  | 0, _ => []
  | n + 1, v => UInt8.ofNat v :: le n (v / 256)

/-- the number whose bytes are given, lowest first -/
def value : Bytes → Nat
  | [] => 0
  | b :: bs => b.toNat + 256 * value bs

def le32 (v : UInt32) : Bytes := le 4 v.toNat
def le64 (v : UInt64) : Bytes := le 8 v.toNat

/-- the `n` bytes at `off`, if there are as many -/
def window? (bs : Bytes) (off n : Nat) : Option Bytes :=
  if ((bs.drop off).take n).length = n then some ((bs.drop off).take n) else none

def u8At? (bs : Bytes) (off : Nat) : Option UInt8 := bs[off]?

def u16At? (bs : Bytes) (off : Nat) : Option UInt16 :=
  (bs.window? off 2).map fun w => UInt16.ofNat w.value

def u32At? (bs : Bytes) (off : Nat) : Option UInt32 :=
  (bs.window? off 4).map fun w => UInt32.ofNat w.value

def u64At? (bs : Bytes) (off : Nat) : Option UInt64 :=
  (bs.window? off 8).map fun w => UInt64.ofNat w.value

/-! ## parts -/

/-- the bytes from offset `a` up to offset `b` -/
def slice (bs : Bytes) (a b : Nat) : Bytes := (bs.drop a).take (b - a)

/-- `new` in place of as many bytes from `off` on -/
def overwrite (bs : Bytes) (off : Nat) (new : Bytes) : Bytes :=
  bs.take off ++ new ++ bs.drop (off + new.length)

def zeros (n : Nat) : Bytes := List.replicate n 0

/-! ## text -/

def ofString (s : String) : Bytes := s.toUTF8.data.toList

/-- the text in front of the first zero byte; empty where the bytes are not UTF-8 -/
def cString (bs : Bytes) : String :=
  (String.fromUTF8? (ByteArray.mk (bs.takeWhile (· != 0)).toArray)).getD ""

/-! ## small laws -/

@[simp] theorem length_le (n v : Nat) : (le n v).length = n := by
  induction n generalizing v with
  | zero => rfl
  | succ n ih => rw [le, List.length_cons, ih]

theorem value_le (n v : Nat) : (le n v).value = v % Nat.pow 256 n := by
  induction n generalizing v with
  | zero =>
    rw [le, value]
    exact (Nat.mod_one v).symm
  | succ n ih =>
    have e : Nat.pow 256 (n + 1) = 256 * Nat.pow 256 n := Nat.mul_comm ..
    rw [le, value, ih, UInt8.toNat_ofNat', e, Nat.mod_mul]

@[simp] theorem length_le32 (v : UInt32) : (le32 v).length = 4 := length_le ..
@[simp] theorem length_le64 (v : UInt64) : (le64 v).length = 8 := length_le ..
@[simp] theorem length_zeros (n : Nat) : (zeros n).length = n := List.length_replicate

theorem window?_eq_some_iff (bs : Bytes) (off n : Nat) (w : Bytes) :
    bs.window? off n = some w ↔ n ≤ bs.length - off ∧ w = (bs.drop off).take n := by
  unfold window?
  rw [List.length_take, List.length_drop]
  split
  · rw [Option.some.injEq]
    exact ⟨fun h => ⟨by omega, h.symm⟩, fun h => h.2.symm⟩
  · constructor
    · intro h; cases h
    · intro h; omega

@[simp] theorem value_le32 (v : UInt32) : UInt32.ofNat (le32 v).value = v := by
  apply UInt32.toNat.inj
  have hv : v.toNat < Nat.pow 256 4 := v.toNat_lt
  rw [UInt32.toNat_ofNat', le32, value_le, Nat.mod_eq_of_lt hv, Nat.mod_eq_of_lt v.toNat_lt]

/-! ## overwriting -/

theorem length_overwrite {bs : Bytes} {off : Nat} {new : Bytes}
    (h : off + new.length ≤ bs.length) : (bs.overwrite off new).length = bs.length := by
  unfold overwrite
  rw [List.length_append, List.length_append, List.length_take, List.length_drop]
  omega

theorem getElem?_overwrite {bs : Bytes} {off : Nat} {new : Bytes}
    (h : off + new.length ≤ bs.length) (i : Nat) :
    (bs.overwrite off new)[i]? =
      if off ≤ i ∧ i < off + new.length then new[i - off]? else bs[i]? := by
  have htake : (bs.take off).length = off := by rw [List.length_take]; omega
  unfold overwrite
  by_cases h1 : i < off
  · rw [if_neg (by omega), List.append_assoc, List.getElem?_append_left (by omega),
      List.getElem?_take_of_lt h1]
  · by_cases h2 : i < off + new.length
    · rw [if_pos ⟨by omega, h2⟩, List.append_assoc, List.getElem?_append_right (by omega), htake,
        List.getElem?_append_left (by omega)]
    · rw [if_neg (by omega), List.getElem?_append_right (by rw [List.length_append]; omega),
        List.getElem?_drop, List.length_append, htake]
      congr 1
      omega

theorem drop_overwrite {bs : Bytes} {off : Nat} {new : Bytes} (h : off + new.length ≤ bs.length)
    {k : Nat} (hk : k ≤ off) :
    (bs.overwrite off new).drop k = overwrite (bs.drop k) (off - k) new := by
  apply List.ext_getElem?
  intro i
  have h' : off - k + new.length ≤ (bs.drop k).length := by rw [List.length_drop]; omega
  rw [List.getElem?_drop, getElem?_overwrite h, getElem?_overwrite h', List.getElem?_drop]
  by_cases hi : off ≤ k + i ∧ k + i < off + new.length
  · rw [if_pos hi, if_pos (by omega)]
    congr 1
    omega
  · rw [if_neg hi, if_neg (by omega)]

theorem drop_overwrite_of_le {bs : Bytes} {off : Nat} {new : Bytes}
    (h : off + new.length ≤ bs.length) {k : Nat} (hk : off + new.length ≤ k) :
    (bs.overwrite off new).drop k = bs.drop k := by
  apply List.ext_getElem?
  intro i
  rw [List.getElem?_drop, getElem?_overwrite h, if_neg (by omega), List.getElem?_drop]

/-! ## windows -/

theorem getElem?_window {bs : Bytes} {off n : Nat} (i : Nat) :
    ((bs.drop off).take n)[i]? = if i < n then bs[off + i]? else none := by
  by_cases h : i < n
  · rw [if_pos h, List.getElem?_take_of_lt h, List.getElem?_drop]
  · rw [if_neg h, List.getElem?_take_eq_none (by omega)]

theorem window?_congr {as bs : Bytes} {off n : Nat}
    (h : ∀ i, off ≤ i → i < off + n → as[i]? = bs[i]?) : as.window? off n = bs.window? off n := by
  have e : (as.drop off).take n = (bs.drop off).take n := by
    apply List.ext_getElem?
    intro i
    rw [getElem?_window, getElem?_window]
    by_cases hi : i < n
    · rw [if_pos hi, if_pos hi, h _ (by omega) (by omega)]
    · rw [if_neg hi, if_neg hi]
  unfold window?
  rw [e]

theorem window?_overwrite {bs : Bytes} {off : Nat} {new : Bytes}
    (h : off + new.length ≤ bs.length) :
    (bs.overwrite off new).window? off new.length = some new := by
  rw [window?_eq_some_iff, length_overwrite h]
  refine ⟨by omega, ?_⟩
  apply List.ext_getElem?
  intro i
  rw [getElem?_window, getElem?_overwrite h]
  by_cases hi : i < new.length
  · rw [if_pos hi, if_pos (by omega), Nat.add_sub_cancel_left]
  · rw [if_neg hi, List.getElem?_eq_none (by omega)]

theorem length_of_window? {bs : Bytes} {off n : Nat} {w : Bytes} (h : bs.window? off n = some w) :
    w.length = n := by
  obtain ⟨h1, rfl⟩ := (window?_eq_some_iff ..).mp h
  rw [List.length_take, List.length_drop]
  omega

end Bytes

end ChainBoot
