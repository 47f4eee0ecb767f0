import ChainBoot.Bytes

/-!
# Byte strings in pieces

A byte string is best read as a concatenation: a number at the seam of two pieces is the bytes
that stand there (`u32At?_eq_some_iff`), and overwriting one piece leaves the others
(`overwrite_append`, `overwrite_append_left`).  Fields that were written one behind the other are
read by passing over the ones in front (`window?_skip`, `u32At?_skip`) and reading the one that is
left (`u32At?_le`).  A text is read back up to the zero byte behind it (`cString_ofString`).
-/

namespace ChainBoot.Bytes

/-! ## numbers and their bytes -/

theorem le_value (w : Bytes) : le w.length w.value = w := by
  induction w with
  | nil => rfl
  | cons b bs ih =>
    have hlow : (b.toNat + 256 * value bs) / 256 = value bs := by
      have := b.toNat_lt
      omega
    have hb : UInt8.ofNat (b.toNat + 256 * value bs) = b := by
      apply UInt8.toNat.inj
      have := b.toNat_lt
      rw [UInt8.toNat_ofNat']
      omega
    rw [List.length_cons, value, le, hlow, ih, hb]

theorem value_lt (w : Bytes) : w.value < Nat.pow 256 w.length := by
  induction w with
  | nil => exact Nat.one_pos
  | cons b bs ih =>
    have hlt := b.toNat_lt
    have e : Nat.pow 256 (bs.length + 1) = Nat.pow 256 bs.length * 256 := rfl
    rw [value, List.length_cons, e]
    omega

theorem le32_value {w : Bytes} (h : w.length = 4) : le32 (UInt32.ofNat w.value) = w := by
  have hw := le_value w
  rw [h] at hw
  have hlt : w.value < 0x100000000 := by
    have hlt := w.value_lt
    rw [h] at hlt
    exact hlt
  rw [le32, UInt32.toNat_ofNat', Nat.mod_eq_of_lt hlt, hw]

theorem u32At?_eq_some_iff (bs : Bytes) (off : Nat) (v : UInt32) :
    bs.u32At? off = some v ↔ bs.window? off 4 = some (le32 v) := by
  unfold u32At?
  rw [Option.map_eq_some_iff]
  constructor
  · rintro ⟨w, hw, rfl⟩
    rw [hw, le32_value (length_of_window? hw)]
  · intro h
    exact ⟨le32 v, h, value_le32 v⟩

/-! ## pieces -/

theorem window?_append {pre w tail : Bytes} {off n : Nat} (hoff : pre.length = off)
    (hn : w.length = n) : (pre ++ w ++ tail).window? off n = some w := by
  rw [window?_eq_some_iff, List.append_assoc, List.drop_left' hoff, List.take_left' hn]
  refine ⟨?_, rfl⟩
  rw [List.length_append, List.length_append]
  omega

theorem u32At?_append {pre tail : Bytes} {v : UInt32} {off : Nat} (hoff : pre.length = off) :
    (pre ++ le32 v ++ tail).u32At? off = some v :=
  (u32At?_eq_some_iff ..).mpr (window?_append hoff (length_le32 v))

/-- one piece is overwritten, those before and behind it stay -/
theorem overwrite_append {pre old new tail : Bytes} {off : Nat} (hoff : pre.length = off)
    (hlen : old.length = new.length) :
    overwrite (pre ++ old ++ tail) off new = pre ++ new ++ tail := by
  unfold overwrite
  rw [List.append_assoc pre old tail, List.take_left' hoff, ← List.drop_drop, List.drop_left' hoff,
    List.drop_left' hlen]

theorem overwrite_append_left {as new tail : Bytes} {off : Nat} (h : off + new.length ≤ as.length) :
    overwrite (as ++ tail) off new = overwrite as off new ++ tail := by
  unfold overwrite
  rw [List.take_append_of_le_length (Nat.le_of_add_right_le h), List.drop_append_of_le_length h,
    List.append_assoc _ _ tail]

theorem overwrite_append_right {pre as new : Bytes} {off : Nat} (hoff : pre.length = off) (k : Nat) :
    overwrite (pre ++ as) (off + k) new = pre ++ as.overwrite k new := by
  subst hoff
  unfold overwrite
  rw [List.take_length_add_append, Nat.add_assoc, List.drop_length_add_append]
  simp only [List.append_assoc]

theorem take_overwrite {bs new : Bytes} {off k : Nat} (h : off ≤ bs.length) (hk : k ≤ off) :
    (bs.overwrite off new).take k = bs.take k := by
  unfold overwrite
  rw [List.append_assoc, List.take_append_of_le_length (by rw [List.length_take]; omega),
    List.take_take, Nat.min_eq_left hk]

theorem overwrite_overwrite {bs a b : Bytes} {off : Nat} (h : off ≤ bs.length) :
    overwrite (bs.overwrite off a) (off + a.length) b = bs.overwrite off (a ++ b) := by
  have hfront : (bs.take off ++ a).length = off + a.length := by
    rw [List.length_append, List.length_take, Nat.min_eq_left h]
  unfold overwrite
  rw [List.take_left' hfront, ← List.drop_drop (i := b.length), List.drop_left' hfront,
    List.drop_drop, List.length_append, Nat.add_assoc, List.append_assoc (bs.take off) a b]

theorem eq_append_of_window? {bs w : Bytes} {off n : Nat} (h : bs.window? off n = some w) :
    bs = bs.take off ++ w ++ bs.drop (off + n) := by
  obtain ⟨-, rfl⟩ := (window?_eq_some_iff ..).mp h
  rw [List.append_assoc, ← List.drop_drop, List.take_append_drop, List.take_append_drop]

theorem window?_of_take {bs : Bytes} {off n k : Nat} (h : off + n ≤ k) :
    window? (bs.take k) off n = window? bs off n := by
  apply window?_congr
  intro i _ hi
  exact List.getElem?_take_of_lt (by omega)

/-! ## parts of the bytes -/

theorem window?_drop (bs : Bytes) (k off n : Nat) :
    window? (bs.drop k) off n = bs.window? (k + off) n := by
  unfold window?
  rw [List.drop_drop]

theorem u32At?_drop (bs : Bytes) (k off : Nat) : u32At? (bs.drop k) off = bs.u32At? (k + off) := by
  unfold u32At?
  rw [window?_drop]

theorem u64At?_drop (bs : Bytes) (k off : Nat) : u64At? (bs.drop k) off = bs.u64At? (k + off) := by
  unfold u64At?
  rw [window?_drop]

theorem u32At?_of_take {bs : Bytes} {off k : Nat} (h : off + 4 ≤ k) :
    u32At? (bs.take k) off = bs.u32At? off := by
  unfold u32At?
  rw [window?_of_take h]

theorem u32At?_eq_none_iff (bs : Bytes) (off : Nat) :
    bs.u32At? off = none ↔ bs.length < off + 4 := by
  unfold u32At? window?
  rw [Option.map_eq_none_iff, List.length_take, List.length_drop]
  split
  · simp only [reduceCtorEq, false_iff]
    omega
  · simp only [true_iff]
    omega

theorem exists_u32At? {bs : Bytes} {off : Nat} (h : off + 4 ≤ bs.length) :
    ∃ v, bs.u32At? off = some v :=
  Option.ne_none_iff_exists'.mp fun hnone =>
    Nat.not_lt.mpr h ((u32At?_eq_none_iff bs off).mp hnone)

theorem u64At?_of_take {bs : Bytes} {off k : Nat} (h : off + 8 ≤ k) :
    u64At? (bs.take k) off = bs.u64At? off := by
  unfold u64At?
  rw [window?_of_take h]

/-! ## fields one behind the other -/

section
variable {w tail : Bytes} {off : Nat}

theorem window?_skip (h : w.length ≤ off) (n : Nat) :
    (w ++ tail).window? off n = tail.window? (off - w.length) n := by
  unfold window?
  rw [List.drop_append, List.drop_of_length_le h, List.nil_append]

theorem u8At?_skip (h : w.length ≤ off) : (w ++ tail).u8At? off = tail.u8At? (off - w.length) :=
  List.getElem?_append_right h

theorem u16At?_skip (h : w.length ≤ off) :
    (w ++ tail).u16At? off = tail.u16At? (off - w.length) := by
  unfold u16At?
  rw [window?_skip h]

theorem u32At?_skip (h : w.length ≤ off) :
    (w ++ tail).u32At? off = tail.u32At? (off - w.length) := by
  unfold u32At?
  rw [window?_skip h]

theorem u64At?_skip (h : w.length ≤ off) :
    (w ++ tail).u64At? off = tail.u64At? (off - w.length) := by
  unfold u64At?
  rw [window?_skip h]

end

section
variable (v : Nat) (tail : Bytes)

theorem window?_le (n : Nat) : (le n v ++ tail).window? 0 n = some (le n v) :=
  have hnil : ([] : Bytes).length = 0 := rfl
  window?_append hnil (length_le n v)

theorem u16At?_le : (le 2 v ++ tail).u16At? 0 = some (UInt16.ofNat v) := by
  unfold u16At?
  rw [window?_le, Option.map_some, value_le]
  exact congrArg some (UInt16.toNat.inj (by simp [UInt16.toNat_ofNat']))

theorem u32At?_le : (le 4 v ++ tail).u32At? 0 = some (UInt32.ofNat v) := by
  unfold u32At?
  rw [window?_le, Option.map_some, value_le]
  exact congrArg some (UInt32.toNat.inj (by simp [UInt32.toNat_ofNat']))

theorem u64At?_le : (le 8 v ++ tail).u64At? 0 = some (UInt64.ofNat v) := by
  unfold u64At?
  rw [window?_le, Option.map_some, value_le]
  exact congrArg some (UInt64.toNat.inj (by simp [UInt64.toNat_ofNat']))

end

/-! ## texts -/

theorem ofNat_ne_zero {v : Nat} (h : v % 256 ≠ 0) : UInt8.ofNat v ≠ 0 := by
  intro hz
  have := congrArg UInt8.toNat hz
  rw [UInt8.toNat_ofNat'] at this
  exact h this

/-- only the zero character is written with a zero byte: all bytes of the others but the first
carry a mark, and the first one is the character itself or carries a mark as well -/
theorem ne_zero_of_mem_utf8EncodeChar {c : Char} (hc : c ≠ '\x00') :
    ∀ b ∈ String.utf8EncodeChar c, b ≠ 0 := by
  have hpos : c.val.toNat ≠ 0 := fun h => hc (Char.ext (UInt32.toNat.inj h))
  have hmax := c.valid
  unfold String.utf8EncodeChar
  dsimp only
  repeat' split
  all_goals repeat refine List.forall_mem_cons.mpr ⟨ofNat_ne_zero (by omega), ?_⟩
  all_goals exact fun b hb => absurd hb List.not_mem_nil

theorem ofString_eq (s : String) : ofString s = s.toList.flatMap String.utf8EncodeChar := by
  unfold ofString
  rw [String.toUTF8_eq_toByteArray, ← String.utf8Encode_toList, List.utf8Encode,
    List.data_toByteArray]

theorem ne_zero_of_mem_ofString {s : String} (hs : '\x00' ∉ s.toList) : ∀ b ∈ ofString s, b ≠ 0 := by
  rw [ofString_eq]
  intro b hb
  obtain ⟨c, hc, hbc⟩ := List.mem_flatMap.mp hb
  exact ne_zero_of_mem_utf8EncodeChar (fun h => hs (h ▸ hc)) b hbc

theorem fromUTF8?_toUTF8 (s : String) : String.fromUTF8? s.toUTF8 = some s := by
  unfold String.fromUTF8?
  exact dif_pos s.isValidUTF8

/-- a text that ends with a zero byte is read back if it has none inside -/
theorem cString_ofString {s : String} (hs : '\x00' ∉ s.toList) (tail : Bytes) :
    cString (ofString s ++ 0 :: tail) = s := by
  have hclean : ∀ b ∈ ofString s, (b != 0) = true := fun b hb =>
    bne_iff_ne.mpr (ne_zero_of_mem_ofString hs b hb)
  unfold cString
  rw [List.takeWhile_append_of_pos hclean, List.takeWhile_cons_of_neg (by decide), List.append_nil]
  show (String.fromUTF8? s.toUTF8).getD "" = s
  rw [fromUTF8?_toUTF8]
  rfl

end ChainBoot.Bytes
