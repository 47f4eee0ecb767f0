/-!
# Physical addresses

An address is one of the `2 ^ 64` byte positions of physical memory.

* `Address.alignDown`, `Address.alignUp?`   the neighbouring page boundaries; rounding up fails
                                            where the boundary lies past the last address;
* `Address.add?`                            a sum, if it is still an address.

The rounding laws `alignDown_le`, `dvd_alignDown`, `alignUp?_eq_some_iff` are what the region
search rests on.
-/

namespace ChainBoot

/-- a byte position in physical memory -/
abbrev Address := Fin 0x10000000000000000

/-- relocation targets start on multiples of this many bytes -/
def pageSize : Nat := 4096

/-- the first address that no 32-bit module field can hold -/
def fourGiB : Address := ⟨0x100000000, by omega⟩

namespace Address

def zero : Address := ⟨0, by omega⟩

/-- the last address -/
def top : Address := ⟨0xFFFFFFFFFFFFFFFF, by omega⟩

def ofUInt32 (v : UInt32) : Address := ⟨v.toNat, Nat.lt_trans v.toNat_lt (by omega)⟩

def ofUInt64 (v : UInt64) : Address := ⟨v.toNat, v.toNat_lt⟩

def toUInt64 (a : Address) : UInt64 := UInt64.ofNat a.val

/-- the address as a 32-bit field, if it fits -/
def toUInt32? (a : Address) : Option UInt32 :=
  if a.val < 0x100000000 then some (UInt32.ofNat a.val) else none

/-- the last page boundary at or below `a` -/
def alignDown (a : Address) : Address := ⟨a.val / pageSize * pageSize, by
  have := Nat.div_mul_le_self a.val pageSize
  omega⟩

/-- the first page boundary at or above `a`, if it is an address that `a + (pageSize - 1)`
reaches -/
def alignUp? (a : Address) : Option Address :=
  if h : a.val + (pageSize - 1) < 0x10000000000000000 then
    some ⟨(a.val + (pageSize - 1)) / pageSize * pageSize, by
      have := Nat.div_mul_le_self (a.val + (pageSize - 1)) pageSize
      omega⟩
  else none

/-- the address `n` bytes further on, if there is one -/
def add? (a : Address) (n : Nat) : Option Address :=
  if h : a.val + n < 0x10000000000000000 then some ⟨a.val + n, h⟩ else none

theorem val_ofUInt32 (v : UInt32) : (ofUInt32 v).val = v.toNat := rfl

theorem toNat_toUInt64 (a : Address) : a.toUInt64.toNat = a.val := by
  unfold toUInt64
  rw [UInt64.toNat_ofNat']
  omega

theorem ofUInt64_toUInt64 (a : Address) : ofUInt64 a.toUInt64 = a := Fin.ext a.toNat_toUInt64

theorem toUInt64_ofUInt64 (v : UInt64) : (ofUInt64 v).toUInt64 = v := by
  apply UInt64.toNat.inj
  show (UInt64.ofNat v.toNat).toNat = v.toNat
  rw [UInt64.ofNat_toNat]

theorem toUInt32?_eq_some_iff (a : Address) (v : UInt32) :
    a.toUInt32? = some v ↔ v.toNat = a.val := by
  have hv := v.toNat_lt
  unfold toUInt32?
  split
  · rename_i ha
    rw [Option.some.injEq, ← UInt32.toNat_inj, UInt32.toNat_ofNat', Nat.mod_eq_of_lt ha]
    exact eq_comm
  · constructor
    · intro h
      cases h
    · omega

theorem add?_eq_some_iff (a b : Address) (n : Nat) :
    a.add? n = some b ↔ b.val = a.val + n := by
  unfold add?
  split
  · rw [Option.some.injEq, Fin.ext_iff]
    exact eq_comm
  · constructor
    · intro h
      cases h
    · omega

/-! ## rounding to pages -/

theorem alignDown_le (a : Address) : a.alignDown.val ≤ a.val := Nat.div_mul_le_self ..

theorem dvd_alignDown (a : Address) : pageSize ∣ a.alignDown.val := Nat.dvd_mul_left ..

theorem lt_alignDown_add (a : Address) : a.val < a.alignDown.val + pageSize := by
  show a.val < a.val / 4096 * 4096 + 4096
  omega

/-- rounding up gives the least page boundary that is not below `a` -/
theorem alignUp?_eq_some_iff (a b : Address) :
    a.alignUp? = some b ↔ pageSize ∣ b.val ∧ a.val ≤ b.val ∧ b.val < a.val + pageSize
      ∧ a.val + (pageSize - 1) < 0x10000000000000000 := by
  unfold alignUp? pageSize
  split
  · rw [Option.some.injEq, Fin.ext_iff]
    dsimp only
    omega
  · simp only [reduceCtorEq, false_iff]
    omega

theorem alignUp?_of_dvd {a : Address} (h : pageSize ∣ a.val) : a.alignUp? = some a := by
  have ha := a.isLt
  unfold pageSize at h
  rw [alignUp?_eq_some_iff]
  unfold pageSize
  omega

theorem exists_alignUp?_le {a p : Address} (hdvd : pageSize ∣ p.val) (hle : a.val ≤ p.val) :
    ∃ b, a.alignUp? = some b ∧ a.val ≤ b.val ∧ b.val ≤ p.val := by
  have hp := p.isLt
  unfold pageSize at hdvd
  have hfits : a.val + (pageSize - 1) < 0x10000000000000000 := by
    unfold pageSize
    omega
  obtain ⟨b, hup⟩ : ∃ b, a.alignUp? = some b := ⟨_, dif_pos hfits⟩
  obtain ⟨hb, hab, hlt, -⟩ := (alignUp?_eq_some_iff ..).mp hup
  refine ⟨b, hup, hab, ?_⟩
  unfold pageSize at hb hlt
  omega

end Address

end ChainBoot
