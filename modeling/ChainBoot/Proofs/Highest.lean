import ChainBoot.Proofs.EntryKind
import ChainBoot.Proofs.Search

/-!
# The highest place and the order of the map

Besides the memory map, a search reads where the descriptor lies, how long it is, and what it lists
as framebuffers and modules.  Where all this is the same, the candidate of an entry is the same,
whatever entries stand around it, and the highest place is the greatest anchor of them all.

* `AtMost`                     places in order, with none at the bottom;
* `Alike`                      all but the memory maps is the same;
* `findRegion_highest_le`      the highest place does not rise where available entries are left out;
* `findRegion_highest_order`   nor does it depend on their order, or rise with another kind.
-/

namespace ChainBoot

/-- no place is below every place -/
def AtMost : (a b : Option Address) → Prop
  | none, _ => True
  | some _, none => False
  | some a, some b => a ≤ b

theorem AtMost.antisymm {a b : Option Address} (hab : AtMost a b) (hba : AtMost b a) : a = b := by
  cases a with
  | none =>
    cases b with
    | none => rfl
    | some b => exact hba.elim
  | some a =>
    cases b with
    | none => exact hab.elim
    | some b => exact congrArg some (Fin.le_antisymm hab hba)

namespace Located

/-- what a search reads besides the memory maps is the same -/
structure Alike (l l' : Located) : Prop where
  address : l.address = l'.address
  size : l.descriptor.size = l'.descriptor.size
  framebuffers : l.descriptor.framebuffers = l'.descriptor.framebuffers
  modules : l.descriptor.modules.map Prod.snd = l'.descriptor.modules.map Prod.snd

variable {l l' : Located} {image : Range} {needed : Nat} {ceiling : Address}

theorem Alike.symm (h : l.Alike l') : l'.Alike l :=
  ⟨h.address.symm, h.size.symm, h.framebuffers.symm, h.modules.symm⟩

theorem Alike.reservedRanges (h : l.Alike l') (image : Range) :
    l.reservedRanges image = l'.reservedRanges image := by
  have hextent : l.extent = l'.extent := by
    unfold extent
    rw [h.address, h.size]
  have hmodules : ∀ ms : List (Nat × BootModule),
      ms.map (fun m => m.2.range) = (ms.map Prod.snd).map BootModule.range := by
    intro ms
    rw [List.map_map]
    rfl
  rw [reservedRanges_eq, reservedRanges_eq, hextent, h.framebuffers, hmodules, hmodules, h.modules]

/-! ## fewer entries -/

/-- a list has no lower a greatest address than any part of it -/
theorem greatest?_le {as bs : List Address} (h : as ⊆ bs) : AtMost (greatest? as) (greatest? bs) := by
  cases ha : greatest? as with
  | none => trivial
  | some a =>
    have hmem := h (greatest?_spec ha).1
    obtain ⟨b, hb⟩ := exists_greatest? hmem
    rw [hb]
    exact (greatest?_spec hb).2 a hmem

section
variable (h : l.Alike l') (hsub : ∀ e ∈ l.descriptor.memoryEntries, e.isAvailable = true →
  e ∈ l'.descriptor.memoryEntries)
include h hsub

theorem candidates_subset : l.candidates image needed ceiling ⊆ l'.candidates image needed ceiling := by
  intro r hr
  obtain ⟨e, hmem, havail, hcand⟩ := mem_candidates_iff.mp hr
  rw [h.reservedRanges] at hcand
  exact mem_candidates_iff.mpr ⟨e, hsub e hmem havail, havail, hcand⟩

theorem findRegion_highest_le : AtMost (l.findRegion image needed .highest ceiling)
    (l'.findRegion image needed .highest ceiling) :=
  greatest?_le (List.map_subset _ (candidates_subset h hsub))

end

/-! ## other orders and other kinds -/

theorem findRegion_highest_of_perm (h : l.Alike l')
    (hperm : l.descriptor.memoryEntries.Perm l'.descriptor.memoryEntries) :
    l.findRegion image needed .highest ceiling = l'.findRegion image needed .highest ceiling :=
  AtMost.antisymm (findRegion_highest_le h fun _ he _ => hperm.mem_iff.mp he)
    (findRegion_highest_le h.symm fun _ he _ => hperm.mem_iff.mpr he)

theorem findRegion_highest_of_kind {before after : List MemoryEntry} {e : MemoryEntry}
    {kind : MemoryKind} (h : l.Alike l') (hmap : l.descriptor.memoryEntries = before ++ e :: after)
    (hkind : kind ≠ .available)
    (hmap' : l'.descriptor.memoryEntries = before ++ { e with kind := kind } :: after) :
    AtMost (l'.findRegion image needed .highest ceiling) (l.findRegion image needed .highest ceiling) := by
  apply findRegion_highest_le h.symm
  intro a ha havail
  rw [hmap'] at ha
  rw [hmap]
  rcases List.mem_append.mp ha with hfront | hback
  · exact List.mem_append_left _ hfront
  · rcases List.mem_cons.mp hback with rfl | hback
    · exact absurd (eq_of_beq havail) hkind
    · exact List.mem_append_right _ (List.mem_cons_of_mem _ hback)

/-- other bytes from `o` on -/
def overwrite (l : Located) (o : Nat) (new : Bytes) : Located := ⟨l.address, l.descriptor.overwrite o new⟩

/-- **The highest place does not depend on the order of the map, and does not rise when an entry is
given another kind.**  The number of any kind can be written over that of an entry, and that is
such a change. -/
theorem findRegion_highest_order (l : Located) (image : Range) (needed : Nat) (ceiling : Address) :
    (∀ l' : Located, l.Alike l' →
      l.descriptor.memoryEntries.Perm l'.descriptor.memoryEntries →
      l.findRegion image needed .highest ceiling = l'.findRegion image needed .highest ceiling)
    ∧ ∀ before e after, l.descriptor.memoryEntries = before ++ e :: after →
      (∀ (kind : MemoryKind) (l' : Located), kind ≠ .available → l.Alike l' →
        l'.descriptor.memoryEntries = before ++ { e with kind := kind } :: after →
        AtMost (l'.findRegion image needed .highest ceiling)
          (l.findRegion image needed .highest ceiling))
      ∧ ∀ raw : UInt32, raw ≠ 1 → ∃ o, l.Alike (l.overwrite o (Bytes.le32 raw))
        ∧ (l.overwrite o (Bytes.le32 raw)).descriptor.memoryEntries
            = before ++ { e with kind := .ofRaw raw } :: after
        ∧ (Descriptor.parse l.descriptor.bytes = .ok l.descriptor →
          Descriptor.parse (l.overwrite o (Bytes.le32 raw)).descriptor.bytes
            = .ok (l.overwrite o (Bytes.le32 raw)).descriptor)
        ∧ AtMost ((l.overwrite o (Bytes.le32 raw)).findRegion image needed .highest ceiling)
            (l.findRegion image needed .highest ceiling) := by
  refine ⟨fun l' h hperm => findRegion_highest_of_perm h hperm, fun before e after hmap => ⟨?_, ?_⟩⟩
  · intro kind l' hkind h hmap'
    exact findRegion_highest_of_kind h hmap hkind hmap'
  · intro raw hraw
    obtain ⟨o, hlo, hhi, hentries, hframebuffers, hmodules⟩ :=
      Descriptor.exists_overwrite_kind hmap raw
    have halike : l.Alike (l.overwrite o (Bytes.le32 raw)) :=
      ⟨rfl, (Descriptor.size_overwrite hhi).symm, hframebuffers.symm,
        congrArg (List.map Prod.snd) hmodules.symm⟩
    have hkind : MemoryKind.ofRaw raw ≠ .available := fun hk =>
      hraw ((MemoryKind.ofRaw_eq_available_iff raw).mp hk)
    exact ⟨o, halike, hentries, fun hd => Descriptor.parse_overwrite hd hlo hhi,
      findRegion_highest_of_kind halike hmap hkind hentries⟩

/-- two memory maps of one entry each, the second entry of a given kind -/
def twoMaps (a b kind : UInt32) : Located where
  address := .ofUInt32 0x4000
  descriptor := ⟨List.flatMap Bytes.le32 [96, 0, 6, 40, 24, 0, a, 0, 0x10000, 0, 1, 0,
    6, 40, 24, 0, b, 0, 0x10000, 0, kind, 0, 0, 8]⟩

/-- the maps in the other order, and the second entry reserved -/
theorem twoMaps_highest :
    (twoMaps 0x100000 0x200000 1).findRegion (.span 0 0) 0x1000 .highest 0x1000000
      = (twoMaps 0x200000 0x100000 1).findRegion (.span 0 0) 0x1000 .highest 0x1000000
    ∧ AtMost ((twoMaps 0x100000 0x200000 2).findRegion (.span 0 0) 0x1000 .highest 0x1000000)
        ((twoMaps 0x100000 0x200000 1).findRegion (.span 0 0) 0x1000 .highest 0x1000000)
    ∧ ∃ o, AtMost (((twoMaps 0x100000 0x200000 1).overwrite o (Bytes.le32 2)).findRegion
          (.span 0 0) 0x1000 .highest 0x1000000)
        ((twoMaps 0x100000 0x200000 1).findRegion (.span 0 0) 0x1000 .highest 0x1000000) := by
  obtain ⟨horder, hkinds⟩ :=
    findRegion_highest_order (twoMaps 0x100000 0x200000 1) (.span 0 0) 0x1000 0x1000000
  have hmap : (twoMaps 0x100000 0x200000 1).descriptor.memoryEntries
      = [⟨.ofUInt32 0x100000, 0x10000, .available⟩]
        ++ ⟨.ofUInt32 0x200000, 0x10000, .available⟩ :: [] := by decide +kernel
  obtain ⟨hkind, hraw⟩ := hkinds _ _ _ hmap
  refine ⟨horder _ ⟨rfl, rfl, by decide +kernel, by decide +kernel⟩ (by decide +kernel),
    hkind .reserved _ (by decide) ⟨rfl, rfl, by decide +kernel, by decide +kernel⟩ (by decide +kernel), ?_⟩
  obtain ⟨o, -, -, -, hle⟩ := hraw 2 (by decide)
  exact ⟨o, hle⟩

end Located

end ChainBoot
