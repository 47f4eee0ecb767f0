import ChainBoot.Bytes
import ChainBoot.Range

/-!
# Memory maps

A memory map lists the ranges that the firmware reports, with their kind.  Its entries lie
`entrySize` bytes apart, at least `MemoryEntry.wireSize`; the last one may be cut down to that.

* `MemoryKind.ofRaw`, `MemoryKind.raw`   the numbers of the kinds;
* `MemoryEntry.read?`                    one entry from the front of the bytes;
* `MemoryMap.read?`, `MemoryMap.entries` a whole map.
-/

namespace ChainBoot

inductive MemoryKind where
  | available
  | reserved
  | acpiReclaimable
  | acpiNvs
  | defective
  | unknown (raw : UInt32)
deriving DecidableEq, Repr

namespace MemoryKind

def ofRaw (raw : UInt32) : MemoryKind :=
  if raw = 1 then .available
  else if raw = 2 then .reserved
  else if raw = 3 then .acpiReclaimable
  else if raw = 4 then .acpiNvs
  else if raw = 5 then .defective
  else .unknown raw

def raw : MemoryKind → UInt32
  | .available => 1
  | .reserved => 2
  | .acpiReclaimable => 3
  | .acpiNvs => 4
  | .defective => 5
  | .unknown raw => raw

def name : MemoryKind → String
  | .available => "Available"
  | .reserved => "Reserved"
  | .acpiReclaimable => "AcpiReclaimable"
  | .acpiNvs => "AcpiNvs"
  | .defective => "Defective"
  | .unknown raw => s!"Unknown({raw.toNat})"

theorem raw_ofRaw (r : UInt32) : (ofRaw r).raw = r := by
  unfold ofRaw
  repeat' split
  all_goals first | rfl | (rename_i h; exact h.symm)

end MemoryKind

structure MemoryEntry where
  base : Address
  length : UInt64
  kind : MemoryKind
deriving DecidableEq, Repr

namespace MemoryEntry

/-- base, length, kind and four unused bytes -/
def wireSize : Nat := 24

def range (e : MemoryEntry) : Range := .span e.base e.length.toNat

/-- only such memory may be written -/
def isAvailable (e : MemoryEntry) : Bool := e.kind == .available

/-- the entry at the front of the bytes -/
def read? (bs : Bytes) : Option MemoryEntry := do
  let w ← bs.window? 0 wireSize
  let base ← w.u64At? 0
  let length ← w.u64At? 8
  let kind ← w.u32At? 16
  return ⟨.ofUInt64 base, length, .ofRaw kind⟩

theorem wireSize_le_of_read? {bs : Bytes} {e : MemoryEntry} (h : read? bs = some e) :
    wireSize ≤ bs.length := by
  unfold read? at h
  obtain ⟨w, hw, -⟩ := Option.bind_eq_some_iff.mp h
  obtain ⟨hle, -⟩ := (Bytes.window?_eq_some_iff ..).mp hw
  omega

/-- the entry in its own bytes, the unused ones left out -/
def encode (e : MemoryEntry) : Bytes :=
  Bytes.le64 e.base.toUInt64 ++ Bytes.le64 e.length ++ Bytes.le32 e.kind.raw

end MemoryEntry

structure MemoryMap where
  entrySize : UInt32
  version : UInt32
  /-- the bytes behind the two header fields -/
  body : Bytes
  wide : MemoryEntry.wireSize ≤ entrySize.toNat
deriving DecidableEq

namespace MemoryMap

/-- the entries that start every `stride` bytes -/
def entriesIn (stride : Nat) (pos : 0 < stride) (body : Bytes) : List MemoryEntry :=
  match _h : MemoryEntry.read? body with
  | none => []
  | some e => e :: entriesIn stride pos (body.drop stride)
termination_by body.length
decreasing_by
  have h24 := MemoryEntry.wireSize_le_of_read? _h
  rw [MemoryEntry.wireSize] at h24
  rw [List.length_drop]
  omega

def entries (m : MemoryMap) : List MemoryEntry :=
  entriesIn m.entrySize.toNat (Nat.lt_of_lt_of_le (by decide) m.wide) m.body

end MemoryMap

end ChainBoot
