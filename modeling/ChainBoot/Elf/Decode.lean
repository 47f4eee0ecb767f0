import ChainBoot.Bytes
import ChainBoot.Elf

/-!
# Reading a kernel image

`Header.parse` reads the file header and the program header table of a little-endian image.
The checks come first: magic, class, encoding, the length of the file header, the number and
the size of the program headers, and that the whole table lies inside the image.
-/

namespace ChainBoot.Elf

/-- the first four bytes of every image -/
def magic : Bytes := [0x7F, 0x45, 0x4C, 0x46]

/-- bytes in front of the class-dependent part of the file header -/
def identSize : Nat := 16

/-- the data encoding with the lowest byte first -/
def littleEndian : UInt8 := 1

/-- what the file header says about the entry point and the program header table -/
structure Table where
  entry : UInt64
  offset : Nat
  entrySize : Nat
  count : Nat
deriving DecidableEq, Repr

def Table.read? : Class → Bytes → Option Table
  | .elf32, bs => do
    let entry ← bs.u32At? 24
    let offset ← bs.u32At? 28
    let entrySize ← bs.u16At? 42
    let count ← bs.u16At? 44
    return ⟨entry.toUInt64, offset.toNat, entrySize.toNat, count.toNat⟩
  | .elf64, bs => do
    let entry ← bs.u64At? 24
    let offset ← bs.u64At? 32
    let entrySize ← bs.u16At? 54
    let count ← bs.u16At? 56
    return ⟨entry, offset.toNat, entrySize.toNat, count.toNat⟩

/-- the program header at the front of the bytes -/
def Segment.read? : Class → Bytes → Option Segment
  | .elf32, bs => do
    let kind ← bs.u32At? 0
    let paddr ← bs.u32At? 12
    let memsz ← bs.u32At? 20
    let flags ← bs.u32At? 24
    return ⟨kind, .ofUInt32 paddr, memsz.toUInt64, ⟨flags⟩⟩
  | .elf64, bs => do
    let kind ← bs.u32At? 0
    let flags ← bs.u32At? 4
    let paddr ← bs.u64At? 24
    let memsz ← bs.u64At? 40
    return ⟨kind, .ofUInt64 paddr, memsz, ⟨flags⟩⟩

/-- `n` program headers, one behind the other -/
def segments? (c : Class) : (n : Nat) → Bytes → Option (List Segment)
  | 0, _ => some []
  | n + 1, bs => do
    let s ← Segment.read? c bs
    let rest ← segments? c n (bs.drop c.entrySize)
    return s :: rest

def Header.parse (bs : Bytes) : Except Error Header :=
  if bs.length < identSize then .error .tooShort
  else if bs.take 4 ≠ magic then .error .badMagic
  else match Class.ofIdent? (bs.getD 4 0) with
    | none => .error (.unsupportedClass (bs.getD 4 0))
    | some c =>
      if bs.getD 5 0 ≠ littleEndian then .error (.unsupportedEncoding (bs.getD 5 0))
      else if bs.length < c.headerSize then .error .tooShort
      else match Table.read? c bs with
        | none => .error .outOfBounds
        | some t =>
          if maxSegments < t.count then .error (.tooManySegments t.count)
          else if 0 < t.count ∧ t.entrySize ≠ c.entrySize then
            .error (.badEntrySize c.entrySize t.entrySize)
          else if bs.length < t.offset + t.count * t.entrySize then .error .outOfBounds
          else match segments? c t.count (bs.drop t.offset) with
            | none => .error .outOfBounds
            | some ss => .ok ⟨c, t.entry, ss⟩

end ChainBoot.Elf
