import ChainBoot.Elf.Decode

/-!
# Writing a kernel image

`Header.encode?` lays out a file header and a program header table, with no section headers and
no segment contents.  Every number is narrowed on its way into its field, and the image is given up
with the first one that does not fit:

* `narrow?`            a number in a field of so many bytes;
* `Class.word?`        an address or a size, in the width of the class;
* `Segment.encode?`    one program header;
* `fileHeader?`        the file header.
-/

namespace ChainBoot.Elf

/-- page alignment, the value of the alignment field -/
def segmentAlign : Nat := 0x1000

/-- width of an address in bytes -/
def Class.wordSize : Class → Nat
  | .elf32 => 4
  | .elf64 => 8

/-! ## fields -/

/-- a number in a field of `w` bytes, if it fits -/
def narrow? (w n : Nat) : Option Bytes := if n < Nat.pow 256 w then some (Bytes.le w n) else none

/-- an address or a size in the width of the class, which may be too narrow for it -/
def Class.word? : Class → UInt64 → Option Bytes
  | .elf32, v => narrow? 4 v.toNat
  | .elf64, v => some (Bytes.le64 v)

/-! ## records -/

/-- the program header of a segment around its place and its size; file offset and file size are
zero, and the virtual address is the physical one -/
def Segment.layout (c : Class) (s : Segment) (paddr memsz : Bytes) : Bytes :=
  let place := Bytes.zeros c.wordSize ++ paddr ++ paddr ++ Bytes.zeros c.wordSize ++ memsz
  let align := Bytes.le c.wordSize segmentAlign
  match c with
  | .elf32 => Bytes.le32 s.kind ++ place ++ Bytes.le32 s.flags.bits ++ align
  | .elf64 => Bytes.le32 s.kind ++ Bytes.le32 s.flags.bits ++ place ++ align

def Segment.encode? (c : Class) (s : Segment) : Option Bytes := do
  let paddr ← c.word? s.paddr.toUInt64
  let memsz ← c.word? s.memsz
  return s.layout c paddr memsz

/-- program headers one behind the other -/
def table? (c : Class) : List Segment → Option Bytes
  | [] => some []
  | s :: ss => do
    let front ← s.encode? c
    let rest ← table? c ss
    return front ++ rest

/-- the file header of an executable around its fields -/
def fileHeader (c : Class) (entry offset headerSize entrySize count : Bytes) : Bytes :=
  magic ++ [c.ident, littleEndian, 1] ++ Bytes.zeros 9 ++ Bytes.le 2 2 ++ Bytes.zeros 6
    ++ entry ++ offset ++ Bytes.zeros c.wordSize ++ Bytes.zeros 4
    ++ headerSize ++ entrySize ++ count ++ Bytes.zeros 6

/-- a file header with `count` program headers right behind it -/
def fileHeader? (c : Class) (entry : UInt64) (count : Nat) : Option Bytes := do
  let count ← narrow? 2 count
  let entrySize ← narrow? 2 c.entrySize
  let headerSize ← narrow? 2 c.headerSize
  let entry ← c.word? entry
  let offset ← c.word? (UInt64.ofNat c.headerSize)
  return fileHeader c entry offset headerSize entrySize count

def Header.encode? (h : Header) : Option Bytes := do
  let front ← fileHeader? h.cls h.entry h.segments.length
  let rest ← table? h.cls h.segments
  return front ++ rest

end ChainBoot.Elf
