import ChainBoot.Range
import ChainBoot.Text.Place

/-!
# Kernel images

What the loader has to know of an ELF image: its class, its entry point, and for each program
header the physical memory the segment will take.

* `Elf.Header`            class, entry and all program headers, in order;
* `Elf.Segment.loadable`  the segments that take memory: kind `1` and not empty;
* `Elf.Segment.range`     the memory a segment takes;
* `Elf.Error`             why bytes are not such an image.

`Elf.Flags` stands for a word with named bits whose accessors come from outside of the loader.  What
is assumed of them: the bits 0, 1 and 2 are those for execution, writing and reading; one is read as
it stands in the word; granting or taking away one of them leaves all other bits as they are, those
without a name included; and the word goes into an image and comes out of it with all 32 bits.
-/

namespace ChainBoot.Elf

inductive Class where
  | elf32
  | elf64
deriving DecidableEq, Repr

/-- size of the file header -/
def Class.headerSize : Class → Nat
  | .elf32 => 52
  | .elf64 => 64

/-- size of one program header -/
def Class.entrySize : Class → Nat
  | .elf32 => 32
  | .elf64 => 56

/-- the number of a class in byte 4 of the file -/
def Class.ident : Class → UInt8
  | .elf32 => 1
  | .elf64 => 2

def Class.ofIdent? : UInt8 → Option Class
  | 1 => some .elf32
  | 2 => some .elf64
  | _ => none

theorem Class.ofIdent?_ident (c : Class) : Class.ofIdent? c.ident = some c := by cases c <;> rfl

/-! ## access flags -/

/-- the flag word of a program header; only the lowest three bits have a name -/
structure Flags where
  bits : UInt32
deriving DecidableEq, Repr

inductive Access where
  | execute
  | write
  | read
deriving DecidableEq, Repr

def Access.mask : Access → UInt32
  | .execute => 1
  | .write => 2
  | .read => 4

namespace Flags

def allows (f : Flags) (a : Access) : Bool := f.bits &&& a.mask != 0

/-- the flags with one access granted or taken away, all other bits kept -/
def set (f : Flags) (a : Access) (on : Bool) : Flags :=
  ⟨if on then f.bits ||| a.mask else f.bits &&& ~~~ a.mask⟩

/-- three letters, a dash for an access that is not granted -/
def letters (f : Flags) : String :=
  String.ofList [if f.allows .read then 'R' else '-', if f.allows .write then 'W' else '-',
    if f.allows .execute then 'X' else '-']

end Flags

/-! ## segments -/

structure Segment where
  kind : UInt32
  paddr : Address
  memsz : UInt64
  flags : Flags
deriving DecidableEq, Repr

/-- the kind of a segment that is loaded -/
def loadKind : UInt32 := 1

namespace Segment

def loadable (s : Segment) : Bool := s.kind == loadKind && 0 < s.memsz

def range (s : Segment) : Range := .span s.paddr s.memsz.toNat

end Segment

structure Header where
  cls : Class
  entry : UInt64
  segments : List Segment
deriving DecidableEq, Repr

/-- the segments that take memory once the image is loaded -/
def Header.loadable (h : Header) : List Segment := h.segments.filter Segment.loadable

/-- more program headers than this are refused -/
def maxSegments : Nat := 64

/-! ## errors -/

inductive Error where
  | tooShort
  | badMagic
  | unsupportedClass (ident : UInt8)
  | unsupportedEncoding (ident : UInt8)
  | badEntrySize (expected found : Nat)
  | outOfBounds
  | tooManySegments (count : Nat)
deriving DecidableEq, Repr

def Error.message : Error → String
  | .tooShort => "The image is shorter than an ELF header"
  | .badMagic => "The image does not start with the ELF magic bytes"
  | .unsupportedClass c => s!"Unsupported ELF class {c.toNat}"
  | .unsupportedEncoding e =>
    s!"Unsupported ELF data encoding {e.toNat}; only little-endian images are accepted"
  | .badEntrySize expected found =>
    s!"Program header entry size {found} does not match the expected {expected}"
  | .outOfBounds => "The program header table lies outside the image"
  | .tooManySegments n =>
    s!"The image declares {n} program headers, more than can be tracked"

end ChainBoot.Elf
