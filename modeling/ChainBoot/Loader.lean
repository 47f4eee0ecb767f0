import ChainBoot.Memory
import ChainBoot.ModuleTable
import ChainBoot.Placement
import ChainBoot.Search
import ChainBoot.Elf.Decode

/-!
# The chain loader

The loader makes room for the kernel, the first boot module: it moves the descriptor and the other
modules out of the way of the kernel's segments, each to the highest free place below a ceiling
that drops to every new destination.

* `Loader`      the memory and what is known of it;
* `Phase`       where a run stands;
* `HandOff`     what the kernel is started with;
* `LoadError`   why a run failed.
-/

namespace ChainBoot

/-- the word by which a kernel knows that a descriptor was handed to it -/
def bootMagic : UInt32 := 0x36D76289

/-- what a search was for -/
inductive Purpose where
  | descriptor
  | module
  | jumpCode
deriving DecidableEq, Repr

def Purpose.name : Purpose → String
  | .descriptor => "boot descriptor"
  | .module => "boot module"
  | .jumpCode => "jump code"

inductive LoadError where
  | capacityExceeded
  | noModule
  | outOfRam (segment : Range)
  | noRegion (purpose : Purpose) (size : Nat)
  | relocationLimit (purpose : Purpose) (limit : Nat)
  /-- the kernel was to be started, and control came back -/
  | loaderReturned
  | descriptor (e : DescriptorError)
  | elf (e : Elf.Error)
  /-- no bank of memory contains the range -/
  | memory (range : Range)
deriving DecidableEq

def LoadError.message : LoadError → String
  | .capacityExceeded => s!"more than {ModuleTable.capacity} boot modules"
  | .noModule => "no boot module to load"
  | .outOfRam segment => s!"kernel segment {segment.text} is outside usable RAM"
  | .noRegion purpose size => s!"no free memory for the {purpose.name} ({Text.hex size} bytes)"
  | .relocationLimit purpose limit => s!"gave up after {limit} {purpose.name} relocations"
  | .loaderReturned => "the ELF loader returned instead of starting the kernel"
  | .descriptor e => s!"malformed boot descriptor: {e.message}"
  | .elf e => s!"malformed kernel image: {e.message}"
  | .memory r => s!"physical memory access failed: physical range {r.text} is not accessible"

/-- what the kernel is started with -/
structure HandOff where
  descriptor : Address
  /-- the start of the kernel's image -/
  kernel : Address
  magic : UInt32
  /-- a free page for the code that jumps to the kernel -/
  jumpCode : Address
deriving DecidableEq

inductive Phase where
  | collecting
  | validatingPlacement
  | relocatingDescriptor
  | relocatingModules
  | finalizing
  | handOff (h : HandOff)
deriving DecidableEq

/-- descriptor moves before a loader gives up -/
def maxDescriptorMoves : Nat := 4

/-- module moves before a loader gives up -/
def maxModuleMoves : Nat := 64

/-- bytes for the code that jumps to the kernel -/
def jumpCodeSize : Nat := 0x1000

/-- no relocation reaches this address unless the configuration says otherwise -/
def defaultPhysMax : Address := ⟨0x80000000, by omega⟩

structure Loader where
  memory : Memory
  /-- the loader's own image -/
  image : Range
  /-- destinations lie below this address -/
  ceiling : Address
  /-- where the descriptor lies now -/
  descriptor : Address
  modules : ModuleTable
  descriptorMoves : Nat
  moduleMoves : Nat
deriving DecidableEq

namespace Loader

/-- a loader that has not run yet; module fields have 32 bits, so the ceiling is at most `fourGiB` -/
def fresh (memory : Memory) (image : Range) (physMax : Address) : Loader where
  memory := memory
  image := image
  ceiling := if physMax ≤ fourGiB then physMax else fourGiB
  descriptor := .zero
  modules := .empty
  descriptorMoves := 0
  moduleMoves := 0

/-! ## reading -/

/-- the range that the descriptor at an address declares for itself -/
def declaredExtent (m : Memory) (a : Address) : Except LoadError Range :=
  match m.read (.span a Descriptor.headerSize) with
  | .error r => .error (.memory r)
  | .ok header =>
    match Descriptor.peekTotal? header with
    | none => .error (.descriptor .tooShort)
    | some total => .ok (.span a total.toNat)

/-- the descriptor in a range -/
def descriptorWithin (m : Memory) (r : Range) : Except LoadError Descriptor :=
  match m.read r with
  | .error r => .error (.memory r)
  | .ok bs => (Descriptor.parse bs).mapError .descriptor

/-- the descriptor at an address, in the range that it declares -/
def descriptorAt (m : Memory) (a : Address) : Except LoadError Descriptor :=
  match declaredExtent m a with
  | .error e => .error e
  | .ok r => descriptorWithin m r

/-- the descriptor where it lies now -/
def located (l : Loader) : Except LoadError Located :=
  (descriptorAt l.memory l.descriptor).map fun d => ⟨l.descriptor, d⟩

/-- the program headers of the kernel as they stand in memory -/
def kernelImage (l : Loader) : Except LoadError Elf.Header :=
  match l.modules.kernel? with
  | none => .error .noModule
  | some k =>
    match l.memory.read k.range with
    | .error r => .error (.memory r)
    | .ok bs => (Elf.Header.parse bs).mapError .elf

end Loader

end ChainBoot
