import ChainBoot.Loader.Run
import ChainBoot.Options

/-!
# The entry point

`Boot.chainLoad` is entered with the word that tells the boot protocol and with the address of the
descriptor.  It takes its options from the command line in the descriptor and runs a chain loader.

* `Protocol.ofMagic`    which protocol a word stands for;
* `BootError`           why the kernel was not started, or that it came back.
-/

namespace ChainBoot

/-- the word that a loader of the older protocol leaves -/
def legacyMagic : UInt32 := 0x2BADB002

inductive BootError where
  | unknownProtocol (magic : UInt32)
  | legacyProtocol
  | load (e : LoadError)
deriving DecidableEq

namespace BootError

def message : BootError → String
  | .unknownProtocol magic =>
    s!"not loaded by a Multiboot-compliant loader (magic {Text.hexWide 8 magic.toNat})"
  | .legacyProtocol =>
    "loaded through Multiboot 1; only Multiboot2 descriptors can be chain-loaded"
  | .load e => e.message

/-- the value that goes back to the boot stub; no failure is harmless -/
def exitCode : BootError → Nat
  | .unknownProtocol _ => 1
  | .legacyProtocol => 1
  | .load _ => 1

end BootError

inductive Protocol where
  | multiboot2
deriving DecidableEq, Repr

def Protocol.ofMagic (magic : UInt32) : Except BootError Protocol :=
  if magic = bootMagic then .ok .multiboot2
  else if magic = legacyMagic then .error .legacyProtocol
  else .error (.unknownProtocol magic)

namespace Boot

/-- what the entry point is called with -/
structure Call where
  magic : UInt32
  descriptor : Address
  memory : Memory
  /-- the loader's own image -/
  image : Range
  /-- the threshold for log records so far -/
  threshold : Threshold

/-- what it leaves -/
structure Report where
  error : BootError
  /-- the hand-offs at which a kernel was started -/
  started : List HandOff
  memory : Memory
  threshold : Threshold

/-- the options in the descriptor -/
def optionsOf (d : Descriptor) : Options :=
  match d.cmdline? with
  | none => .standard
  | some text => .ofCmdline text

/-- the loader that a call sets up -/
def Call.loader (c : Call) (o : Options) : Loader := .fresh c.memory c.image o.physMax

def chainLoad (c : Call) : Report :=
  match Protocol.ofMagic c.magic with
  | .error e => ⟨e, [], c.memory, c.threshold⟩
  | .ok .multiboot2 =>
    match Loader.descriptorAt c.memory c.descriptor with
    | .error e => ⟨.load e, [], c.memory, c.threshold⟩
    | .ok d =>
      let o := optionsOf d
      let b := (c.loader o).boot c.descriptor
      ⟨.load b.error, b.started, b.loader.memory, o.threshold⟩

end Boot

end ChainBoot
