import ChainBoot.Descriptor.Text
import ChainBoot.Elf.Notes
import ChainBoot.Loader.Run
import ChainBoot.Placement.Notes
import ChainBoot.Search.Notes

/-!
# Records of a run

Every phase announces itself and then reports what it does.  `Loader.phaseNotes` gives the records
of one phase from the loader that enters it, `Loader.runNotes` those of all phases of a run.
-/

namespace ChainBoot

def HandOff.text (h : HandOff) : String :=
  Text.fields "HandOff" [("descriptor", h.descriptor.tagged), ("kernel", h.kernel.tagged),
    ("magic", toString h.magic.toNat), ("jump_code", h.jumpCode.tagged)]

def Phase.text : Phase → String
  | .collecting => "Collecting"
  | .validatingPlacement => "ValidatingPlacement"
  | .relocatingDescriptor => "RelocatingDescriptor"
  | .relocatingModules => "RelocatingModules"
  | .finalizing => "Finalizing"
  | .handOff h => Text.wrapped "HandOff" h.text

namespace Loader

/-! ## collecting -/

/-- the records of listing modules, of which `n` are listed already -/
def listingNotes : (n : Nat) → Feed (Nat × BootModule) → List Record
  | _, [] => []
  | n, .note r :: rest => r :: listingNotes n rest
  | n, .item m :: rest =>
    if n < ModuleTable.capacity then
      Component.loader.debug s!"module {n}: {m.2.range.text} {Text.quote m.2.label}"
        :: listingNotes (n + 1) rest
    else []

/-- the records of taking out the command line at `offset`, found by a walk -/
def droppedNotes (d : Descriptor) (offset : Nat) : List Record :=
  d.tagFeed.notesBefore (fun t => t.offset == offset)
    ++ [Component.loader.debug s!"invalidated boot command line at {Text.hex offset}"]

def collectNotes (l : Loader) : List Record :=
  match descriptorAt l.memory l.descriptor with
  | .error _ => []
  | .ok d =>
    match d.dropCmdlines with
    | .error _ => []
    | .ok dropped =>
      let count := dropped.descriptor.modules.length
      dropped.offsets.flatMap (droppedNotes d) ++ dropped.descriptor.walkNotes
        ++ listingNotes 0 dropped.descriptor.moduleFeed
        ++ if 0 < count ∧ count ≤ ModuleTable.capacity then
            [Component.loader.info
              s!"collected {count} module(s) from descriptor at {l.descriptor.text}"]
          else []

/-! ## validating the placement -/

/-- the records of reading the kernel's program headers -/
def kernelNotes (l : Loader) : List Record :=
  match l.kernelImage with
  | .error _ => []
  | .ok kernel => kernel.notes

def overlapNote (segment descriptor : Range) : Record :=
  Component.loader.warn
    s!"kernel segment {segment.text} overlaps the boot descriptor at {descriptor.text}"

def placementNotes (l : Loader) : List Record :=
  l.kernelNotes ++ match l.kernelImage, l.located with
    | .ok kernel, .ok d =>
      d.validateNotes l.image kernel ++ match d.validate l.image kernel with
        | .error (.descriptorOverlap segment descriptor) => [overlapNote segment descriptor]
        | _ => []
    | _, _ => []

/-! ## moving -/

/-- the records of a search for a new place -/
def searchNotes (l : Loader) (needed : Nat) : List Record :=
  match l.located with
  | .error _ => []
  | .ok d => d.searchNotes l.image needed .highest l.ceiling

def descriptorMoveNotes (l : Loader) : List Record :=
  if maxDescriptorMoves ≤ l.descriptorMoves then []
  else match l.located with
    | .error _ => []
    | .ok d =>
      l.searchNotes d.extent.size ++ match l.planDescriptorMove, l.moveDescriptor with
        | .ok move, (_, .next _) =>
          [Component.loader.info
            s!"relocated boot descriptor {move.source.text} -> {move.target.text}"]
        | _, _ => []

/-- the size of the module that is in the way, if it may still be moved -/
def conflictSize? (l : Loader) : Option Nat :=
  match l.kernelImage with
  | .error _ => none
  | .ok kernel =>
    if maxModuleMoves ≤ l.moduleMoves then none
    else ((l.modules.conflict? kernel.segments).bind l.modules.get?).map ModuleRecord.size

def moduleMoveNotes (l : Loader) : List Record :=
  let searched := match l.conflictSize? with
    | none => []
    | some n => l.searchNotes n
  l.kernelNotes ++ searched ++ match l.planModuleMove, l.moveModule with
    | .ok (some move), (_, .next _) =>
      [Component.loader.info
        s!"relocated module {move.handle} {move.source.text} -> {move.target.text}"]
    | _, _ => []

/-! ## finalizing -/

def finalNotes (l : Loader) : List Record :=
  match l.modules.kernel? with
  | none => []
  | some _ =>
    l.searchNotes jumpCodeSize ++ match l.planJumpCode, l.finalize with
      | .ok a, (_, .next _) => [Component.loader.debug s!"jump code at {a.text}"]
      | _, _ => []

/-! ## whole runs -/

def phaseNotes (l : Loader) (p : Phase) : List Record :=
  Component.loader.trace p.text :: match p with
    | .collecting => l.collectNotes
    | .validatingPlacement => l.placementNotes
    | .relocatingDescriptor => l.descriptorMoveNotes
    | .relocatingModules => l.moduleMoveNotes
    | .finalizing => l.finalNotes
    | .handOff _ => []

def runNotes (l : Loader) (p : Phase) : List Record :=
  (l.visits p).flatMap fun (p, l) => l.phaseNotes p

def prepareNotes (l : Loader) (a : Address) : List Record := (l.aim a).runNotes .collecting

def startNote (h : HandOff) : Record :=
  Component.loader.info (s!"loading kernel from {h.kernel.text} "
    ++ s!"(descriptor {h.descriptor.text}, jump code {h.jumpCode.text})")

def bootNotes (l : Loader) (a : Address) : List Record :=
  l.prepareNotes a ++ (l.boot a).started.map startNote

end Loader

end ChainBoot
