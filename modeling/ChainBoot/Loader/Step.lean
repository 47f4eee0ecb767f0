import ChainBoot.Descriptor.Cmdline
import ChainBoot.Loader

/-!
# The phases of a run

`Loader.step` carries out one phase.  It gives the loader afterwards, also where the phase fails,
and how the run goes on.

    collecting → validatingPlacement → relocatingModules → finalizing → handOff
         ↑                ↓                 ↓      ↑
         └─ relocatingDescriptor            └──────┘
-/

namespace ChainBoot

/-- how a run goes on -/
inductive Outcome where
  | next (p : Phase)
  | done (h : HandOff)
  | failed (e : LoadError)
deriving DecidableEq

namespace ModuleTable

/-- the modules of a descriptor pushed one after another; `false` where one did not fit -/
def pushAll (t : ModuleTable) : List (Nat × BootModule) → ModuleTable × Bool
  | [] => (t, true)
  | (offset, m) :: rest =>
    match t.push offset m.first m.last with
    | none => (t, false)
    | some t' => t'.pushAll rest

end ModuleTable

namespace Loader

/-! ## collecting -/

/-- takes the command lines out of the descriptor and lists its modules -/
def collect (l : Loader) : Loader × Outcome :=
  let l := { l with modules := .empty }
  match descriptorAt l.memory l.descriptor with
  | .error e => (l, .failed e)
  | .ok d =>
    match d.dropCmdlines with
    | .error e => (l, .failed (.descriptor e))
    | .ok dropped =>
      match l.memory.write l.descriptor dropped.descriptor.bytes with
      | .error r => (l, .failed (.memory r))
      | .ok memory =>
        let (modules, complete) := ModuleTable.empty.pushAll dropped.descriptor.modules
        let l := { l with memory := memory, modules := modules }
        if !complete then (l, .failed .capacityExceeded)
        else if modules.isEmpty then (l, .failed .noModule)
        else (l, .next .validatingPlacement)

/-! ## validating the placement -/

/-- where a run goes on once the kernel's segments are checked -/
def placementVerdict (l : Loader) : Except LoadError Phase :=
  match l.kernelImage with
  | .error e => .error e
  | .ok kernel =>
    match l.located with
    | .error e => .error e
    | .ok d =>
      match d.validate l.image kernel with
      | .ok () => .ok .relocatingModules
      | .error (.descriptorOverlap _ _) => .ok .relocatingDescriptor
      | .error (.outOfRam segment) => .error (.outOfRam segment)

def validatePlacement (l : Loader) : Loader × Outcome :=
  match l.placementVerdict with
  | .error e => (l, .failed e)
  | .ok p => (l, .next p)

/-! ## moving the descriptor -/

/-- where the descriptor is and where it is to go -/
structure DescriptorMove where
  source : Range
  target : Address
deriving DecidableEq

def planDescriptorMove (l : Loader) : Except LoadError DescriptorMove :=
  if maxDescriptorMoves ≤ l.descriptorMoves then
    .error (.relocationLimit .descriptor maxDescriptorMoves)
  else match l.located with
    | .error e => .error e
    | .ok d =>
      match d.findRegion l.image d.extent.size .highest l.ceiling with
      | none => .error (.noRegion .descriptor d.extent.size)
      | some target => .ok ⟨d.extent, target⟩

def moveDescriptor (l : Loader) : Loader × Outcome :=
  match l.planDescriptorMove with
  | .error e => (l, .failed e)
  | .ok move =>
    match l.memory.copy move.source move.target with
    | .error r => (l, .failed (.memory r))
    | .ok memory =>
      ({ l with memory := memory, descriptor := move.target, ceiling := move.target,
                descriptorMoves := l.descriptorMoves + 1 }, .next .collecting)

/-! ## moving a module -/

/-- which module is to go where; `first` and `last` are its new bounds -/
structure ModuleMove where
  handle : Nat
  tagOffset : Nat
  source : Range
  target : Address
  first : UInt32
  last : UInt32
deriving DecidableEq

/-- the new bounds of `n` bytes from `a` on, as module fields -/
def moduleBounds? (a : Address) (n : Nat) : Option (UInt32 × UInt32) :=
  match a.add? (n - 1) with
  | none => none
  | some b =>
    match a.toUInt32?, b.toUInt32? with
    | some first, some last => some (first, last)
    | _, _ => none

/-- the next move, if some module is in the way -/
def planModuleMove (l : Loader) : Except LoadError (Option ModuleMove) :=
  match l.kernelImage with
  | .error e => .error e
  | .ok kernel =>
    match l.modules.conflict? kernel.segments with
    | none => .ok none
    | some handle =>
      if maxModuleMoves ≤ l.moduleMoves then
        .error (.relocationLimit .module maxModuleMoves)
      else match l.modules.get? handle with
        | none => .error .noModule
        | some r =>
          match l.located with
          | .error e => .error e
          | .ok d =>
            match d.findRegion l.image r.size .highest l.ceiling with
            | none => .error (.noRegion .module r.size)
            | some target =>
              match moduleBounds? target r.size with
              | none => .error (.noRegion .module r.size)
              | some (first, last) =>
                .ok (some ⟨handle, r.tagOffset, r.range, target, first, last⟩)

/-- edits the descriptor where it lies in memory -/
def editDescriptor (m : Memory) (a : Address)
    (f : Descriptor → Except DescriptorError Descriptor) : Except LoadError Memory :=
  match descriptorAt m a with
  | .error e => .error e
  | .ok d =>
    match f d with
    | .error e => .error (.descriptor e)
    | .ok d' => (m.write a d'.bytes).mapError .memory

def moveModule (l : Loader) : Loader × Outcome :=
  match l.planModuleMove with
  | .error e => (l, .failed e)
  | .ok none => (l, .next .finalizing)
  | .ok (some move) =>
    match l.memory.copy move.source move.target with
    | .error r => (l, .failed (.memory r))
    | .ok copied =>
      let edit := fun d : Descriptor => d.setModuleRange move.tagOffset move.first move.last
      match editDescriptor copied l.descriptor edit with
      | .error e => ({ l with memory := copied }, .failed e)
      | .ok memory =>
        let modules := l.modules.update move.handle fun r =>
          { r with first := move.first, last := move.last }
        ({ l with memory := memory, modules := modules, ceiling := move.target,
                  moduleMoves := l.moduleMoves + 1 }, .next .relocatingModules)

/-! ## finalizing -/

/-- a page for the jump code, found while the kernel's module tag still reserves its image -/
def planJumpCode (l : Loader) : Except LoadError Address :=
  match l.located with
  | .error e => .error e
  | .ok d =>
    match d.findRegion l.image jumpCodeSize .highest l.ceiling with
    | none => .error (.noRegion .jumpCode jumpCodeSize)
    | some a => .ok a

/-- turns the kernel's module tag into the command line -/
def finalize (l : Loader) : Loader × Outcome :=
  match l.modules.kernel? with
  | none => (l, .failed .noModule)
  | some kernel =>
    match l.planJumpCode with
    | .error e => (l, .failed e)
    | .ok jumpCode =>
      match editDescriptor l.memory l.descriptor fun d => d.moduleToCmdline kernel.tagOffset with
      | .error e => (l, .failed e)
      | .ok memory =>
        let modules := l.modules.update 0 fun r => { r with state := .consumed }
        ({ l with memory := memory, modules := modules },
          .next (.handOff ⟨l.descriptor, .ofUInt32 kernel.first, bootMagic, jumpCode⟩))

/-! ## one phase -/

def step : Phase → Loader → Loader × Outcome
  | .collecting, l => l.collect
  | .validatingPlacement, l => l.validatePlacement
  | .relocatingDescriptor, l => l.moveDescriptor
  | .relocatingModules, l => l.moveModule
  | .finalizing, l => l.finalize
  | .handOff h, l => (l, .done h)

end Loader

end ChainBoot
