import ChainBoot.Descriptor.Content

/-!
# Reserved memory

What has to survive until the kernel is entered: the loader's own image, the descriptor where it
lies now, every framebuffer, and every module that the descriptor lists.
-/

namespace ChainBoot

/-- a descriptor and the address it was read from -/
structure Located where
  address : Address
  descriptor : Descriptor
deriving DecidableEq

/-- the memory that the descriptor takes -/
def Located.extent (l : Located) : Range := .span l.address l.descriptor.size

inductive ReservedKind where
  | image
  | descriptor
  | framebuffer
  | module
deriving DecidableEq, Repr

structure Reserved where
  kind : ReservedKind
  range : Range
deriving DecidableEq

namespace Located

/-- image, descriptor, framebuffers, modules, in this order -/
def reserved (l : Located) (image : Range) : List Reserved :=
  [⟨.image, image⟩, ⟨.descriptor, l.extent⟩]
    ++ l.descriptor.framebuffers.map (fun f => ⟨.framebuffer, f.extent⟩)
    ++ l.descriptor.modules.map fun m => ⟨.module, m.2.range⟩

/-- the reserved ranges without their kinds -/
def reservedRanges (l : Located) (image : Range) : List Range :=
  (l.reserved image).map Reserved.range

end Located

end ChainBoot
