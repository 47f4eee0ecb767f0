import ChainBoot.Elf.Decode
import ChainBoot.Log.Component

/-!
# Records of reading a kernel image

Each loadable segment is reported once the whole image is accepted.
-/

namespace ChainBoot.Elf

def Segment.note (s : Segment) : Record :=
  Component.kernelImage.debug s!"PT_LOAD {s.range.text} {s.flags.letters}"

def Header.notes (h : Header) : List Record := h.loadable.map Segment.note

/-- the records of parsing -/
def parseNotes (bs : Bytes) : List Record :=
  match Header.parse bs with
  | .ok h => h.notes
  | .error _ => []

end ChainBoot.Elf
