import ChainBoot.Bytes
import ChainBoot.Range

/-!
# Framebuffers

A linear framebuffer takes `pitch * height` bytes from its address on.
-/

namespace ChainBoot

structure Framebuffer where
  addr : Address
  pitch : UInt32
  width : UInt32
  height : UInt32
  bpp : UInt8
  kind : UInt8
deriving DecidableEq, Repr

namespace Framebuffer

/-- bytes that the fields take -/
def wireSize : Nat := 22

/-- the memory that the picture takes -/
def extent (f : Framebuffer) : Range := .span f.addr (f.pitch.toNat * f.height.toNat)

/-- the framebuffer at the front of the bytes -/
def read? (bs : Bytes) : Option Framebuffer := do
  let w ← bs.window? 0 wireSize
  let addr ← w.u64At? 0
  let pitch ← w.u32At? 8
  let width ← w.u32At? 12
  let height ← w.u32At? 16
  let bpp ← w.u8At? 20
  let kind ← w.u8At? 21
  return ⟨.ofUInt64 addr, pitch, width, height, bpp, kind⟩

/-- the fields and two unused bytes -/
def encode (f : Framebuffer) : Bytes :=
  Bytes.le64 f.addr.toUInt64 ++ Bytes.le32 f.pitch ++ Bytes.le32 f.width ++ Bytes.le32 f.height
    ++ [f.bpp, f.kind, 0, 0]

end Framebuffer

end ChainBoot
