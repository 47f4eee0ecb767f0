import ChainBoot.Bytes
import ChainBoot.Range

/-!
# Physical memory

Memory is a list of banks, each a base address and its bytes.  An access to a range succeeds when
some bank contains the range, and goes to the first one that does.

* `Memory.read`, `Memory.write`, `Memory.copy`   the accesses; they fail with the range that no
                                                 bank contains;
* `Memory.changes`                               the bytes in which two states of a memory differ.
-/

namespace ChainBoot

structure Bank where
  base : Address
  data : Array UInt8
deriving DecidableEq

namespace Bank

def zeroed (base : Address) (size : Nat) : Bank := ⟨base, Array.replicate size 0⟩

/-- the addresses of the bank -/
def range (b : Bank) : Range := .span b.base b.data.size

/-- the bytes of a range that the bank contains -/
def read (b : Bank) (r : Range) : Bytes :=
  (b.data.extract (r.start.val - b.base.val) (r.stop.val - b.base.val)).toList

/-- the bank with other bytes from `a` on -/
def write (b : Bank) (a : Address) (new : Bytes) : Bank :=
  let off := a.val - b.base.val
  { b with data := b.data.extract 0 off ++ new.toArray
      ++ b.data.extract (off + new.length) b.data.size }

end Bank

structure Memory where
  banks : List Bank
deriving DecidableEq

namespace Memory

/-- no byte belongs to two banks -/
def Disjoint (m : Memory) : Prop :=
  m.banks.Pairwise fun b c => b.range.overlaps c.range = false

/-- the bank that an access to `r` goes to -/
def bankOf? (m : Memory) (r : Range) : Option Bank := m.banks.find? fun b => b.range.contains r

def read (m : Memory) (r : Range) : Except Range Bytes :=
  match m.bankOf? r with
  | some b => .ok (b.read r)
  | none => .error r

/-- writes into the first bank that contains `r` -/
def writeBanks (r : Range) (new : Bytes) : List Bank → Option (List Bank)
  | [] => none
  | b :: bs =>
    if b.range.contains r then some (b.write r.start new :: bs)
    else (writeBanks r new bs).map (b :: ·)

/-- `new` in place of the bytes from `a` on -/
def write (m : Memory) (a : Address) (new : Bytes) : Except Range Memory :=
  let r := Range.span a new.length
  match writeBanks r new m.banks with
  | some bs => .ok ⟨bs⟩
  | none => .error r

/-- the bytes of `src`, all read first, in place of those from `dst` on -/
def copy (m : Memory) (src : Range) (dst : Address) : Except Range Memory :=
  match m.read src with
  | .error r => .error r
  | .ok bs => m.write dst bs

/-! ## comparing two states -/

/-- the runs in which `now` differs from `before`, with their offsets; `run` holds the bytes of
the current run, last one first, and `off` is the offset of the next byte -/
def runs : (before now : List UInt8) → (off : Nat) → (run : Bytes) → List (Nat × Bytes)
  | b :: bs, n :: ns, off, run =>
    if b = n then
      match run with
      | [] => runs bs ns (off + 1) []
      | _ => (off - run.length, run.reverse) :: runs bs ns (off + 1) []
    else runs bs ns (off + 1) (n :: run)
  | _, _, off, run => match run with
    | [] => []
    | _ => [(off - run.length, run.reverse)]

/-- the maximal runs of changed bytes, bank by bank, with the address of the first one -/
def changes (before now : Memory) : List (Nat × Bytes) :=
  (before.banks.zip now.banks).flatMap fun (b, n) =>
    (runs b.data.toList n.data.toList 0 []).map fun (off, bs) => (b.base.val + off, bs)

end Memory

end ChainBoot
