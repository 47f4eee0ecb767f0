import ChainBoot.Address

/-!
# Sizes on a command line

A size is a decimal number, or a hexadecimal one behind `0x` or `0X`, with at most one of the
letters `K`, `M`, `G` at the end, in either case, for the factors `2 ^ 10`, `2 ^ 20`, `2 ^ 30`.
One plus sign may stand in front of the digits.  A size that is no address is refused.
-/

namespace ChainBoot.Size

/-- the value of a digit in a base up to sixteen -/
def digit? (base : Nat) (c : Char) : Option Nat :=
  let v :=
    if '0' ≤ c ∧ c ≤ '9' then c.toNat - '0'.toNat
    else if 'a' ≤ c ∧ c ≤ 'f' then c.toNat - 'a'.toNat + 10
    else if 'A' ≤ c ∧ c ≤ 'F' then c.toNat - 'A'.toNat + 10
    else base
  if v < base then some v else none

/-- the number that digits write, most significant first, behind those that make `n` -/
def digitsFrom? (base : Nat) : (n : Nat) → List Char → Option Nat
  | n, [] => some n
  | n, c :: cs =>
    match digit? base c with
    | none => none
    | some d => digitsFrom? base (n * base + d) cs

/-- at least one digit -/
def digits? (base : Nat) : List Char → Option Nat
  | [] => none
  | c :: cs => digitsFrom? base 0 (c :: cs)

/-- digits, possibly behind a plus sign -/
def signed? (base : Nat) : List Char → Option Nat
  | '+' :: cs => digits? base cs
  | cs => digits? base cs

/-- a number in the base that its first characters call for -/
def number? : List Char → Option Nat
  | '0' :: 'x' :: cs => signed? 16 cs
  | '0' :: 'X' :: cs => signed? 16 cs
  | cs => signed? 10 cs

/-- the factor that a letter stands for -/
def factor? (c : Char) : Option Nat :=
  if c = 'K' ∨ c = 'k' then some 0x400
  else if c = 'M' ∨ c = 'm' then some 0x100000
  else if c = 'G' ∨ c = 'g' then some 0x40000000
  else none

/-- the characters without a final letter for a factor, and the factor -/
def unscaled (cs : List Char) : List Char × Nat :=
  match cs.getLast?.bind factor? with
  | some f => (cs.dropLast, f)
  | none => (cs, 1)

def parse? (cs : List Char) : Option Address :=
  match number? (unscaled cs).1 with
  | none => none
  | some n =>
    if h : n * (unscaled cs).2 < 0x10000000000000000 then some ⟨n * (unscaled cs).2, h⟩ else none

end ChainBoot.Size
