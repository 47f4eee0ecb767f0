/-!
# Hexadecimal text

* `hex n`            the digits of `n` in lower case behind `0x`, no leading zeros;
* `hexWide w n`      the same with at least `w` digits;
* `hexWideUpper w n` the same in upper case, the mark still `0x`.
-/

namespace ChainBoot.Text

/-- `cs` with zeros in front, up to `w` characters -/
def zeroPad (w : Nat) (cs : List Char) : List Char := List.replicate (w - cs.length) '0' ++ cs

def hex (n : Nat) : String := "0x" ++ String.ofList (Nat.toDigits 16 n)

def hexWide (w n : Nat) : String := "0x" ++ String.ofList (zeroPad w (Nat.toDigits 16 n))

def hexWideUpper (w n : Nat) : String :=
  "0x" ++ String.ofList ((zeroPad w (Nat.toDigits 16 n)).map Char.toUpper)

end ChainBoot.Text
