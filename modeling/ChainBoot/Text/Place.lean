import ChainBoot.Range
import ChainBoot.Text.Hex

/-!
# Addresses and ranges as text

An address is written with all its sixteen digits in upper case, a range as its first address
and its length in lower case.  The tagged forms put the kind of the value around them.
-/

namespace ChainBoot

def Address.text (a : Address) : String := Text.hexWideUpper 16 a.val

def Address.tagged (a : Address) : String := "PA(" ++ a.text ++ ")"

def Range.text (r : Range) : String := Text.hex r.start.val ++ "+" ++ Text.hex r.size

def Range.tagged (r : Range) : String := "PR(" ++ r.text ++ ")"

end ChainBoot
