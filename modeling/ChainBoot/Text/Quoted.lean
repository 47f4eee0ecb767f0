import ChainBoot.Text.Plain

/-!
# Quoted text

`quote s` puts `s` between double quotes.  A quote and a backslash get a backslash in front; tab,
line feed, carriage return and the zero character have short forms; every other character that
does not show itself is written by its number.
-/

namespace ChainBoot.Text

/-- how one character is written between quotes -/
def escape (c : Char) : List Char :=
  if c = '\x00' then ['\\', '0']
  else if c = '\t' then ['\\', 't']
  else if c = '\r' then ['\\', 'r']
  else if c = '\n' then ['\\', 'n']
  else if c = '\\' ∨ c = '"' then ['\\', c]
  else if isPlain c then [c]
  else ['\\', 'u', '\x7b'] ++ Nat.toDigits 16 c.toNat ++ ['\x7d']

def quote (s : String) : String := String.ofList ('"' :: s.toList.flatMap escape ++ ['"'])

end ChainBoot.Text
