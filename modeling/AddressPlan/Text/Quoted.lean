import AddressPlan.Text.Unprintable

/-!
Quoted display. A text that is shown inside a message stands in double quotes, with backslashes before
quotes and backslashes, short names for the common control characters, and the code point in braces for
whatever else has no visible form.
-/

namespace AddressPlan.Text

/-- How a character is shown between quotes; `apostrophes` says whether those are escaped too. -/
def quotedChar (apostrophes : Bool) (c : Char) : List Char :=
  if c = '\x00' then ['\\', '0']
  else if c = '\t' then ['\\', 't']
  else if c = '\r' then ['\\', 'r']
  else if c = '\n' then ['\\', 'n']
  else if c = '\\' then ['\\', '\\']
  else if c = '"' then ['\\', '"']
  else if apostrophes && c = '\'' then ['\\', '\'']
  else if isUnprintable c then ['\\', 'u', '\x7b'] ++ Nat.toDigits 16 c.toNat ++ ['\x7d']
  else [c]

def quoted (s : String) : String :=
  .ofList ('"' :: s.toList.flatMap (quotedChar false) ++ ['"'])

def quotedPath (s : String) : String :=
  .ofList ('"' :: s.toList.flatMap (quotedChar true) ++ ['"'])

end AddressPlan.Text
