import AddressPlan.Net.Address.Basic
import AddressPlan.Text.Digits

/-!
The text of an address. IPv4 is written as four decimal octets. IPv6 is written as eight groups of
lower-case hexadecimal digits, in which the longest run of two or more zero groups (the first one, if
there are several) becomes `::`; an IPv4-mapped address ends in the dotted form.
-/

namespace AddressPlan.Net.Address

open Text

def dotted (n : Nat) : List Char :=
  ['.'].intercalate (([3, 2, 1, 0].map fun i : Nat => n / 256 ^ i % 256).map decimal)

/-- The eight groups of an IPv6 value, highest first. -/
def groups (n : Nat) : List Nat :=
  [7, 6, 5, 4, 3, 2, 1, 0].map fun i : Nat => n / 65536 ^ i % 65536

/-- Where the first of the longest runs of zeros starts, and how long it is. -/
def longestGap : List Nat → Nat × Nat
  | [] => (0, 0)
  | g :: gs =>
    let here := ((g :: gs).takeWhile (· == 0)).length
    let later := longestGap gs
    if later.2 ≤ here then (0, here) else (later.1 + 1, later.2)

def colonSeparated (gs : List Nat) : List Char :=
  [':'].intercalate (gs.map (Nat.toDigits 16))

/-- An IPv6 value is IPv4-mapped when its upper 96 bits are `::ffff`. -/
def isMapped (n : Nat) : Bool :=
  n / 2 ^ (32 : Nat) == 0xffff

def colons (n : Nat) : List Char :=
  if isMapped n then "::ffff:".toList ++ dotted (n % 2 ^ (32 : Nat))
  else
    let gs := groups n
    let gap := longestGap gs
    if 1 < gap.2 then colonSeparated (gs.take gap.1) ++ [':', ':'] ++ colonSeparated (gs.drop (gap.1 + gap.2))
    else colonSeparated gs

def chars (a : Address) : List Char :=
  match a.family with
  | .v4 => dotted a.value
  | .v6 => colons a.value

def text (a : Address) : String :=
  .ofList a.chars

end AddressPlan.Net.Address
