import AddressPlan.Number.Power

/-!
The two address families. A family fixes how wide its addresses are, and with that everything else
about their arithmetic.
-/

namespace AddressPlan.Net

inductive Family where
  | v4
  | v6
  deriving DecidableEq, Repr

namespace Family

/-- Bits in an address, which is also the longest prefix length. -/
def width : Family → Nat
  | v4 => 32
  | v6 => 128

def version : Family → Nat
  | v4 => 4
  | v6 => 6

def name : Family → String
  | v4 => "IPv4"
  | v6 => "IPv6"

end Family

end AddressPlan.Net
