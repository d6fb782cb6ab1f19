import AddressPlan.Net.Family

/-!
Addresses. An address is its family together with its value as a number, so both families share one
arithmetic.
-/

namespace AddressPlan.Net

structure Address where
  family : Family
  value : Nat
  value_lt : value < 2 ^ family.width
  deriving DecidableEq, Repr

namespace Address

/-- The address with the given value, if the family has one. -/
def ofValue? (f : Family) (n : Nat) : Option Address :=
  if h : n < 2 ^ f.width then some ⟨f, n, h⟩ else none

/-- The address whose value is made of the low bits of `n`. -/
def ofLowBits (f : Family) (n : Nat) : Address :=
  ⟨f, n % 2 ^ f.width, Nat.mod_lt _ (Nat.two_pow_pos _)⟩

end Address

end AddressPlan.Net
