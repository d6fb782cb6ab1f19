/-!
Powers of natural numbers are those of the core library, whatever else is known about powers where a module is used.
-/

namespace AddressPlan

instance (priority := 2000) natPow : Pow Nat Nat :=
  instPowNat

end AddressPlan
