import AddressPlan.Space.Basic

/-!
Carving: taking blocks out of free space while a batch is being satisfied. A network is carved from the
lowest free network that is large enough, an address from the lowest free span.
-/

namespace AddressPlan.Space

open Net

def remove (sp : Space) (b : Block) : Space :=
  { sp with free := sp.free.flatMap fun s => s.minus b.span }

/-- The lowest network of the given length in the first free network that can hold it. -/
def fit? (sp : Space) (length : Nat) : Option Network := do
  let home ← sp.free.findSome? fun s => s.split.find? fun n => n.length ≤ length
  let carved ← Network.of? home.truncate.address length
  some carved.truncate

/-- Carves a network of the given length: the network, and what is left. -/
def takeNetwork? (sp : Space) (length : Nat) : Option (Network × Space) :=
  (sp.fit? length).map fun n => (n, sp.remove (.network n))

/-- Claims the lowest free address: the address, and what is left. -/
def takeAddress? (sp : Space) : Option (Address × Space) :=
  match sp.free with
  | [] => none
  | s :: ss => some (s.start, { sp with free := (s.aboveValue? s.first).toList ++ ss })

/-- Carves one network for each of the lengths, in order; the first length without room is the error. -/
def takeNetworks (sp : Space) : List Nat → Except Nat (List Network)
  | [] => .ok []
  | length :: lengths =>
    match sp.takeNetwork? length with
    | none => .error length
    | some (n, left) => (left.takeNetworks lengths).map (n :: ·)

def takeAddresses? (sp : Space) : Nat → Option (List Address)
  | 0 => some []
  | k + 1 => do
    let (a, left) ← sp.takeAddress?
    let rest ← left.takeAddresses? k
    some (a :: rest)

end AddressPlan.Space
