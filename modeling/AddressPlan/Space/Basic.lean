import AddressPlan.Net.Block

/-!
Free space: what a parent block has left once its children are taken out, as a list of spans. `compute`
sweeps once over the children in block order. The spans of a computed space ascend and neither overlap
nor touch, and an address is free exactly if it lies in the parent and in no child.
-/

namespace AddressPlan

open Net

/-- The free addresses of a parent block. -/
structure Space where
  parent : Block
  free : List Span
  deriving DecidableEq, Repr

namespace Space

instance : Membership Address Space :=
  ⟨fun sp a => ∃ s ∈ sp.free, a ∈ s⟩

/-- Takes spans, in order of their first address, out of what is still unclaimed at the top of a block. -/
def sweep : Option Span → List Span → List Span
  | none, _ => []
  | some rest, [] => [rest]
  | some rest, cut :: cuts => (rest.below? cut).toList ++ sweep (rest.above? cut) cuts

/-- What `parent` has left without its children, which may overlap, nest, reach out of it or lie elsewhere. -/
def compute (parent : Block) (children : List Block) : Space :=
  let cuts := Block.sort (children.filter fun c => c.meets parent)
  ⟨parent, sweep (some parent.span) (cuts.map Block.span)⟩

def isEmpty (sp : Space) : Bool :=
  sp.free.isEmpty

def size (sp : Space) : Nat :=
  sp.free.foldr (fun s n => s.size + n) 0

/-- The free space in networks, lowest first. -/
def networks (sp : Space) : List Network :=
  sp.free.flatMap Span.split

def lowestOf : Nat → List Span → List Address
  | _, [] => []
  | k, s :: ss => s.lowest k ++ lowestOf (k - s.size) ss

/-- The lowest `k` free addresses, or all of them. -/
def lowest (sp : Space) (k : Nat) : List Address :=
  lowestOf k sp.free

/-- The address with the given index in a list of spans, skipping whole spans. -/
def nthOf? : Nat → List Span → Option Address
  | _, [] => none
  | i, s :: ss => if i < s.size then s.nth? i else nthOf? (i - s.size) ss

def nth? (sp : Space) (i : Nat) : Option Address :=
  nthOf? i sp.free

end Space

end AddressPlan
