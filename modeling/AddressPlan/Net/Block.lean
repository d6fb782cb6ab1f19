import AddressPlan.Net.Span
import AddressPlan.Text.Blank

/-!
Blocks of addresses: a network or an arbitrary span. Taking a block out of another keeps the shape of
the one it is taken from, so a network falls into networks and a span into spans. Blocks are ordered by
family, by first address, and then the larger one first.
-/

namespace AddressPlan.Net

open Text

inductive BlockError where
  | mixedFamilies (start stop : Address)
  | maskMismatch (start stop : Network)
  | inverted (start stop : Address)
  | lengthOutOfRange
  | unreadable (text : String)
  deriving DecidableEq, Repr

def BlockError.message : BlockError → String
  | mixedFamilies s e => s!"range bounds {s.text} and {e.text} belong to different address families"
  | maskMismatch s e => s!"range bounds {s.text} and {e.text} have different mask lengths"
  | inverted s e => s!"range start {s.text} is greater than range end {e.text}"
  | lengthOutOfRange => "invalid prefix length: invalid IP prefix length"
  | unreadable t => s!"invalid address block '{t}'"

/-- The span between two addresses, both included. -/
def Span.between (start stop : Address) : Except BlockError Span :=
  if start.family = stop.family then
    if h : start.value ≤ stop.value then
      .ok ⟨stop.family, start.value, stop.value, h, stop.value_lt⟩
    else .error (.inverted start stop)
  else .error (.mixedFamilies start stop)

/-- A contiguous block of addresses. -/
inductive Block where
  | network (n : Network)
  | range (s : Span)
  deriving DecidableEq, Repr

namespace Block

/-- The block of a network, whichever of its addresses it was written with. -/
def ofNetwork (n : Network) : Block :=
  network n.truncate

def host (a : Address) : Block :=
  network (.host a)

def span : Block → Span
  | network n => .ofNetwork n
  | range s => s

instance : Membership Address Block :=
  ⟨fun b a => a ∈ b.span⟩

instance (a : Address) (b : Block) : Decidable (a ∈ b) :=
  inferInstanceAs (Decidable (a ∈ b.span))

def family (b : Block) : Family :=
  b.span.family

def size (b : Block) : Nat :=
  b.span.size

def length? : Block → Option Nat
  | network n => some n.length
  | range _ => none

def contains (b c : Block) : Bool :=
  b.span.contains c.span

def containsAddress (b : Block) (a : Address) : Bool :=
  a ∈ b

def meets (b c : Block) : Bool :=
  b.span.meets c.span

/-- What `b` keeps when `c` is taken out, lowest first. -/
def subtract (b c : Block) : List Block :=
  if b.meets c then
    let kept := b.span.minus c.span
    match b with
    | network _ => kept.flatMap fun s => s.split.map network
    | range _ => kept.map range
  else [b]

/-! ### Order -/

/-- Tells apart blocks with the same addresses: networks come first, by the address they are written with. -/
def shape : Block → Nat × Nat
  | network n => (0, n.address.value)
  | range _ => (1, 0)

/-- Family, then first address, then the larger block first, then shape. -/
def order (b c : Block) : Ordering :=
  (compare b.family.version c.family.version).then <|
    (compare b.span.first c.span.first).then <|
      (compare c.span.last b.span.last).then <|
        (compare b.shape.1 c.shape.1).then (compare b.shape.2 c.shape.2)

def sort (bs : List Block) : List Block :=
  bs.mergeSort fun b c => (b.order c).isLE

/-! ### Text -/

def chars : Block → List Char
  | network n => n.chars
  | range s => s.chars

def text (b : Block) : String :=
  .ofList b.chars

def splitAt? (c : Char) (cs : List Char) : Option (List Char × List Char) :=
  match cs.span (· != c) with
  | (_, []) => none
  | (front, _ :: back) => some (front, back)

/-- Reads `10.0.0.0/24`, `10.0.0.10-10.0.0.20` or a bare address, with blanks around any of them. -/
def ofText (text : String) : Except BlockError Block := do
  let cs := trim text.toList
  let bad : BlockError := .unreadable (.ofList cs)
  let address (part : List Char) : Except BlockError Address :=
    match Address.ofChars? (trim part) with
    | some a => .ok a
    | none => .error bad
  match splitAt? '-' cs with
  | some (front, back) =>
    let start ← address front
    let stop ← address back
    return range (← Span.between start stop)
  | none =>
    if cs.contains '/' then
      match Network.ofChars? cs with
      | some n => return ofNetwork n
      | none => throw bad
    else return host (← address cs)

end Block

end AddressPlan.Net
