import AddressPlan.Catalog.Basic
import AddressPlan.Space.Basic

/-!
Scopes: a parent record together with the children that occupy its space. What counts as a child depends on
what is to be allocated: prefixes are in the way of prefixes, addresses and ranges in the way of addresses.
-/

namespace AddressPlan

open Net

inductive Parent where
  | prefixRecord (id : RecordId)
  | rangeRecord (id : RecordId)
  deriving DecidableEq, Repr

namespace Parent

def id : Parent → RecordId
  | prefixRecord id | rangeRecord id => id

def kind : Parent → RecordKind
  | prefixRecord _ => .prefixRecord
  | rangeRecord _ => .rangeRecord

def text (p : Parent) : String :=
  s!"{p.kind.name} {p.id}"

end Parent

inductive Mode where
  | prefixes
  | addresses
  deriving DecidableEq, Repr

structure Scope where
  parent : Parent
  /-- The parent as it is shown. -/
  label : String
  block : Block
  vrf : Option Vrf
  /-- The mask length that addresses from this parent get. -/
  maskLength : Nat
  children : List Block
  deriving DecidableEq, Repr

namespace Scope

def vrfId (s : Scope) : Option RecordId :=
  s.vrf.map (·.id)

def family (s : Scope) : Family :=
  s.block.family

def space (s : Scope) : Space :=
  .compute s.block s.children

end Scope

namespace Catalog

def resolveVrf (c : Catalog) : Option RecordId → Except CatalogError (Option Vrf)
  | none => .ok none
  | some id =>
    match c.vrf? id with
    | some vrf => .ok (some vrf)
    | none => .error (.notFound .vrf id)

def occupied (c : Catalog) (p : PrefixRecord) : Mode → Except CatalogError (List Block)
  | .prefixes => .ok ((c.childPrefixes p).map (·.block))
  | .addresses => do
    let hosts := (c.childAddresses p.block p.vrf p.spansAllVrfs).map fun a => Block.host a.host.address
    let spans ← (c.childRanges p).mapM spanOf
    return hosts ++ spans.map .range

/-- The scope of a parent. A range has addresses only for its children, whatever is to be allocated. -/
def scope (c : Catalog) (parent : Parent) (mode : Mode) : Except CatalogError Scope :=
  match parent with
  | .prefixRecord id =>
    match c.prefix? id with
    | none => .error (.notFound .prefixRecord id)
    | some p => do
      let children ← c.occupied p mode
      let vrf ← c.resolveVrf p.vrf
      return ⟨parent, p.network.truncate.text, p.block, vrf, p.network.length, children⟩
  | .rangeRecord id =>
    match c.range? id with
    | none => .error (.notFound .rangeRecord id)
    | some r => do
      let block := Block.range (← spanOf r)
      let vrf ← c.resolveVrf r.vrf
      let children := (c.childAddresses block r.vrf false).map fun a => Block.host a.host.address
      return ⟨parent, r.text, block, vrf, r.maskLength, children⟩

end Catalog

end AddressPlan
