import AddressPlan.Catalog.Record

/-!
The catalog: four tables whose records share one sequence of ids. The sequence only grows, so an id is never
given out again, even after its record is gone; it ends with the greatest number an id can be.
-/

namespace AddressPlan

open Net

structure Catalog where
  vrfs : List Vrf
  prefixes : List PrefixRecord
  ranges : List RangeRecord
  addresses : List AddressRecord
  /-- The least id that may be given out, unless a record has a greater one. -/
  nextId : RecordId
  deriving DecidableEq, Repr

/-- Kinds of records, as far as one can be missing. -/
inductive RecordKind where
  | vrf
  | prefixRecord
  | rangeRecord
  deriving DecidableEq, Repr

def RecordKind.name : RecordKind → String
  | vrf => "VRF"
  | prefixRecord => "prefix"
  | rangeRecord => "IP range"

inductive CatalogError where
  | notFound (kind : RecordKind) (id : RecordId)
  | duplicateId (id : RecordId)
  | badRange (id : RecordId) (cause : BlockError)
  | unknownVrf (id vrf : RecordId)
  deriving DecidableEq, Repr

def CatalogError.message : CatalogError → String
  | notFound kind id => s!"{kind.name} {id} not found"
  | duplicateId id => s!"record id {id} is already in use"
  | badRange id cause => s!"invalid record: IP range {id}: {cause.message}"
  | unknownVrf id vrf => s!"invalid record: record {id} refers to unknown VRF {vrf}"

namespace Catalog

def empty : Catalog :=
  ⟨[], [], [], [], 0⟩

/-! ### Look-up -/

def vrf? (c : Catalog) (id : RecordId) : Option Vrf :=
  c.vrfs.find? (·.id == id)

def prefix? (c : Catalog) (id : RecordId) : Option PrefixRecord :=
  c.prefixes.find? (·.id == id)

def range? (c : Catalog) (id : RecordId) : Option RangeRecord :=
  c.ranges.find? (·.id == id)

def address? (c : Catalog) (id : RecordId) : Option AddressRecord :=
  c.addresses.find? (·.id == id)

def ids (c : Catalog) : List RecordId :=
  c.vrfs.map (·.id) ++ c.prefixes.map (·.id) ++ c.ranges.map (·.id) ++ c.addresses.map (·.id)

def references (c : Catalog) : List (RecordId × Option RecordId) :=
  c.prefixes.map (fun p => (p.id, p.vrf)) ++ c.ranges.map (fun r => (r.id, r.vrf)) ++
    c.addresses.map (fun a => (a.id, a.vrf))

def spanOf (r : RangeRecord) : Except CatalogError Span :=
  r.span.mapError (.badRange r.id)

/-! ### Children and duplicates -/

/-- Prefixes strictly inside a prefix: longer ones, in its routing domain unless it spans all of them. -/
def childPrefixes (c : Catalog) (p : PrefixRecord) : List PrefixRecord :=
  c.prefixes.filter fun q =>
    q.id != p.id && p.network.length < q.network.length && p.block.contains q.block &&
      (p.spansAllVrfs || q.vrf == p.vrf)

/-- Ranges whose bounds both lie inside a prefix. -/
def childRanges (c : Catalog) (p : PrefixRecord) : List RangeRecord :=
  c.ranges.filter fun r =>
    p.block.containsAddress r.start.address && p.block.containsAddress r.stop.address &&
      (p.spansAllVrfs || r.vrf == p.vrf)

/-- Addresses inside a block, in one routing domain or in all of them. -/
def childAddresses (c : Catalog) (block : Block) (vrf : Option RecordId) (allVrfs : Bool) : List AddressRecord :=
  c.addresses.filter fun a => block.containsAddress a.host.address && (allVrfs || a.vrf == vrf)

/-- Other prefixes with the same network in the same routing domain. -/
def duplicatePrefixes (c : Catalog) (p : PrefixRecord) : List PrefixRecord :=
  c.prefixes.filter fun q => q.id != p.id && q.vrf == p.vrf && q.network.truncate == p.network.truncate

def duplicateAddresses (c : Catalog) (a : AddressRecord) : List AddressRecord :=
  c.addresses.filter fun b => b.id != a.id && b.vrf == a.vrf && b.host.address == a.host.address

/-! ### Insertion and removal -/

def maxId (c : Catalog) : RecordId :=
  c.ids.foldl max 0

/-- The greatest number an id can be. -/
def lastId : RecordId := -1

/-- The id that the next record gets, if the sequence has not ended: an id is given out only if another number
follows it. -/
def freshId? (c : Catalog) : Option RecordId :=
  if c.maxId = lastId then none
  else
    let id := max c.nextId (c.maxId + 1)
    if id = lastId then none else some id

def insertPrefix (c : Catalog) (new : NewPrefix) (clock : Clock) : Option (PrefixRecord × Catalog) :=
  c.freshId?.map fun id =>
    let p := new.record id (clock.creation id)
    (p, { c with prefixes := c.prefixes ++ [p], nextId := id + 1 })

def insertAddress (c : Catalog) (new : NewAddress) (clock : Clock) : Option (AddressRecord × Catalog) :=
  c.freshId?.map fun id =>
    let a := new.record id (clock.creation id)
    (a, { c with addresses := c.addresses ++ [a], nextId := id + 1 })

def remove (c : Catalog) (id : RecordId) : Catalog :=
  { c with
    vrfs := c.vrfs.filter (·.id != id)
    prefixes := c.prefixes.filter (·.id != id)
    ranges := c.ranges.filter (·.id != id)
    addresses := c.addresses.filter (·.id != id) }

/-! ### Merging -/

/-- The first id that is in use already, by a record of the catalog or earlier in the list. -/
def clash? (used : List RecordId) : List RecordId → Option RecordId
  | [] => none
  | id :: ids => if used.contains id then some id else clash? (id :: used) ids

/-- The first reference to a routing domain that is not among the given ones. -/
def dangling? (vrfs : List Vrf) (refs : List (RecordId × Option RecordId)) : Option (RecordId × RecordId) :=
  refs.findSome? fun r =>
    match r.2 with
    | some vrf => if vrfs.any (·.id == vrf) then none else some (r.1, vrf)
    | none => none

/-- Adds seed records, which keep their ids. It is refused if an id is taken, a range has bounds that do not fit
together, or a record refers to a routing domain that is unknown. -/
def merge (c seed : Catalog) : Except CatalogError Catalog :=
  match clash? c.ids seed.ids with
  | some id => .error (.duplicateId id)
  | none => do
    let _ ← seed.ranges.mapM spanOf
    match dangling? (c.vrfs ++ seed.vrfs) seed.references with
    | some (id, vrf) => .error (.unknownVrf id vrf)
    | none =>
      .ok ⟨c.vrfs ++ seed.vrfs, c.prefixes ++ seed.prefixes, c.ranges ++ seed.ranges,
        c.addresses ++ seed.addresses, max c.nextId seed.nextId⟩

end Catalog

end AddressPlan
