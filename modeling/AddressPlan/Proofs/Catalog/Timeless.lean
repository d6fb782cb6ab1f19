import AddressPlan.Allocation.Validator
import AddressPlan.Proofs.Catalog.Ids
import AddressPlan.Proofs.Catalog.Scope

/-!
Catalogs with the times of creation left out of account. Nothing that is asked of a catalog depends on when its records
were created: neither what a scope holds, nor which id comes next, nor whether a record is a duplicate.
-/

namespace AddressPlan

open Net

/-! ### Records -/

namespace PrefixRecord

/-- The record as it would be if it had been created at another time. -/
def dated (t : Time.Timestamp) (p : PrefixRecord) : PrefixRecord :=
  { p with created := t }

def timeless (p : PrefixRecord) : PrefixRecord :=
  p.dated Catalog.epoch

@[simp] theorem timeless_id (p : PrefixRecord) : p.timeless.id = p.id := rfl

@[simp] theorem timeless_vrf (p : PrefixRecord) : p.timeless.vrf = p.vrf := rfl

@[simp] theorem timeless_block (p : PrefixRecord) : p.timeless.block = p.block := rfl

end PrefixRecord

namespace RangeRecord

def timeless (r : RangeRecord) : RangeRecord :=
  { r with created := Catalog.epoch }

@[simp] theorem timeless_id (r : RangeRecord) : r.timeless.id = r.id := rfl

@[simp] theorem timeless_vrf (r : RangeRecord) : r.timeless.vrf = r.vrf := rfl

@[simp] theorem spanOf_timeless (r : RangeRecord) : Catalog.spanOf r.timeless = Catalog.spanOf r := rfl

end RangeRecord

namespace AddressRecord

/-- The record as it would be if it had been created at another time. -/
def dated (t : Time.Timestamp) (a : AddressRecord) : AddressRecord :=
  { a with created := t }

def timeless (a : AddressRecord) : AddressRecord :=
  a.dated Catalog.epoch

@[simp] theorem timeless_id (a : AddressRecord) : a.timeless.id = a.id := rfl

@[simp] theorem timeless_vrf (a : AddressRecord) : a.timeless.vrf = a.vrf := rfl

end AddressRecord

namespace Catalog

variable {c d : Catalog}

/-- The catalog with all times of creation set to the same one. -/
def timeless (c : Catalog) : Catalog :=
  ⟨c.vrfs, c.prefixes.map (·.timeless), c.ranges.map (·.timeless), c.addresses.map (·.timeless), c.nextId⟩

/-- Two catalogs that are the same up to the times of creation. -/
def Alike (c d : Catalog) : Prop :=
  c.timeless = d.timeless

theorem Alike.refl (c : Catalog) : c.Alike c := rfl

/-! ### Ids -/

@[simp] theorem timeless_vrfs (c : Catalog) : c.timeless.vrfs = c.vrfs := rfl

@[simp] theorem timeless_nextId (c : Catalog) : c.timeless.nextId = c.nextId := rfl

@[simp] theorem ids_timeless (c : Catalog) : c.timeless.ids = c.ids := by
  simp only [ids, timeless, List.map_map, Function.comp_def, PrefixRecord.timeless_id, RangeRecord.timeless_id,
    AddressRecord.timeless_id]

@[simp] theorem freshId?_timeless (c : Catalog) : c.timeless.freshId? = c.freshId? := by
  have hmax : c.timeless.maxId = c.maxId := by rw [maxId, maxId, ids_timeless]
  rw [freshId?, freshId?, hmax, timeless_nextId]

theorem Alike.freshId?_eq (h : c.Alike d) : c.freshId? = d.freshId? := by
  rw [← freshId?_timeless c, h, freshId?_timeless]

theorem withPrefixes_timeless (c : Catalog) (ps : List PrefixRecord) :
    (c.withPrefixes ps).timeless = c.timeless.withPrefixes (ps.map (·.timeless)) := by
  simp only [timeless, withPrefixes, List.map_append, List.map_map, Function.comp_def, PrefixRecord.timeless_id]

theorem withAddresses_timeless (c : Catalog) (as : List AddressRecord) :
    (c.withAddresses as).timeless = c.timeless.withAddresses (as.map (·.timeless)) := by
  simp only [timeless, withAddresses, List.map_append, List.map_map, Function.comp_def, AddressRecord.timeless_id]

theorem Alike.withPrefixes (h : c.Alike d) {ps qs : List PrefixRecord} (hps : ps.map (·.timeless) = qs.map (·.timeless)) :
    (c.withPrefixes ps).Alike (d.withPrefixes qs) := by
  rw [Alike, withPrefixes_timeless, withPrefixes_timeless, h, hps]

theorem Alike.withAddresses (h : c.Alike d) {as bs : List AddressRecord}
    (has : as.map (·.timeless) = bs.map (·.timeless)) : (c.withAddresses as).Alike (d.withAddresses bs) := by
  rw [Alike, withAddresses_timeless, withAddresses_timeless, h, has]

/-! ### Scopes -/

theorem prefix?_timeless (c : Catalog) (id : RecordId) : c.timeless.prefix? id = (c.prefix? id).map (·.timeless) :=
  List.find?_map ..

theorem range?_timeless (c : Catalog) (id : RecordId) : c.timeless.range? id = (c.range? id).map (·.timeless) :=
  List.find?_map ..

theorem childPrefixes_timeless (c : Catalog) (p : PrefixRecord) :
    c.timeless.childPrefixes p.timeless = (c.childPrefixes p).map (·.timeless) :=
  List.filter_map ..

theorem childRanges_timeless (c : Catalog) (p : PrefixRecord) :
    c.timeless.childRanges p.timeless = (c.childRanges p).map (·.timeless) :=
  List.filter_map ..

theorem childAddresses_timeless (c : Catalog) (block : Block) (vrf : Option RecordId) (all : Bool) :
    c.timeless.childAddresses block vrf all = (c.childAddresses block vrf all).map (·.timeless) :=
  List.filter_map ..

theorem hosts_timeless (as : List AddressRecord) :
    (as.map (·.timeless)).map (fun a => Block.host a.host.address) = as.map fun a => Block.host a.host.address := by
  rw [List.map_map]
  rfl

theorem occupied_timeless (c : Catalog) (p : PrefixRecord) (mode : Mode) :
    c.timeless.occupied p.timeless mode = c.occupied p mode := by
  cases mode with
  | prefixes =>
    simp only [occupied, childPrefixes_timeless, List.map_map]
    rfl
  | addresses =>
    simp only [occupied, childRanges_timeless, List.mapM_map, PrefixRecord.timeless_block, PrefixRecord.timeless_vrf,
      childAddresses_timeless, hosts_timeless]
    rfl

theorem scope_timeless (c : Catalog) (parent : Parent) (mode : Mode) :
    c.timeless.scope parent mode = c.scope parent mode := by
  cases parent with
  | prefixRecord id =>
    simp only [scope, prefix?_timeless]
    cases c.prefix? id with
    | none => rfl
    | some p =>
      simp only [Option.map_some, occupied_timeless]
      rfl
  | rangeRecord id =>
    simp only [scope, range?_timeless]
    cases c.range? id with
    | none => rfl
    | some r =>
      simp only [Option.map_some, RangeRecord.spanOf_timeless, childAddresses_timeless, hosts_timeless]
      rfl

theorem Alike.scope_eq (h : c.Alike d) (parent : Parent) (mode : Mode) : c.scope parent mode = d.scope parent mode := by
  rw [← scope_timeless c, h, scope_timeless]

end Catalog

/-! ### Validators -/

def Created.timeless : Created → Created
  | prefixRecord p => prefixRecord p.timeless
  | addressRecord a => addressRecord a.timeless

/-- A check of a record alone, which refuses what is created on a later day. -/
def Created.punctual : Created → Option Rejection
  | prefixRecord p => if p.created = Catalog.epoch then none else some (.permission "too late")
  | addressRecord a => if a.created = Catalog.epoch then none else some (.permission "too late")

namespace Validator

theorem uniqueness_timeless (globally : Bool) (r : Created) (c : Catalog) :
    uniqueness globally r.timeless c.timeless = uniqueness globally r c := by
  cases r with
  | prefixRecord p =>
    have hduplicates : c.timeless.duplicatePrefixes p.timeless = (c.duplicatePrefixes p).map (·.timeless) :=
      List.filter_map ..
    simp only [uniqueness, Created.timeless, hduplicates, List.head?_map, Option.map_map]
    rfl
  | addressRecord a =>
    have hduplicates : c.timeless.duplicateAddresses a.timeless = (c.duplicateAddresses a).map (·.timeless) :=
      List.filter_map ..
    simp only [uniqueness, Created.timeless, hduplicates, List.head?_map, Option.map_map]
    rfl

theorem permission_timeless (p : Permissions) (r : Created) (c d : Catalog) :
    permission p r.timeless d = permission p r c := by
  cases r <;> rfl

end Validator

end AddressPlan
