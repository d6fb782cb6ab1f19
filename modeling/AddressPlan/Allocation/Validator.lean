import AddressPlan.Allocation.FieldErrors
import AddressPlan.Catalog.Basic

/-!
Validators: checks of the records that an allocation has created, made before they are kept. A validator sees
the record and the catalog with the whole batch in it, and may reject the record because of its fields or
because the caller may not create it.
-/

namespace AddressPlan

inductive Created where
  | prefixRecord (p : PrefixRecord)
  | addressRecord (a : AddressRecord)
  deriving DecidableEq, Repr

namespace Created

def vrf : Created → Option RecordId
  | prefixRecord p => p.vrf
  | addressRecord a => a.vrf

def tenant : Created → Option String
  | prefixRecord p => p.details.tenant
  | addressRecord a => a.details.tenant

def status : Created → String
  | prefixRecord p => p.status.name
  | addressRecord a => a.status.name

def network : Created → Net.Network
  | prefixRecord p => p.network
  | addressRecord a => a.host

end Created

inductive Rejection where
  | fields (errors : FieldErrors)
  | permission (detail : String)
  deriving DecidableEq, Repr

/-- A check of a created record; no rejection lets it pass. -/
abbrev Validator := Created → Catalog → Option Rejection

namespace Validator

/-! ### Uniqueness -/

/-- Whether duplicates are refused in a routing domain, or in the global table as the setting says. -/
def enforces (globally : Bool) (c : Catalog) : Option RecordId → Bool
  | none => globally
  | some id => (c.vrf? id).any (·.enforceUnique)

/-- The table of a routing domain, as it is shown. -/
def tableName (c : Catalog) (vrf : Option RecordId) : String :=
  match vrf.bind c.vrf? with
  | some v => s!"VRF {v.name}"
  | none => "global table"

def uniqueness (globally : Bool) : Validator := fun created c =>
  if enforces globally c created.vrf then
    let table := tableName c created.vrf
    match created with
    | .prefixRecord p =>
      (c.duplicatePrefixes p).head?.map fun q =>
        .fields (.single "prefix" s!"Duplicate prefix found in {table}: {q.network.text}")
    | .addressRecord a =>
      (c.duplicateAddresses a).head?.map fun b =>
        .fields (.single "address" s!"Duplicate IP address found in {table}: {b.host.text}")
  else none

/-! ### Permissions -/

/-- What the caller may create. An attribute that is not constrained may be anything. -/
structure Permissions where
  tenants : Option (List String)
  statuses : Option (List String)
  /-- The permitted routing domains, where none stands for the global table. -/
  vrfs : Option (List (Option RecordId))
  deriving DecidableEq, Repr

def Permissions.all : Permissions :=
  ⟨none, none, none⟩

def Permissions.permit (p : Permissions) (created : Created) : Bool :=
  p.tenants.all (fun tenants => created.tenant.any tenants.contains) &&
    p.statuses.all (·.contains created.status) && p.vrfs.all (·.contains created.vrf)

def permissionDenied : String :=
  "You do not have permission to perform this action."

def permission (p : Permissions) : Validator := fun created _ =>
  if p.permit created then none else some (.permission permissionDenied)

end Validator

end AddressPlan
