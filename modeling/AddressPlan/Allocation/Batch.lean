import AddressPlan.Allocation.Request
import AddressPlan.Allocation.Validator
import AddressPlan.Catalog.Scope
import AddressPlan.Space.Carve

/-!
Batches: the allocation itself, as a function of the catalog. The parent and its children are looked up, the
requests are checked, blocks are carved in the order of the requests, records are created for them, and the
validators see the result. A batch either succeeds as a whole, with the new catalog, or is refused for one reason.
-/

namespace AddressPlan

open Net

inductive Refusal where
  | catalog (e : CatalogError)
  | badLengths (label : String) (items : List FieldErrors)
  | noRoom (requested : Nat) (label : String) (length : Nat)
  | tooFew (requested : Nat) (label : String) (available : Nat)
  | block (e : BlockError)
  | exhausted
  | rejected (items : List FieldErrors)
  | denied (detail : String)
  deriving DecidableEq, Repr

def Refusal.message : Refusal → String
  | catalog e => e.message
  | badLengths _ items => FieldErrors.summary items
  | noRoom _ _ _ => "Insufficient space is available to accommodate the requested prefix size(s)"
  | tooFew requested label available =>
    s!"An insufficient number of IP addresses are available within {label} ({requested} requested, {available} available)"
  | block e => e.message
  | exhausted => "record ids are exhausted"
  | rejected items => FieldErrors.summary items
  | denied detail => detail

/-! ### Prefix lengths -/

/-- What is wrong with a requested length, which has to be between those of the parent and of an address. -/
def lengthProblem (s : Scope) : Option Int → Option String
  | none => some "This field is required."
  | some length =>
    if length < s.maskLength then
      some s!"Invalid prefix length ({length}) for the specified parent prefix ({s.label})"
    else if s.family.width < length then
      some s!"Ensure this value is less than or equal to {s.family.width}."
    else none

/-- The requested lengths, if nothing is wrong with any of them. -/
def checkLengths (s : Scope) (requests : List PrefixRequest) : Except Refusal (List Nat) :=
  let items := requests.map fun r =>
    match lengthProblem s r.length with
    | some m => FieldErrors.single "prefix_length" m
    | none => .empty
  if items.any (!·.isEmpty) then .error (.badLengths s.label items)
  else .ok (requests.filterMap fun r => r.length.map Int.toNat)

/-! ### Creating records -/

/-- Creates a record for each item, in order; there may be too few ids left. -/
def insertAll (insert : Catalog → α → Option (β × Catalog)) (c : Catalog) : List α → Option (List β × Catalog)
  | [] => some ([], c)
  | a :: as => do
    let (b, c) ← insert c a
    let (bs, c) ← insertAll insert c as
    some (b :: bs, c)

def newPrefix (vrf : Option RecordId) (n : Network) (r : PrefixRequest) : NewPrefix :=
  ⟨n, vrf, r.status, r.details⟩

def newAddress (vrf : Option RecordId) (n : Network) (r : AddressRequest) : NewAddress :=
  ⟨n, vrf, r.status, r.dnsName, r.details⟩

/-! ### Validation -/

def fieldErrors (validators : List Validator) (c : Catalog) (r : Created) : FieldErrors :=
  .join <| validators.filterMap fun v =>
    match v r c with
    | some (.fields e) => some e
    | _ => none

/-- What the validators say against the caller's right to create a record. -/
def denials (validators : List Validator) (c : Catalog) (r : Created) : List String :=
  validators.filterMap fun v =>
    match v r c with
    | some (.permission detail) => some detail
    | _ => none

/-- Lets all validators see all records. Errors in fields come before missing permissions. -/
def review (validators : List Validator) (c : Catalog) (created : List Created) : Except Refusal Unit :=
  let items := created.map (fieldErrors validators c)
  if items.any (!·.isEmpty) then .error (.rejected items)
  else
    match (created.flatMap (denials validators c)).head? with
    | some detail => .error (.denied detail)
    | none => .ok ()

/-! ### Batches -/

/-- A batch that has succeeded: the scope it was drawn from, the new records, and the catalog with them. -/
structure Allocated (α : Type) where
  scope : Scope
  created : List α
  catalog : Catalog

def allocatePrefixes (validators : List Validator) (clock : Clock) (c : Catalog) (id : RecordId)
    (requests : List PrefixRequest) : Except Refusal (Allocated PrefixRecord) := do
  let scope ← (c.scope (.prefixRecord id) .prefixes).mapError .catalog
  let lengths ← checkLengths scope requests
  let networks ← (scope.space.takeNetworks lengths).mapError (.noRoom requests.length scope.label)
  match insertAll (fun c n => c.insertPrefix n clock) c (networks.zipWith (newPrefix scope.vrfId) requests) with
  | none => .error .exhausted
  | some (created, c) =>
    review validators c (created.map .prefixRecord)
    return ⟨scope, created, c⟩

def allocateAddresses (validators : List Validator) (clock : Clock) (c : Catalog) (parent : Parent)
    (requests : List AddressRequest) : Except Refusal (Allocated AddressRecord) := do
  let scope ← (c.scope parent .addresses).mapError .catalog
  let available := scope.space.size
  let tooFew := Refusal.tooFew requests.length scope.label available
  if available < requests.length then .error tooFew
  else
    match scope.space.takeAddresses? requests.length with
    | none => .error tooFew
    | some addresses =>
      match addresses.mapM (Network.of? · scope.maskLength) with
      | none => .error (.block .lengthOutOfRange)
      | some hosts =>
        match insertAll (fun c n => c.insertAddress n clock) c (hosts.zipWith (newAddress scope.vrfId) requests) with
        | none => .error .exhausted
        | some (created, c) =>
          review validators c (created.map .addressRecord)
          return ⟨scope, created, c⟩

end AddressPlan
