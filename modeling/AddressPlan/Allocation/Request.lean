import AddressPlan.Allocation.FieldErrors
import AddressPlan.Catalog.Codec

/-!
Requests: what a caller asks to be allocated, one object for each item. A body holds one item or a list of
them. An item that does not decode is blamed on its fields: each is tried on its own, and those that fail are
reported with what is wrong with them.
-/

namespace AddressPlan

/-- A prefix that is asked for. The length is checked against the parent only later, so it may be any number. -/
structure PrefixRequest where
  length : Option Int
  status : PrefixStatus
  details : Details
  deriving DecidableEq, Repr

structure AddressRequest where
  status : AddressStatus
  dnsName : String
  details : Details
  deriving DecidableEq, Repr

namespace Decoder

def prefixRequest : Decoder PrefixRequest :=
  record "PrefixRequest" ⟨none, .active, .blank⟩
    ([.optional "prefix_length" (option int64) fun v r => { r with length := v },
      .optional "status" prefixStatus fun v r => { r with status := v }] ++
      detailFields fun f r => { r with details := f r.details })

def addressRequest : Decoder AddressRequest :=
  record "IpAddressRequest" ⟨.active, "", .blank⟩
    ([.optional "status" addressStatus fun v r => { r with status := v },
      .optional "dns_name" string fun v r => { r with dnsName := v }] ++
      detailFields fun f r => { r with details := f r.details })

end Decoder

/-- The items of a body: a list of them, or a single one. -/
inductive Body (α : Type) where
  | many (items : List α)
  | one (item : α)
  deriving DecidableEq, Repr

namespace Body

def items : Body α → List α
  | many as => as
  | one a => [a]

def isMany : Body α → Bool
  | many _ => true
  | one _ => false

/-- The field that stands for the item as a whole. -/
def wholeItem : String := "non_field_errors"

/-- What is wrong with the members of an item, each decoded on its own. -/
def memberErrors (d : Decoder α) (members : List (String × Json)) : FieldErrors :=
  .join <| members.map fun m =>
    match d.ofJson (.object [m]) with
    | .ok _ => .empty
    | .error e => .single m.1 e.message

def item (d : Decoder α) : Json → Except FieldErrors α
  | .object members =>
    match d.ofJson (.object members) with
    | .ok a => .ok a
    | .error e =>
      let found := memberErrors d members
      .error (if found.isEmpty then .single wholeItem e.message else found)
  | v => .error (.single wholeItem s!"Invalid data. Expected a dictionary, but got {v.kind}.")

def errors (results : List (Except FieldErrors α)) : List FieldErrors :=
  results.map fun
    | .ok _ => .empty
    | .error e => e

/-- A body; if an item does not decode, what is wrong with each of them. -/
def decode (d : Decoder α) : Json → Except (List FieldErrors) (Body α)
  | .array values =>
    let results := values.map (item d)
    let found := errors results
    if found.any (!·.isEmpty) then .error found
    else .ok (.many (results.filterMap Except.toOption))
  | v => ((item d v).map one).mapError ([·])

end Body

end AddressPlan
