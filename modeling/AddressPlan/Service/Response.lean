import AddressPlan.Allocation.Allocator

/-!
Responses: a status and a JSON body. What succeeds answers with the objects themselves, what fails says why, and
the status tells the kinds of failure apart. Members of objects stand in ascending order.
-/

namespace AddressPlan

structure Response where
  status : Nat
  body : Json
  deriving Repr

namespace Response

def isSuccess (r : Response) : Bool :=
  200 ≤ r.status && r.status < 300

def detail (status : Nat) (text : String) : Response :=
  ⟨status, .object [("detail", .string text)]⟩

/-! ### Objects -/

/-- A routing domain, as it is shown inside other objects. -/
def vrfJson : Option Vrf → Json :=
  Json.ofOption fun v =>
    .object [("id", .nat v.id.toNat), ("name", .string v.name), ("rd", .ofOption .string v.rd)]

def prefixJson (vrf : Option Vrf) (p : PrefixRecord) : Json :=
  .object [("created", .string p.created.offsetText), ("description", .string p.details.description),
    ("family", .nat p.network.family.version), ("id", .nat p.id.toNat), ("prefix", .string p.network.text),
    ("status", .string p.status.name), ("tags", .strings p.details.tags),
    ("tenant", .ofOption .string p.details.tenant), ("vrf", vrfJson vrf)]

def addressJson (vrf : Option Vrf) (a : AddressRecord) : Json :=
  .object [("address", .string a.host.text), ("created", .string a.created.offsetText),
    ("description", .string a.details.description), ("dns_name", .string a.dnsName),
    ("family", .nat a.host.family.version), ("id", .nat a.id.toNat), ("status", .string a.status.name),
    ("tags", .strings a.details.tags), ("tenant", .ofOption .string a.details.tenant), ("vrf", vrfJson vrf)]

def freeNetworkJson (vrf : Option Vrf) (n : Net.Network) : Json :=
  .object [("family", .nat n.family.version), ("prefix", .string n.text), ("vrf", vrfJson vrf)]

def freeAddressJson (scope : Scope) (a : Net.Address) : Json :=
  .object [("address", .string s!"{a.text}/{scope.maskLength}"), ("family", .nat scope.family.version),
    ("vrf", vrfJson scope.vrf)]

/-! ### Answers -/

def listing (items : List Json) : Response :=
  ⟨200, .array items⟩

/-- What has been created, in the shape of the request. -/
def created (isMany : Bool) (items : List Json) : Response :=
  ⟨201, if isMany then .array items else items.getLast?.getD .null⟩

/-- What is wrong with the items, in the shape of the request. -/
def invalid (isMany : Bool) (items : List FieldErrors) : Response :=
  ⟨400, if isMany then .array (items.map FieldErrors.toJson)
    else (items.head?.map FieldErrors.toJson).getD (.object [])⟩

def notFound : Response :=
  detail 404 "Not found."

end Response

end AddressPlan
