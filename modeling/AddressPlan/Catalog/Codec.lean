import AddressPlan.Catalog.Basic
import AddressPlan.Decoder.Record
import AddressPlan.Json.Printer
import AddressPlan.Time.Timestamp.Parser

/-!
Catalogs as JSON. Every field of a record is written, in a fixed order; when records are read, most fields may
be missing, and one without a time of its creation takes the current time.
-/

namespace AddressPlan

open Net

/-! ### Writing -/

namespace Json

def ofId (id : Option RecordId) : Json :=
  ofOption (fun id => .nat id.toNat) id

def ofDetails (d : Details) : List (String × Json) :=
  [("tenant", ofOption .string d.tenant), ("description", .string d.description), ("tags", .strings d.tags)]

end Json

def Vrf.toJson (v : Vrf) : Json :=
  .object [("id", .nat v.id.toNat), ("name", .string v.name), ("rd", .ofOption .string v.rd),
    ("enforce_unique", .bool v.enforceUnique)]

def PrefixRecord.toJson (p : PrefixRecord) : Json :=
  .object ([("id", .nat p.id.toNat), ("prefix", .string p.network.text), ("vrf", .ofId p.vrf),
    ("status", .string p.status.name)] ++ Json.ofDetails p.details ++ [("created", .string p.created.text)])

def RangeRecord.toJson (r : RangeRecord) : Json :=
  .object ([("id", .nat r.id.toNat), ("start_address", .string r.start.text), ("end_address", .string r.stop.text),
    ("vrf", .ofId r.vrf), ("status", .string r.status.name)] ++ Json.ofDetails r.details ++
    [("created", .string r.created.text)])

def AddressRecord.toJson (a : AddressRecord) : Json :=
  .object ([("id", .nat a.id.toNat), ("address", .string a.host.text), ("vrf", .ofId a.vrf),
    ("status", .string a.status.name), ("dns_name", .string a.dnsName)] ++ Json.ofDetails a.details ++
    [("created", .string a.created.text)])

namespace Catalog

def toJson (c : Catalog) : Json :=
  .object [("vrfs", .array (c.vrfs.map Vrf.toJson)), ("prefixes", .array (c.prefixes.map PrefixRecord.toJson)),
    ("ip_ranges", .array (c.ranges.map RangeRecord.toJson)),
    ("ip_addresses", .array (c.addresses.map AddressRecord.toJson)), ("next_id", .nat c.nextId.toNat)]

def text (c : Catalog) : String :=
  c.toJson.pretty

end Catalog

/-! ### Reading -/

namespace Decoder

def recordId : Decoder RecordId :=
  uint64

def network : Decoder Network :=
  parsed "IPv4 or IPv6 network address" fun s =>
    match Network.ofChars? s.toList with
    | some n => .ok n
    | none => .error Address.syntaxMessage

def timestamp : Decoder Time.Timestamp :=
  parsed "an RFC 3339 formatted date and time string" fun s => (Time.Timestamp.ofText s).mapError (·.message)

def prefixStatus : Decoder PrefixStatus :=
  choice ([.container, .active, .reserved, .deprecated].map fun s => (s.name, s))

def rangeStatus : Decoder RangeStatus :=
  choice ([.active, .reserved, .deprecated].map fun s => (s.name, s))

def addressStatus : Decoder AddressStatus :=
  choice ([.active, .reserved, .deprecated, .dhcp, .slaac].map fun s => (s.name, s))

/-- The fields for the details of a record, which is changed by `update`. -/
def detailFields (update : (Details → Details) → σ → σ) : List (Field σ) :=
  [.optional "tenant" (option string) fun v => update fun d => { d with tenant := v },
    .optional "description" string fun v => update fun d => { d with description := v },
    .optional "tags" (list string) fun v => update fun d => { d with tags := v }]

/-- A network that stands for one not yet read. -/
def unread : Network :=
  .host (.ofLowBits .v4 0)

def vrf : Decoder Vrf :=
  record "Vrf" ⟨0, "", none, true⟩
    [.mandatory "id" recordId fun v r => { r with id := v },
      .mandatory "name" string fun v r => { r with name := v },
      .optional "rd" (option string) fun v r => { r with rd := v },
      .optional "enforce_unique" bool fun v r => { r with enforceUnique := v }]

def prefixRecord (now : Time.Timestamp) : Decoder PrefixRecord :=
  record "Prefix" ⟨0, unread, none, .active, .blank, now⟩
    ([.mandatory "id" recordId fun v r => { r with id := v },
      .mandatory "prefix" network fun v r => { r with network := v },
      .optional "vrf" (option recordId) fun v r => { r with vrf := v },
      .optional "status" prefixStatus fun v r => { r with status := v }] ++
      detailFields (fun f r => { r with details := f r.details }) ++
      [.optional "created" timestamp fun v r => { r with created := v }])

def rangeRecord (now : Time.Timestamp) : Decoder RangeRecord :=
  record "IpRange" ⟨0, unread, unread, none, .active, .blank, now⟩
    ([.mandatory "id" recordId fun v r => { r with id := v },
      .mandatory "start_address" network fun v r => { r with start := v },
      .mandatory "end_address" network fun v r => { r with stop := v },
      .optional "vrf" (option recordId) fun v r => { r with vrf := v },
      .optional "status" rangeStatus fun v r => { r with status := v }] ++
      detailFields (fun f r => { r with details := f r.details }) ++
      [.optional "created" timestamp fun v r => { r with created := v }])

def addressRecord (now : Time.Timestamp) : Decoder AddressRecord :=
  record "IpAddress" ⟨0, unread, none, .active, "", .blank, now⟩
    ([.mandatory "id" recordId fun v r => { r with id := v },
      .mandatory "address" network fun v r => { r with host := v },
      .optional "vrf" (option recordId) fun v r => { r with vrf := v },
      .optional "status" addressStatus fun v r => { r with status := v },
      .optional "dns_name" string fun v r => { r with dnsName := v }] ++
      detailFields (fun f r => { r with details := f r.details }) ++
      [.optional "created" timestamp fun v r => { r with created := v }])

/-- A catalog; records without a time of creation were created now. -/
def catalog (now : Time.Timestamp) : Decoder Catalog :=
  record "CatalogData" .empty
    [.optional "vrfs" (list vrf) fun v c => { c with vrfs := v },
      .optional "prefixes" (list (prefixRecord now)) fun v c => { c with prefixes := v },
      .optional "ip_ranges" (list (rangeRecord now)) fun v c => { c with ranges := v },
      .optional "ip_addresses" (list (addressRecord now)) fun v c => { c with addresses := v },
      .optional "next_id" recordId fun v c => { c with nextId := v }]

end Decoder

def Catalog.ofText (now : Time.Timestamp) (source : Json.Source) (text : String) : Except Json.TextError Catalog :=
  (Decoder.catalog now).ofText source text

end AddressPlan
