import AddressPlan.Net.Block
import AddressPlan.Time.Timestamp

/-!
The records of a catalog: routing domains, prefixes, ranges and addresses. A prefix and an address belong to a
routing domain or to the global table, and so does a range. The two bounds of a range carry the mask length of
the network they lie in, which has to be the same for both.
-/

namespace AddressPlan

open Net

abbrev RecordId := UInt64

/-- A routing domain: the same addresses may exist once in each. -/
structure Vrf where
  id : RecordId
  name : String
  /-- The route distinguisher. -/
  rd : Option String
  /-- Whether duplicate prefixes and addresses are refused in it. -/
  enforceUnique : Bool
  deriving DecidableEq, Repr

/-! ### Statuses -/

inductive PrefixStatus where
  | container
  | active
  | reserved
  | deprecated
  deriving DecidableEq, Repr

inductive RangeStatus where
  | active
  | reserved
  | deprecated
  deriving DecidableEq, Repr

inductive AddressStatus where
  | active
  | reserved
  | deprecated
  | dhcp
  | slaac
  deriving DecidableEq, Repr

def PrefixStatus.name : PrefixStatus → String
  | container => "container"
  | active => "active"
  | reserved => "reserved"
  | deprecated => "deprecated"

def RangeStatus.name : RangeStatus → String
  | active => "active"
  | reserved => "reserved"
  | deprecated => "deprecated"

def AddressStatus.name : AddressStatus → String
  | active => "active"
  | reserved => "reserved"
  | deprecated => "deprecated"
  | dhcp => "dhcp"
  | slaac => "slaac"

/-! ### Records -/

/-- What is noted about a record and has no bearing on the addresses. -/
structure Details where
  tenant : Option String
  description : String
  tags : List String
  deriving DecidableEq, Repr

def Details.blank : Details :=
  ⟨none, "", []⟩

structure PrefixRecord where
  id : RecordId
  network : Network
  vrf : Option RecordId
  status : PrefixStatus
  details : Details
  created : Time.Timestamp
  deriving DecidableEq, Repr

structure RangeRecord where
  id : RecordId
  start : Network
  stop : Network
  vrf : Option RecordId
  status : RangeStatus
  details : Details
  created : Time.Timestamp
  deriving DecidableEq, Repr

/-- An address together with the mask length of its network. -/
structure AddressRecord where
  id : RecordId
  host : Network
  vrf : Option RecordId
  status : AddressStatus
  dnsName : String
  details : Details
  created : Time.Timestamp
  deriving DecidableEq, Repr

namespace PrefixRecord

def block (p : PrefixRecord) : Block :=
  .ofNetwork p.network

/-- A container in the global table may hold children from any routing domain. -/
def spansAllVrfs (p : PrefixRecord) : Bool :=
  p.vrf.isNone && p.status == .container

end PrefixRecord

namespace RangeRecord

def span (r : RangeRecord) : Except BlockError Span :=
  if r.start.length = r.stop.length then Span.between r.start.address r.stop.address
  else .error (.maskMismatch r.start r.stop)

def maskLength (r : RangeRecord) : Nat :=
  r.start.length

def text (r : RangeRecord) : String :=
  r.start.text ++ "-" ++ r.stop.text

end RangeRecord

/-! ### Records to be created -/

/-- A clock as a call reads it: at its start, and for each record that it creates. No two of these have the same id, so the
reading for a record is known by its id. -/
structure Clock where
  start : Time.Timestamp
  creation : RecordId → Time.Timestamp

/-- A clock that stands still. -/
instance : Coe Time.Timestamp Clock where
  coe t := ⟨t, fun _ => t⟩

/-- A prefix record without what the catalog assigns to it: the id and the time. -/
structure NewPrefix where
  network : Network
  vrf : Option RecordId
  status : PrefixStatus
  details : Details
  deriving DecidableEq, Repr

structure NewAddress where
  host : Network
  vrf : Option RecordId
  status : AddressStatus
  dnsName : String
  details : Details
  deriving DecidableEq, Repr

def NewPrefix.record (new : NewPrefix) (id : RecordId) (now : Time.Timestamp) : PrefixRecord :=
  ⟨id, new.network, new.vrf, new.status, new.details, now⟩

def NewAddress.record (new : NewAddress) (id : RecordId) (now : Time.Timestamp) : AddressRecord :=
  ⟨id, new.host, new.vrf, new.status, new.dnsName, new.details, now⟩

end AddressPlan
