import AddressPlan.Config.Basic
import AddressPlan.Service.Response

/-!
The service: listings and allocations as requests with JSON bodies, answered by responses. Every failure has a
response of its own except one: when the ids have run out there is no answer at all. Nor is there one while a request
waits for a lock.
-/

namespace AddressPlan

/-- Why a request has no answer. -/
inductive NoAnswer where
  | exhausted
  | waiting
  deriving DecidableEq, Repr

/-- The first reason is the only one if a request is made at a time. -/
abbrev IdsExhausted :=
  NoAnswer

namespace Service

/-- The answer to a failure. What is nobody's fault outside is noted. -/
def answerError (isMany : Bool) (e : AllocationError) : Act NoAnswer Response :=
  match e with
  | .refused .exhausted => throw .exhausted
  | .lock (.taken _) | .store (.io _ .locked) => throw .waiting
  | .refused (.badLengths _ items) | .refused (.rejected items) => return .invalid isMany items
  | .refused (.noRoom ..) | .refused (.tooFew ..) => return .detail 409 e.message
  | .refused (.denied detail) => return .detail 403 detail
  | .refused (.catalog (.notFound ..)) | .store (.catalog (.notFound ..)) => return .notFound
  | _ => do
    Act.note (.failed e.message)
    return .detail 500 e.message

def answer (isMany : Bool) (act : Act AllocationError α) (respond : α → Response) : Act NoAnswer Response :=
  fun s =>
    match act s with
    | .ok a s => .ok (respond a) s
    | .error e s => answerError isMany e s

def getPrefixes (a : Allocator) (id : RecordId) : Act NoAnswer Response :=
  answer false (a.availablePrefixes id) fun (scope, networks) =>
    .listing (networks.map (Response.freeNetworkJson scope.vrf))

def getAddresses (a : Allocator) (parent : Parent) (limit : Option String) (pages : Pagination) :
    Act NoAnswer Response :=
  answer false (a.availableAddresses parent (pages.limit limit)) fun (scope, addresses) =>
    .listing (addresses.map (Response.freeAddressJson scope))

def postPrefixes (a : Allocator) (id : RecordId) (body : Json) : Act NoAnswer Response :=
  match Body.decode .prefixRequest body with
  | .error items => return .invalid body.isArray items
  | .ok requests =>
    answer body.isArray (a.allocatePrefixes id requests.items) fun r =>
      .created body.isArray (r.created.map (Response.prefixJson r.scope.vrf))

def postAddresses (a : Allocator) (parent : Parent) (body : Json) : Act NoAnswer Response :=
  match Body.decode .addressRequest body with
  | .error items => return .invalid body.isArray items
  | .ok requests =>
    answer body.isArray (a.allocateAddresses parent requests.items) fun r =>
      .created body.isArray (r.created.map (Response.addressJson r.scope.vrf))

end Service

end AddressPlan
