import AddressPlan.Store.Basic

/-!
The allocator: batches as transactions on a store. A batch runs under the advisory lock for its kind, in one
transaction, and leaves the store alone if it is refused. Listings read the store as it is.
-/

namespace AddressPlan

open Net

/-- Where advisory locks are kept: nowhere but in the process, or as files in a directory. -/
inductive Lock where
  | inProcess
  | files (directory : String)
  deriving DecidableEq, Repr

inductive LockError where
  | file (path : String) (fault : FileFault)
  /-- Somebody holds the lock for the key. -/
  | taken (key : LockKey)
  deriving DecidableEq, Repr

def LockError.message : LockError → String
  | file path fault => s!"failed to open lock file {path}: {fault.message}"
  | taken key => s!"waiting for advisory lock {key.text}"

inductive AllocationError where
  | refused (why : Refusal)
  | store (e : StoreError)
  | lock (e : LockError)
  deriving DecidableEq, Repr

def AllocationError.message : AllocationError → String
  | refused why => why.message
  | store e => e.message
  | lock e => e.message

/-- This is no failure: the action waits for a lock. -/
def AllocationError.waits : AllocationError → Bool
  | lock (.taken _) => true
  | store e => e.waits
  | _ => false

namespace Lock

/-- What is held by whoever has the lock for a key. -/
def token (fs : Files) (key : LockKey) : Lock → Token
  | inProcess => .key key
  | files directory => .file (fs.place (Path.join directory key.fileName))

/-- Sees to it that there is something to lock. -/
def prepare (key : LockKey) : Lock → Act LockError Unit
  | inProcess => pure ()
  | files directory => do
    (Act.makeDirectories directory).mapError (.file directory)
    let path := Path.join directory key.fileName
    (Act.changeFiles (·.write path none)).mapError (.file path)

def acquire (key : LockKey) (l : Lock) : Act LockError Unit := do
  l.prepare key
  Act.take (l.token (← get).files key) (.taken key)

def release (key : LockKey) (l : Lock) (s : Site) : Site :=
  (s.note (.released key)).note (.gaveBack (l.token s.files key))

/-- An action under a lock, which is released whatever the outcome. -/
def hold (l : Lock) (key : LockKey) (act : Act AllocationError α) : Act AllocationError α := do
  (l.acquire key).mapError .lock
  act.andFinally AllocationError.waits (l.release key)

end Lock

structure Allocator where
  store : Store
  lock : Lock
  lockScope : LockScope
  validators : List Validator

namespace Allocator

/-- The validators that every allocator has come first. -/
def of (store : Store) (lock : Lock) (lockScope : LockScope) (uniqueGlobally : Bool)
    (permissions : Validator.Permissions) (further : List Validator) : Allocator :=
  ⟨store, lock, lockScope, .uniqueness uniqueGlobally :: .permission permissions :: further⟩

/-! ### Listings -/

/-- All free networks of a prefix, lowest first. -/
def availablePrefixes (a : Allocator) (id : RecordId) : Act AllocationError (Scope × List Network) := do
  let scope ← (a.store.scope (.prefixRecord id) .prefixes).mapError .store
  Act.note (.loadedPrefixes scope.children.length scope.label)
  return (scope, scope.space.networks)

/-- The lowest free addresses of a parent, as many as the limit allows. -/
def availableAddresses (a : Allocator) (parent : Parent) (limit : Nat) :
    Act AllocationError (Scope × List Address) := do
  let scope ← (a.store.scope parent .addresses).mapError .store
  Act.note (.loadedBlocks scope.children.length scope.label)
  return (scope, scope.space.lowest limit)

/-! ### Allocations -/

/-- A batch in one transaction under its lock; `done` is noted when it has succeeded. -/
def transact (a : Allocator) (mode : Mode) (parent : Parent)
    (batch : Clock → Catalog → Except Refusal (Allocated α)) (done : Allocated α → Event) :
    Act AllocationError (Allocated α) :=
  a.lock.hold (.of mode parent a.lockScope) do
    let c ← a.store.begin.mapError .store
    match batch (← get).clock c with
    | .error why =>
      Act.note (.refused why)
      a.store.abandon (.refused why)
    | .ok r =>
      (a.store.commit r.catalog).mapError .store
      Act.note (done r)
      return r

def allocatePrefixes (a : Allocator) (id : RecordId) (requests : List PrefixRequest) :
    Act AllocationError (Allocated PrefixRecord) :=
  a.transact .prefixes (.prefixRecord id)
    (fun clock c => AddressPlan.allocatePrefixes a.validators clock c id requests)
    fun r => .allocatedPrefixes r.scope.label (r.created.map (·.network))

def allocateAddresses (a : Allocator) (parent : Parent) (requests : List AddressRequest) :
    Act AllocationError (Allocated AddressRecord) :=
  a.transact .addresses parent
    (fun clock c => AddressPlan.allocateAddresses a.validators clock c parent requests)
    fun r => .allocatedAddresses r.scope.label (r.created.map (·.host))

end Allocator

end AddressPlan
