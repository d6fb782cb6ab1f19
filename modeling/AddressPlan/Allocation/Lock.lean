import AddressPlan.Catalog.Scope
import AddressPlan.Files.Basic

/-!
Advisory locks: what they are called, and what is held with them. Allocations of one kind exclude each other, all of
them or only those from the same parent, as the scope of the locks says; a lock that is kept as a file has a name of
its own.
-/

namespace AddressPlan

/-- Whom an allocation excludes. -/
inductive LockScope where
  | global
  /-- Those of its kind from the same parent. -/
  | parent
  deriving DecidableEq, Repr

def LockScope.name : LockScope → String
  | global => "global"
  | parent => "parent"

/-- The number under which all clients know the lock for a kind of allocation. -/
def Mode.lockNumber : Mode → Nat
  | prefixes => 100100
  | addresses => 100300

def Mode.lockName : Mode → String
  | prefixes => "available-prefixes"
  | addresses => "available-ips"

structure LockKey where
  mode : Mode
  parent : Option Parent
  deriving DecidableEq, Repr

namespace LockKey

def global (mode : Mode) : LockKey :=
  ⟨mode, none⟩

def of (mode : Mode) (parent : Parent) : LockScope → LockKey
  | .global => global mode
  | .parent => ⟨mode, some parent⟩

def fileName (k : LockKey) : String :=
  match k.parent with
  | none => s!"ipam-{k.mode.lockNumber}.lock"
  | some (.prefixRecord id) => s!"ipam-{k.mode.lockNumber}-prefix-{id}.lock"
  | some (.rangeRecord id) => s!"ipam-{k.mode.lockNumber}-iprange-{id}.lock"

def text (k : LockKey) : String :=
  let lock := s!"{k.mode.lockName} ({k.mode.lockNumber})"
  match k.parent with
  | none => lock
  | some p => s!"{lock} on {p.text}"

end LockKey

/-- What can be held by one only: a key within a process, or the lock on a file. -/
inductive Token where
  | key (k : LockKey)
  | file (l : Location)
  deriving DecidableEq, Repr

end AddressPlan
