import AddressPlan.Allocation.Allocator
import AddressPlan.Text.Blank

/-!
The configuration of an allocator, and what makes one valid. Validity is checked section by section; the first
section that is wrong is the one that is reported.
-/

namespace AddressPlan

open Validator (Permissions)

inductive LockBackend where
  | file
  | inProcess
  deriving DecidableEq, Repr

def LockBackend.name : LockBackend → String
  | file => "file"
  | inProcess => "local"

structure Locking where
  backend : LockBackend
  directory : String
  scope : LockScope
  deriving DecidableEq, Repr

structure Pagination where
  /-- The number where none is asked for. -/
  count : Nat
  /-- The greatest number, where zero is no bound. -/
  most : Nat
  deriving DecidableEq, Repr

structure Config where
  logLevel : Option String
  catalogPath : String
  locking : Locking
  pagination : Pagination
  uniqueGlobally : Bool
  permissions : Permissions
  deriving DecidableEq, Repr

def Locking.default : Locking :=
  ⟨.file, "/tmp/ipam-allocator-locks", .global⟩

def Pagination.default : Pagination :=
  ⟨50, 1000⟩

def Config.default : Config :=
  ⟨none, "ipam.json", .default, .default, false, .all⟩

/-! ### Validity -/

inductive ConfigError where
  | unknownLevel (level : String)
  | noCatalogPath
  | noLockDirectory
  | countIsZero
  | countTooLarge (count most : Nat)
  | unknownStatus (status : String)
  deriving DecidableEq, Repr

def logLevels : List String :=
  ["error", "warn", "info", "debug", "trace", "off"]

def knownStatuses : List String :=
  ["container", "active", "reserved", "deprecated", "dhcp", "slaac"]

def ConfigError.message : ConfigError → String
  | unknownLevel level =>
    let levels := ", ".intercalate logLevels
    s!"Invalid general configuration: unknown log_level '{level}' (expected one of {levels})"
  | noCatalogPath => "Invalid catalog configuration: catalog path cannot be empty"
  | noLockDirectory =>
    "Invalid locking configuration: lock directory cannot be empty for the file backend"
  | countIsZero => "Invalid pagination configuration: paginate_count must be greater than zero"
  | countTooLarge count most =>
    s!"Invalid pagination configuration: paginate_count ({count}) cannot exceed max_page_size ({most})"
  | unknownStatus status => s!"Invalid permissions configuration: unknown status '{status}'"

namespace Config

def levelName (level : String) : String :=
  .ofList (level.toList.map Char.toLower)

def problem? (c : Config) : Option ConfigError :=
  let level := c.logLevel.bind fun l => if logLevels.contains (levelName l) then none else some l
  match level with
  | some l => some (.unknownLevel l)
  | none =>
    if c.catalogPath.isEmpty then some .noCatalogPath
    else if c.locking.backend = .file ∧ c.locking.directory.isEmpty then some .noLockDirectory
    else if c.pagination.count = 0 then some .countIsZero
    else if 0 < c.pagination.most ∧ c.pagination.most < c.pagination.count then
      some (.countTooLarge c.pagination.count c.pagination.most)
    else ((c.permissions.statuses.getD []).find? (!knownStatuses.contains ·)).map .unknownStatus

def validate (c : Config) : Except ConfigError Unit :=
  match c.problem? with
  | some e => .error e
  | none => .ok ()

/-! ### Use -/

structure Overrides where
  catalogPath : Option String
  lockDirectory : Option String
  deriving DecidableEq, Repr

/-- A configuration with what the caller says instead, which has to be valid again. -/
def override (c : Config) (o : Overrides) : Except ConfigError Config := do
  let c := { c with
    catalogPath := o.catalogPath.getD c.catalogPath
    locking := { c.locking with directory := o.lockDirectory.getD c.locking.directory } }
  c.validate
  return c

def lock (c : Config) : Lock :=
  match c.locking.backend with
  | .file => .files c.locking.directory
  | .inProcess => .inProcess

def allocator (c : Config) (further : List Validator) : Allocator :=
  .of (.file c.catalogPath) c.lock c.locking.scope c.uniqueGlobally c.permissions further

end Config

/-- How many addresses to list: what is asked for, if that is a positive number, within the bound. -/
def Pagination.limit (p : Pagination) (asked : Option String) : Nat :=
  let number (s : String) : Option Nat :=
    let cs := Text.trim s.toList
    (Text.number? 10 (if cs.head? = some '+' then cs.drop 1 else cs)).filter fun n => 0 < n ∧ n ≤ Json.maxInteger
  let limit := (asked.bind number).getD p.count
  if 0 < p.most then min limit p.most else limit

end AddressPlan
