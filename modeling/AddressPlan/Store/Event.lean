import AddressPlan.Allocation.Batch
import AddressPlan.Allocation.Lock
import AddressPlan.Text.Quoted

/-!
What is noted while a catalog is used: one line for each event, with a level that says how much it matters. That a lock
is taken or given back is an event without a line.
-/

namespace AddressPlan

open Net

inductive Level where
  | error
  | warn
  | info
  | debug
  deriving DecidableEq, Repr

def Level.name : Level → String
  | error => "error"
  | warn => "warn"
  | info => "info"
  | debug => "debug"

inductive Event where
  | opened (path : String)
  | committed (path : String)
  | released (key : LockKey)
  | loadedPrefixes (count : Nat) (label : String)
  | loadedBlocks (count : Nat) (label : String)
  | allocatedPrefixes (label : String) (networks : List Network)
  | allocatedAddresses (label : String) (networks : List Network)
  | refused (why : Refusal)
  | failed (message : String)
  | took (t : Token)
  | gaveBack (t : Token)
  deriving DecidableEq, Repr

/-- What is noted about a refusal, if it is the outcome of the batch itself. -/
def Refusal.line? : Refusal → Option String
  | badLengths label items => some s!"Rejected batch of {items.length} prefix(es) from {label}: invalid lengths"
  | noRoom requested label length =>
    some s!"Rejected batch of {requested} prefix(es) from {label}: no room for a /{length}"
  | tooFew requested label available =>
    some s!"Rejected batch of {requested} address(es) from {label}: {available} available"
  | rejected items => some s!"Rolled back allocation: {items.length} record(s) failed validation"
  | denied _ => some "Rolled back allocation: permission denied"
  | catalog _ | block _ | exhausted => none

namespace Event

def networkList (ns : List Network) : String :=
  ", ".intercalate (ns.map Network.text)

def level : Event → Level
  | opened _ | committed _ | released _ | loadedPrefixes _ _ | loadedBlocks _ _ | took _ | gaveBack _ => .debug
  | allocatedPrefixes _ _ | allocatedAddresses _ _ => .info
  | refused _ => .warn
  | failed _ => .error

/-- The line for an event; locks and some refusals have none. -/
def text? : Event → Option String
  | opened path => some s!"Opened catalog transaction on {Text.quotedPath path}"
  | committed path => some s!"Committed catalog transaction on {Text.quotedPath path}"
  | released key => some s!"Released advisory lock {key.text}"
  | loadedPrefixes count label => some s!"Loaded {count} child prefixes of {label}"
  | loadedBlocks count label => some s!"Loaded {count} occupied blocks in {label}"
  | allocatedPrefixes label ns => some s!"Allocated {ns.length} prefix(es) from {label}: {networkList ns}"
  | allocatedAddresses label ns => some s!"Allocated {ns.length} address(es) from {label}: {networkList ns}"
  | refused why => why.line?
  | failed message => some s!"Allocation failed: {message}"
  | took _ | gaveBack _ => none

/-- What is held after an event, if these were held before it. -/
def heldAfter (held : List Token) : Event → List Token
  | took t => t :: held
  | gaveBack t => held.filter (· != t)
  | _ => held

end Event

end AddressPlan
