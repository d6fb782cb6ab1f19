import AddressPlan.Files.Basic
import AddressPlan.Store.Event

/-!
The site at which a catalog is used: the files, the catalog that is held in memory, the clock, and the
events noted so far. An action changes the site, and what it has changed stays changed if it fails. Which locks are held
is known from the events; an action that asks for one of them waits, and nothing follows.
-/

namespace AddressPlan

structure Site where
  files : Files
  memory : Catalog
  clock : Clock
  events : List Event

namespace Site

def note (e : Event) (s : Site) : Site :=
  { s with events := s.events ++ [e] }

/-- The locks that have been taken and not given back. -/
def held (s : Site) : List Token :=
  s.events.foldl Event.heldAfter []

end Site

/-- An action at a site, which may fail with an `ε`. -/
abbrev Act (ε : Type) := EStateM ε Site

namespace Act

/-- Fails or gives a result that is known already. -/
def ofExcept : Except ε α → Act ε α
  | .ok a => pure a
  | .error e => throw e

def note (e : Event) : Act ε Unit :=
  modify (·.note e)

/-- Takes a lock that nobody holds. While somebody does, the action waits: it has no outcome, and is told by the `waiting`
that stands for that. -/
def take (t : Token) (waiting : ε) : Act ε Unit := do
  if t ∈ (← get).held then throw waiting else note (.took t)

/-- An action whose failures are put in other terms. -/
def mapError (f : ε → ε') (act : Act ε α) : Act ε' α := fun s =>
  match act s with
  | .ok a s => .ok a s
  | .error e s => .error (f e) s

/-- An action, and what is done at its end, whatever its outcome. One that waits has not come to its end. -/
def andFinally (act : Act ε α) (waits : ε → Bool) (last : Site → Site) : Act ε α := fun s =>
  match act s with
  | .ok a s => .ok a (last s)
  | .error e s => .error e (if waits e then s else last s)

/-- An action, and what is done if it fails. -/
def ifFails (act : Act ε α) (last : Site → Site) : Act ε α := fun s =>
  match act s with
  | .ok a s => .ok a s
  | .error e s => .error e (last s)

/-- Changes the files, if the file system does not refuse. -/
def changeFiles (f : Files → Except FileFault Files) : Act FileFault Unit := do
  match f (← get).files with
  | .ok fs => modify fun s => { s with files := fs }
  | .error e => throw e

/-- Makes a directory and those it lies in. If that fails, the directories made so far stay. -/
def makeDirectories (path : String) : Act FileFault Unit := do
  match (← get).files.makeDirectories path with
  | .ok fs => modify fun s => { s with files := fs }
  | .error e =>
    modify fun s => { s with files := e.files }
    throw e.fault

end Act

end AddressPlan
