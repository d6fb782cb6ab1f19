import AddressPlan.Store.Site

/-!
Where a catalog is kept: in memory, or as a text in a file. A transaction works on a copy of the catalog, which
replaces the kept one as a whole when it is committed. The file has two companions: a lock file, which is locked as long
as a transaction is open, and a temporary file, which takes its place on commit. The catalog in memory is locked in
such a transaction too, by a lock that nothing else can take.
-/

namespace AddressPlan

inductive Store where
  | memory
  | file (path : String)
  deriving DecidableEq, Repr

inductive ReadFault where
  | text (e : Json.TextError)
  | file (e : FileFault)
  deriving DecidableEq, Repr

def ReadFault.message : ReadFault → String
  | text e => e.message
  | file e => e.message

/-- What stands against the use of a file. -/
inductive Obstacle where
  | fault (e : FileFault)
  /-- Somebody holds the lock on the file. -/
  | locked
  deriving DecidableEq, Repr

def Obstacle.message : Obstacle → String
  | fault e => e.message
  | locked => "waiting for the lock"

inductive StoreError where
  | io (path : String) (why : Obstacle)
  | format (path : String) (fault : ReadFault)
  | catalog (e : CatalogError)
  deriving DecidableEq, Repr

def StoreError.message : StoreError → String
  | io path why => s!"catalog I/O error on {path}: {why.message}"
  | format path fault => s!"catalog file {path} is not valid JSON: {fault.message}"
  | catalog e => e.message

/-- This is no failure: the action waits for a lock. -/
def StoreError.waits : StoreError → Bool
  | io _ .locked => true
  | _ => false

namespace Store

def lockPath (path : String) : String :=
  path ++ ".lock"

def temporaryPath (path : String) : String :=
  path ++ ".tmp"

/-- The catalog in a file; without the file it is empty. A directory can be opened, but not read. -/
def load (clock : Clock) (fs : Files) (path : String) : Except StoreError Catalog :=
  match fs.read path with
  | .ok text => (Catalog.ofText clock.start .stream text).mapError fun e => .format path (.text e)
  | .error .notFound => .ok .empty
  | .error .isDirectory => .error (.format path (.file .isDirectory))
  | .error e => .error (.io path (.fault e))

/-- The catalog as it is kept now. -/
def snapshot : Store → Act StoreError Catalog
  | memory => return (← get).memory
  | file path => do
    let s ← get
    Act.ofExcept (load s.clock s.files path)

def scope (st : Store) (parent : Parent) (mode : Mode) : Act StoreError Scope := do
  Act.ofExcept (((← st.snapshot).scope parent mode).mapError .catalog)

/-- Changes files, of which the given one is at fault if that fails. -/
def changeFiles (path : String) (f : Files → Except FileFault Files) : Act StoreError Unit :=
  (Act.changeFiles f).mapError fun e => .io path (.fault e)

/-- Sees to it that there is a file to lock, beside the catalog. -/
def prepare (path : String) : Act StoreError Unit := do
  match Path.parent? path with
  | some parent => if !parent.isEmpty then (Act.makeDirectories parent).mapError fun e => .io parent (.fault e)
  | none => pure ()
  changeFiles (lockPath path) (·.write (lockPath path) none)

/-- What is held while a transaction on the file is open. -/
def token (fs : Files) (path : String) : Token :=
  .file (fs.place (lockPath path))

/-- The end of a transaction: its lock is given back. -/
def release : Store → Site → Site
  | memory, s => s
  | file path, s => s.note (.gaveBack (token s.files path))

/-- Opens a transaction: the catalog to work on. -/
def begin : Store → Act StoreError Catalog
  | memory => snapshot memory
  | file path => do
    prepare path
    Act.take (token (← get).files path) (.io (lockPath path) .locked)
    Act.note (.opened path)
    (snapshot (file path)).ifFails (file path).release

/-- Ends a transaction without a change. -/
def abandon (st : Store) (why : ε) : Act ε α := do
  modify st.release
  throw why

/-- Puts the catalog in the place of the one that was kept. -/
def publish (c : Catalog) : Store → Act StoreError Unit
  | memory => modify fun s => { s with memory := c }
  | file path => do
    let temporary := temporaryPath path
    changeFiles temporary (·.write temporary (some c.text))
    changeFiles path (·.rename temporary path)
    Act.note (.committed path)

/-- Ends a transaction with a new catalog, if the files allow it. -/
def commit (c : Catalog) (st : Store) : Act StoreError Unit :=
  (st.publish c).andFinally StoreError.waits st.release

def seed (records : Catalog) (st : Store) : Act StoreError Unit := do
  match (← st.begin).merge records with
  | .error e => st.abandon (.catalog e)
  | .ok c => st.commit c

end Store

end AddressPlan
