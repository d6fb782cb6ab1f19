import AddressPlan.Files.Path

/-!
A tree of files: directories and texts, under absolute paths. The calls are those of a file system, with its
faults; each is a single step. There are no links, so a path means what its parts say.
-/

namespace AddressPlan

inductive FileFault where
  | notFound
  | alreadyThere
  | notDirectory
  | isDirectory
  | nameTooLong
  | zeroInPath
  deriving DecidableEq, Repr

def FileFault.message : FileFault → String
  | notFound => "No such file or directory (os error 2)"
  | alreadyThere => "File exists (os error 17)"
  | notDirectory => "Not a directory (os error 20)"
  | isDirectory => "Is a directory (os error 21)"
  | nameTooLong => "File name too long (os error 36)"
  | zeroInPath => "file name contained an unexpected NUL byte"

inductive Entry where
  | directory
  | text (content : String)
  deriving DecidableEq, Repr

/-- The names from the root down. -/
abbrev Location := List String

/-- All directories and files except the root, and the working directory. -/
structure Files where
  entries : List (Location × Entry)
  working : Location
  deriving DecidableEq, Repr

namespace Files

def at? (fs : Files) (l : Location) : Option Entry :=
  if l.isEmpty then some .directory else (fs.entries.find? (·.1 == l)).map (·.2)

/-- Puts an entry at a location, in place of what is there. -/
def put (fs : Files) (l : Location) (e : Entry) : Files :=
  { fs with entries := fs.entries.filter (·.1 != l) ++ [(l, e)] }

def drop (fs : Files) (l : Location) : Files :=
  { fs with entries := fs.entries.filter (·.1 != l) }

/-! ### Resolving paths -/

/-- The most bytes in a name, and in a path. -/
def maxName : Nat := 255

def maxPath : Nat := 4095

/-- Follows the parts of a path from a directory. All parts but the last have to be directories. -/
def walk (fs : Files) : Location → List String → Except FileFault Location
  | l, [] => .ok l
  | l, part :: parts =>
    if part = "." then walk fs l parts
    else if part = ".." then walk fs l.dropLast parts
    else if maxName < part.utf8ByteSize then .error .nameTooLong
    else if parts.isEmpty then .ok (l ++ [part])
    else
      match fs.at? (l ++ [part]) with
      | none => .error .notFound
      | some (.text _) => .error .notDirectory
      | some .directory => walk fs (l ++ [part]) parts

def start (fs : Files) (path : String) : Location :=
  if Path.isAbsolute path then [] else fs.working

/-- Where one name leads, whatever is there. -/
def step (l : Location) (name : String) : Location :=
  if name = "." then l else if name = ".." then l.dropLast else l ++ [name]

/-- Where a path leads if it can be followed. -/
def place (fs : Files) (path : String) : Location :=
  (Path.words path).foldl step (fs.start path)

/-- The location of a path, where there need not be anything yet. -/
def locate (fs : Files) (path : String) : Except FileFault Location :=
  if path.toList.contains '\x00' then .error .zeroInPath
  else if path.isEmpty then .error .notFound
  else if maxPath < path.utf8ByteSize then .error .nameTooLong
  else fs.walk (fs.start path) (Path.names path)

/-! ### Reading and writing -/

def read (fs : Files) (path : String) : Except FileFault String := do
  match fs.at? (← fs.locate path) with
  | none => throw .notFound
  | some .directory => throw .isDirectory
  | some (.text content) => return content

/-- Writes a text, in place of the one that is there; without a text, only sees to it that there is a file. -/
def write (fs : Files) (path : String) (content? : Option String) : Except FileFault Files := do
  let l ← fs.locate path
  match fs.at? l, content? with
  | some .directory, _ => throw .isDirectory
  | some (.text _), none => return fs
  | none, none => return fs.put l (.text "")
  | _, some content => return fs.put l (.text content)

def rename (fs : Files) (source target : String) : Except FileFault Files := do
  let s ← fs.locate source
  let t ← fs.locate target
  match fs.at? s, fs.at? t with
  | none, _ => throw .notFound
  | _, some .directory => throw .isDirectory
  | some e, _ => return (fs.drop s).put t e

/-! ### Directories -/

/-- Makes a directory, unless something is there. -/
def makeOne (fs : Files) (path : String) : Except FileFault Files := do
  let named := (path.toList.reverse.dropWhile (· == '/')).reverse
  let l ← fs.locate (if named.isEmpty then path else .ofList named)
  match fs.at? l with
  | some _ => throw .alreadyThere
  | none => return fs.put l .directory

def isDirectory (fs : Files) (path : String) : Bool :=
  match fs.locate path with
  | .ok l => fs.at? l == some .directory
  | .error _ => false

/-- Makes a directory, or accepts the one that is there. -/
def makeOrAccept (fs : Files) (path : String) : Except FileFault Files :=
  match fs.makeOne path with
  | .ok fs => .ok fs
  | .error e => if fs.isDirectory path then .ok fs else .error e

/-- A fault that leaves directories behind which were made before it. -/
structure Interrupted where
  fault : FileFault
  files : Files
  deriving DecidableEq, Repr

def makeLast (fs : Files) (path : String) : Except Interrupted Files :=
  (fs.makeOrAccept path).mapError (⟨·, fs⟩)

/-- Makes a directory and at most `depth` of those it lies in. -/
def makeAll (fs : Files) : (depth : Nat) → (path : String) → Except Interrupted Files
  | 0, path => fs.makeLast path
  | depth + 1, path =>
    match fs.makeOne path with
    | .error .notFound =>
      match Path.parent? path with
      | none => .error ⟨.notFound, fs⟩
      | some parent => do (← fs.makeAll depth parent).makeLast path
    | _ => fs.makeLast path

/-- Makes a directory and those it lies in, which are no more than the characters of the path. The empty path
stands for the working directory, which is there. -/
def makeDirectories (fs : Files) (path : String) : Except Interrupted Files :=
  if path.isEmpty then .ok fs else fs.makeAll path.length path

/-! ### Listing -/

/-- The paths below the working directory in ascending order, where directories end in a slash. -/
def listing (fs : Files) : List String :=
  let shown := fs.entries.filterMap fun (l, e) =>
    if fs.working.isPrefixOf l && l.length != fs.working.length then
      let path := "/".intercalate (l.drop fs.working.length)
      some (match e with | .directory => path ++ "/" | .text _ => path)
    else none
  shown.mergeSort fun a b => decide (a ≤ b)

end Files

end AddressPlan
