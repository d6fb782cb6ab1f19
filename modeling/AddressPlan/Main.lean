import AddressPlan.Command.Run
import Std.Time.DateTime.Timestamp

/-!
The program. It looks at the files that a command can touch, runs the command on what it has seen, and puts what
has changed into the real files. A command that changes anything is run a second time under the locks it takes,
on files that nobody else changes meanwhile.
-/

open AddressPlan

namespace AddressPlan.Program

def currentTime : IO Time.Timestamp := do
  let t ← Std.Time.Timestamp.now
  match Time.Timestamp.ofUnix? t.val.second.val t.val.nano.val.toNat with
  | some t => return t
  | none => throw (IO.userError "the clock is out of range")

def locations (working : Location) (path : String) : List Location :=
  let names := ((Path.parts path).map String.ofList).filter fun n => n != "" && n != "."
  let all := if path.startsWith "/" then names else working ++ names
  (List.range all.length).map fun i => all.take (i + 1)

def absolute (l : Location) : String :=
  "/" ++ "/".intercalate l

def look (l : Location) : IO (Option Entry) := do
  let path := (← IO.currentDir) / absolute l
  if ← path.isDir then return some .directory
  else if ← path.pathExists then return some (.text (← IO.FS.readFile path))
  else return none

def lookAll (paths : List String) : IO Files := do
  let working := ((Path.parts (← IO.currentDir).toString).map String.ofList).filter (· != "")
  let mut fs : Files := ⟨[], working⟩
  for l in (paths.flatMap (locations working) ++ locations [] (absolute working)) do
    if (fs.at? l).isNone then
      if let some e ← look l then fs := fs.put l e
  return fs

/-- The advisory lock of a command, as a file. -/
def lockFile? (args : Arguments) (c : Config) : Option String :=
  let key? : Option LockKey :=
    match args.command with
    | .prefixes id (some _) => some (.of .prefixes (.prefixRecord id) c.locking.scope)
    | .addresses parent _ (some _) => some (.of .addresses parent c.locking.scope)
    | _ => none
  match c.lock with
  | .files directory => key?.map fun key => Path.join directory key.fileName
  | .inProcess => none

def readPaths (args : Arguments) : List String :=
  args.config.toList ++
    match args.command with
    | .seed path => [path]
    | .prefixes _ body => body.toList
    | .addresses _ _ body => body.toList

def writePaths (args : Arguments) (c : Config) : List String :=
  (lockFile? args c).toList ++
    [Store.lockPath c.catalogPath, Store.temporaryPath c.catalogPath, c.catalogPath]

/-- The site of a command; its configuration says where else to look. -/
def site (args : Arguments) : IO Site := do
  let seen ← lookAll (readPaths args)
  let paths := match Command.config args seen with
    | .ok c => readPaths args ++ writePaths args c
    | .error _ => readPaths args
  return ⟨← lookAll paths, .empty, ← currentTime, []⟩

/-- Writes what has changed. A text replaces another one at once. -/
def write (before after : Files) : IO Unit := do
  for (l, e) in after.entries do
    if before.at? l != some e then
      match e with
      | .directory => IO.FS.createDirAll (absolute l)
      | .text content =>
        let temporary := Store.temporaryPath (absolute l)
        IO.FS.writeFile temporary content
        IO.FS.rename temporary (absolute l)

/-- Waits for a lock and holds it as long as the handle is kept. -/
def holdLock (path : String) : IO IO.FS.Handle := do
  if let some parent := Path.parent? path then
    if !parent.isEmpty then IO.FS.createDirAll parent
  let handle ← IO.FS.Handle.mk path .append
  handle.lock
  return handle

/-- Runs a command, under its locks if it changes files. -/
def execute (args : Arguments) (standardInput : String) : IO (Outcome × Site) := do
  let before ← site args
  let (outcome, after) := Command.outcome args standardInput before
  if after.files == before.files then return (outcome, after)
  else
    let locks := match Command.config args before.files with
      | .ok c => (lockFile? args c).toList ++ [Store.lockPath c.catalogPath]
      | .error _ => []
    let mut handles : Array IO.FS.Handle := #[]
    for path in locks do
      try handles := handles.push (← holdLock path)
      catch _ => break
    let before ← site args
    let (outcome, after) := Command.outcome args standardInput before
    write before.files after.files
    for handle in handles do handle.unlock
    return (outcome, after)

def readsInput (args : Arguments) : Bool :=
  match args.command with
  | .seed _ => false
  | .prefixes _ body => body == some "-"
  | .addresses _ _ body => body == some "-"

def report (o : Outcome) : IO UInt32 := do
  IO.print o.output
  if let some e := o.error then IO.eprintln s!"Error: {e.message}"
  return o.code.toUInt32

end AddressPlan.Program

def main (words : List String) : IO UInt32 := do
  match Arguments.ofWords words with
  | .error h =>
    if h == .misuse then IO.eprint Halt.usage
    Program.report h.outcome
  | .ok args =>
    let input ← if Program.readsInput args then (← IO.getStdin).readToEnd else pure ""
    let (outcome, after) ← Program.execute args input
    for e in after.events do
      if e.level != .debug then
        if let some text := e.text? then IO.eprintln s!"{e.level.name}: {text}"
    Program.report outcome
