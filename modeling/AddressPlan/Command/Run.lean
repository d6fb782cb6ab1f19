import AddressPlan.Command.Arguments
import AddressPlan.Command.Input
import AddressPlan.Json.Printer
import AddressPlan.Service.Basic

/-!
Running a command. The configuration is loaded and overridden, then the command reads what it needs and works on
the store. What a request answers is printed whether or not it succeeds.
-/

namespace AddressPlan

inductive CommandError where
  | input (e : InputError)
  | seed (path : String) (e : StoreError)
  | request (status : Nat)
  | exhausted
  /-- A lock is held by somebody else, and the run does not end. -/
  | waiting
  deriving DecidableEq, Repr

def CommandError.message : CommandError → String
  | input e => e.message
  | seed path _ => s!"failed to seed catalog {Text.quotedPath path}"
  | request status => s!"request failed with status {status}"
  | exhausted => "record ids are exhausted"
  | waiting => "waiting for a lock"

/-- What a run leaves behind besides the changes to the site. -/
structure Outcome where
  code : Nat
  output : String
  error : Option CommandError
  deriving Repr

namespace Command

def config (args : Arguments) (fs : Files) : Except InputError Config := do
  let c ← match args.config with
    | some path => Config.load fs path
    | none => pure .default
  (c.override args.overrides).mapError .config

def failAs (f : ε → CommandError) (act : Act ε α) : Act CommandError α :=
  act.mapError f

def load (e : Except InputError α) : Act CommandError α :=
  Act.ofExcept (e.mapError .input)

/-- Runs a command; only requests have a response. -/
def perform (args : Arguments) (standardInput : String) : Act CommandError (Option Response) := do
  let s ← get
  let c ← load (config args s.files)
  let a := c.allocator []
  let respond (act : Act NoAnswer Response) : Act CommandError (Option Response) :=
    failAs (fun | .exhausted => .exhausted | .waiting => .waiting) (some <$> act)
  match args.command with
  | .seed path =>
    let records ← load (Catalog.loadSeed s.clock.start s.files path)
    failAs (fun e => if e.waits then .waiting else .seed c.catalogPath e) (Store.seed records a.store)
    return none
  | .prefixes id none => respond (Service.getPrefixes a id)
  | .prefixes id (some path) =>
    let body ← load (Json.loadBody s.files standardInput path)
    respond (Service.postPrefixes a id body)
  | .addresses parent limit none => respond (Service.getAddresses a parent limit c.pagination)
  | .addresses parent _ (some path) =>
    let body ← load (Json.loadBody s.files standardInput path)
    respond (Service.postAddresses a parent body)

/-- The exit code of a run that ran out of ids. -/
def exhaustedCode : Nat := 101

def failed (e : CommandError) (output : String) : Outcome :=
  ⟨if e = .exhausted then exhaustedCode else 1, output, some e⟩

def outcome (args : Arguments) (standardInput : String) (site : Site) : Outcome × Site :=
  match perform args standardInput site with
  | .error e site => (failed e "", site)
  | .ok none site => (⟨0, "", none⟩, site)
  | .ok (some r) site =>
    let output := r.body.pretty ++ "\n"
    (if r.isSuccess then ⟨0, output, none⟩ else failed (.request r.status) output, site)

end Command

namespace Halt

def usage : String :=
  "Allocate free prefixes and IP addresses out of an IPAM catalog\n\n" ++
  "Usage: ipam-allocator [OPTIONS] <COMMAND>\n\n" ++
  "Commands:\n" ++
  "  seed <FILE>\n" ++
  "  available-prefixes <PREFIX> [--body <BODY>]\n" ++
  "  available-ips (--prefix <PREFIX> | --range <RANGE>) [--limit <LIMIT> | --body <BODY>]\n\n" ++
  "Options:\n" ++
  "  -c, --config <CONFIG>\n" ++
  "      --catalog <CATALOG>\n" ++
  "      --lock-dir <LOCK_DIR>\n"

def versionText : String :=
  "ipam-allocator 0.1.0\n"

def outcome : Halt → Outcome
  | help => ⟨0, usage, none⟩
  | version => ⟨0, versionText, none⟩
  | misuse => ⟨2, "", none⟩

end Halt

def Command.run (words : List String) (standardInput : String) (site : Site) : Outcome × Site :=
  match Arguments.ofWords words with
  | .error h => (h.outcome, site)
  | .ok args => Command.outcome args standardInput site

end AddressPlan
