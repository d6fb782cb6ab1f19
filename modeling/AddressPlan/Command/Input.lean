import AddressPlan.Config.Codec

/-!
Documents that a command reads: the configuration, records for the catalog, and the body of a request.
-/

namespace AddressPlan

inductive Document where
  | configuration
  | seed
  | body
  deriving DecidableEq, Repr

def Document.name : Document → String
  | configuration => "configuration"
  | seed => "seed file"
  | body => "request body"

/-- Why a document cannot be used. What is wrong with a text is not always told. -/
inductive InputError where
  | cannotOpen (document : Document) (path : String) (fault : FileFault)
  | cannotParse (document : Document) (path : String) (fault : Option ReadFault)
  | cannotParseInput (fault : Json.TextError)
  | config (e : ConfigError)
  deriving DecidableEq, Repr

def InputError.message : InputError → String
  | cannotOpen document path _ => s!"failed to open {document.name} {Text.quotedPath path}"
  | cannotParse document path _ => s!"failed to parse {document.name} {Text.quotedPath path}"
  | cannotParseInput _ => "failed to parse request body from stdin"
  | config e => e.message

/-- What an error comes from, if that is told. -/
def InputError.cause? : InputError → Option String
  | cannotOpen _ _ fault => some fault.message
  | cannotParse _ _ fault => fault.map (·.message)
  | cannotParseInput fault => some fault.message
  | config _ => none

namespace Document

/-- The text of a document. A directory can be opened, but there is nothing to parse in it. -/
def text (document : Document) (fs : Files) (path : String) : Except InputError String :=
  match fs.read path with
  | .ok text => .ok text
  | .error .isDirectory => .error (.cannotParse document path (some (.file .isDirectory)))
  | .error e => .error (.cannotOpen document path e)

def json (document : Document) (fs : Files) (path : String)
    (parse : String → Except Json.TextError α) : Except InputError α := do
  (parse (← document.text fs path)).mapError fun e => .cannotParse document path (some (.text e))

end Document

/-- A configuration, which has to be valid. -/
def Config.load (fs : Files) (path : String) : Except InputError Config := do
  let text ← Document.configuration.text fs path
  match Decoder.config.ofYamlText? text with
  | none => throw (.cannotParse .configuration path none)
  | some c =>
    c.validate.mapError .config
    return c

def Catalog.loadSeed (now : Time.Timestamp) (fs : Files) (path : String) : Except InputError Catalog :=
  Document.seed.json fs path (Catalog.ofText now .stream)

/-- The body of a request: from a file, or from the standard input where the path is a dash. -/
def Json.loadBody (fs : Files) (standardInput : String) (path : String) : Except InputError Json :=
  if path = "-" then (Json.read .stream standardInput).mapError .cannotParseInput
  else Document.body.json fs path (Json.read .stream)

end AddressPlan
