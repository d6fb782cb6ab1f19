import AddressPlan.Config.Basic

/-!
The command line. Options that hold for all commands come before the name of the command, and options of the
command after it, among its operands. An option takes a value, either after an equals sign or as the next word,
and may be given once.
-/

namespace AddressPlan

inductive Command where
  | seed (path : String)
  | prefixes (id : RecordId) (body : Option String)
  | addresses (parent : Parent) (limit body : Option String)
  deriving DecidableEq, Repr

structure Arguments where
  config : Option String
  overrides : Config.Overrides
  command : Command
  deriving DecidableEq, Repr

/-- Why there is no command to run: the caller asks about the program, or the words make no sense. -/
inductive Halt where
  | help
  | version
  | misuse
  deriving DecidableEq, Repr

namespace Arguments

/-! ### Words -/

/-- An option with a value, and which values it accepts. -/
structure Setting where
  name : String
  short : Option Char
  accepts : String → Bool

/-- What words may be: options, and operands unless these end the options. -/
structure Grammar where
  settings : List Setting
  hasVersion : Bool
  endsAtOperand : Bool

structure Words where
  values : List (String × String)
  operands : List String

namespace Words

def none : Words :=
  ⟨[], []⟩

def value? (ws : Words) (name : String) : Option String :=
  (ws.values.find? (·.1 == name)).map (·.2)

def give (ws : Words) (o : Setting) (value : String) : Except Halt Words :=
  if (ws.value? o.name).isSome || !o.accepts value then .error .misuse
  else .ok { ws with values := ws.values ++ [(o.name, value)] }

def operand (ws : Words) (word : String) : Words :=
  { ws with operands := ws.operands ++ [word] }

end Words

/-- A word: an operand, the end of all options, or an option with a value that may be part of the word. -/
inductive Word where
  | operand
  | rest
  | setting (o : Setting) (value : Option String)
  | halt (h : Halt)

def longWord (g : Grammar) (cs : List Char) : Word :=
  let name := String.ofList (cs.takeWhile (· != '='))
  let value := if cs.contains '=' then some (String.ofList ((cs.dropWhile (· != '=')).drop 1)) else none
  match g.settings.find? (·.name == name) with
  | some o => .setting o value
  | none =>
    if value.isSome then .halt .misuse
    else if name = "help" then .halt .help
    else if name = "version" && g.hasVersion then .halt .version
    else .halt .misuse

def shortWord (g : Grammar) (c : Char) (cs : List Char) : Word :=
  match g.settings.find? (·.short == some c) with
  | some o =>
    .setting o (match cs with
      | [] => none
      | '=' :: value => some (.ofList value)
      | value => some (.ofList value))
  | none => .halt (if c = 'h' then .help else if c = 'V' && g.hasVersion then .version else .misuse)

def word (g : Grammar) (w : String) : Word :=
  match w.toList with
  | '-' :: '-' :: [] => .rest
  | '-' :: '-' :: cs => longWord g cs
  | '-' :: c :: cs => shortWord g c cs
  | _ => .operand

def mayBeValue (w : String) : Bool :=
  match w.toList with
  | '-' :: _ :: _ => false
  | _ => true

def scan (g : Grammar) (ws : Words) : List String → Except Halt Words
  | [] => .ok ws
  | w :: rest =>
    match word g w with
    | .halt h => .error h
    | .rest => if g.endsAtOperand then .error .misuse else .ok (rest.foldl Words.operand ws)
    | .operand => if g.endsAtOperand then .ok ((w :: rest).foldl Words.operand ws) else scan g (ws.operand w) rest
    | .setting o (some value) => do scan g (← ws.give o value) rest
    | .setting o none =>
      match rest with
      | [] => .error .misuse
      | value :: rest => if mayBeValue value then do scan g (← ws.give o value) rest else .error .misuse

/-! ### Commands -/

/-- A number without a sign, or with a plus sign. -/
def recordId? (s : String) : Option RecordId :=
  let cs := s.toList
  ((Text.number? 10 (if cs.head? = some '+' then cs.drop 1 else cs)).filter (· ≤ Json.maxInteger)).map .ofNat

/-- An option for a path, which cannot be empty. -/
def pathSetting (name : String) (short : Option Char) : Setting :=
  ⟨name, short, (!·.isEmpty)⟩

def general : Grammar where
  settings := [pathSetting "config" (some 'c'), pathSetting "catalog" none, pathSetting "lock-dir" none]
  hasVersion := true
  endsAtOperand := true

def bodySetting : Setting :=
  pathSetting "body" none

def parentSetting (name : String) : Setting :=
  ⟨name, none, fun s => (recordId? s).isSome⟩

def special (settings : List Setting) : Grammar :=
  ⟨settings, false, false⟩

def seedCommand (words : List String) : Except Halt Command := do
  match (← scan (special []) .none words).operands with
  | [path] => if path.isEmpty then throw .misuse else return .seed path
  | _ => throw .misuse

def prefixesCommand (words : List String) : Except Halt Command := do
  let ws ← scan (special [bodySetting]) .none words
  match ws.operands with
  | [operand] =>
    match recordId? operand with
    | some id => return .prefixes id (ws.value? "body")
    | none => throw .misuse
  | _ => throw .misuse

def addressesCommand (words : List String) : Except Halt Command := do
  let ws ← scan (special [parentSetting "prefix", parentSetting "range", ⟨"limit", none, fun _ => true⟩, bodySetting])
    .none words
  let limit := ws.value? "limit"
  let body := ws.value? "body"
  if !ws.operands.isEmpty || (limit.isSome && body.isSome) then throw .misuse
  match (ws.value? "prefix").bind recordId?, (ws.value? "range").bind recordId? with
  | some id, none => return .addresses (.prefixRecord id) limit body
  | none, some id => return .addresses (.rangeRecord id) limit body
  | _, _ => throw .misuse

def commands : List (String × (List String → Except Halt Command)) :=
  [("seed", seedCommand), ("available-prefixes", prefixesCommand), ("available-ips", addressesCommand)]

/-- The help command, which may name another command. -/
def helpCommand (words : List String) : Halt :=
  match words with
  | [] => .help
  | name :: _ => if name = "help" || commands.any (·.1 == name) then .help else .misuse

def ofWords (words : List String) : Except Halt Arguments := do
  let ws ← scan general .none words
  match ws.operands with
  | [] => throw .misuse
  | name :: rest =>
    if name = "help" then throw (helpCommand rest)
    match commands.find? (·.1 == name) with
    | none => throw .misuse
    | some (_, parse) =>
      let command ← parse rest
      return ⟨ws.value? "config", ⟨ws.value? "catalog", ws.value? "lock-dir"⟩, command⟩

end Arguments

end AddressPlan
