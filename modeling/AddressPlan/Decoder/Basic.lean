import AddressPlan.Json.Reader
import AddressPlan.Yaml.Plain

/-!
Decoders: how a type is obtained from a JSON value, from JSON text and from a YAML node. They are built from
those for texts, numbers and truth values by combinators, so what is accepted, and what is said of all else, is
described once for each type.

Decoding from text does not go through values: it stops at the first thing that is wrong, whether that is a
fault of the text or a mismatch, and says where.
-/

namespace AddressPlan

structure Decoder (α : Type) where
  /-- From a JSON value. -/
  ofJson : Json → Except Json.Mismatch α
  /-- From JSON text. -/
  read : Json.Reader α
  /-- From a YAML node, given the nodes that references point to. -/
  ofYaml : List Yaml.Node → Yaml.Node → Option α

namespace Decoder

open Json (Mismatch Found Reader)

def unexpected (expected : String) (v : Json) : Except Mismatch α :=
  .error (.type (.ofJson v) expected)

def map (f : α → β) (d : Decoder α) : Decoder β where
  ofJson v := (d.ofJson v).map f
  read := do return f (← d.read)
  ofYaml nodes n := (d.ofYaml nodes n).map f

/-! ### Texts -/

/-- A text, which is called as given where it is missing. -/
def text (expected : String) : Decoder String where
  ofJson
    | .string s => .ok s
    | v => unexpected expected v
  read := Reader.located do
    match ← Reader.peekPart with
    | some '"' => Reader.quotedString
    | some _ => Reader.unexpected expected
    | none => Reader.failNext .endInValue
  ofYaml nodes n :=
    match n.target nodes with
    | .scalar s _ _ => some s
    | _ => none

def string : Decoder String :=
  text "a string"

/-- A text that has to be read further; what is wrong with it is said in its own words. -/
def parsed (expected : String) (parse : String → Except String α) : Decoder α :=
  let check (s : String) : Except Mismatch α := (parse s).mapError .custom
  { ofJson v := (text expected).ofJson v >>= check
    read := Reader.located do Reader.ofExcept (check (← (text expected).read))
    ofYaml nodes n := do
      match parse (← (text expected).ofYaml nodes n) with
      | .ok a => some a
      | .error _ => none }

/-! ### Truth values and integers -/

def bool : Decoder Bool where
  ofJson
    | .bool b => .ok b
    | v => unexpected "a boolean" v
  read := Reader.located do
    match ← Reader.peekPart with
    | some 't' => do Reader.ident "true".toList; return true
    | some 'f' => do Reader.ident "false".toList; return false
    | some _ => Reader.unexpected "a boolean"
    | none => Reader.failNext .endInValue
  ofYaml nodes n :=
    match n.target nodes with
    | .scalar s style tag => if Yaml.mayBe "bool" style tag then Yaml.bool? s else none
    | _ => none

/-- An integer from `low` to `high`; the type with that range has the given name. -/
def integer (name : String) (low high : Int) : Decoder Int :=
  let check (n : Json.Number) : Except Mismatch Int :=
    match n with
    | .integer i => if low ≤ i ∧ i ≤ high then .ok i else .error (.value (.number n) name)
    | .double _ => .error (.type (.number n) name)
  { ofJson
      | .number n => check n
      | v => unexpected name v
    read := Reader.located do
      match ← Reader.peekPart with
      | some c =>
        if c = '-' ∨ c.isDigit then Reader.ofExcept (check (← Reader.signedNumber)) else Reader.unexpected name
      | none => Reader.failNext .endInValue
    ofYaml nodes n :=
      match n.target nodes with
      | .scalar s style tag =>
        if Yaml.mayBe "int" style tag then
          (Yaml.integer? (low < 0) s.toList).filter fun i => low ≤ i ∧ i ≤ high
        else none
      | _ => none }

def uint64 : Decoder UInt64 :=
  (integer "u64" 0 Json.maxInteger).map fun i => .ofNat i.toNat

def count : Decoder Nat :=
  (integer "usize" 0 Json.maxInteger).map Int.toNat

def int64 : Decoder Int :=
  integer "i64" (-Reader.maxNegative) (Reader.maxNegative - 1)

/-! ### Options, lists and choices -/

def option (d : Decoder α) : Decoder (Option α) where
  ofJson
    | .null => .ok none
    | v => (d.ofJson v).map some
  read := do
    match ← Reader.peekPart with
    | some 'n' => do Reader.ident "null".toList; return none
    | _ => return some (← d.read)
  ofYaml nodes n :=
    match n.target nodes with
    | .absent => some none
    | .scalar s .plain none => if s.isEmpty || Yaml.isNull s then some none else (d.ofYaml nodes n).map some
    | .scalar s .plain (some tag) =>
      if tag = Yaml.coreTag "null" then (if Yaml.isNull s then some none else none)
      else (d.ofYaml nodes n).map some
    | _ => (d.ofYaml nodes n).map some

def list (d : Decoder α) : Decoder (List α) where
  ofJson
    | .array items => items.mapM d.ofJson
    | v => unexpected "a sequence" v
  read := Reader.located do
    match ← Reader.peekPart with
    | some '[' => Reader.list d.read
    | some _ => Reader.unexpected "a sequence"
    | none => Reader.failNext .endInValue
  ofYaml nodes n :=
    match n.target nodes with
    | .sequence items _ => items.mapM (d.ofYaml nodes)
    | .scalar "" .plain _ => some []
    | .absent => some []
    | _ => none

def choose (options : List (String × α)) (name : String) : Except Mismatch α :=
  match options.find? (·.1 == name) with
  | some (_, a) => .ok a
  | none => .error (.variant name (options.map (·.1)))

/-- One of several names, or an object whose only member has that name and nothing for its value. -/
def choice (options : List (String × α)) : Decoder α where
  ofJson
    | .string s => choose options s
    | .object [(name, v)] => do
      let a ← choose options name
      match v with
      | .null => .ok a
      | v => unexpected "unit" v
    | .object _ => .error (.value .map "map with a single key")
    | v => unexpected "string or map" v
  read := do
    let name : Reader α := Reader.located do Reader.ofExcept (choose options (← (text "variant identifier").read))
    match ← Reader.peekPart with
    | some '"' => name
    | some '\x7b' => do
      Reader.eat
      let a ← name
      Reader.colon
      Reader.located do
        match ← Reader.peekPart with
        | some 'n' => Reader.ident "null".toList
        | some _ => Reader.unexpected "unit"
        | none => Reader.failNext .endInValue
      match ← Reader.peekPart with
      | some '\x7d' => do Reader.eat; return a
      | some _ => Reader.failHere .valueExpected
      | none => Reader.failHere .endInObject
    | some _ => Reader.failNext .valueExpected
    | none => Reader.failNext .endInValue
  ofYaml nodes n :=
    let known (name : String) : Option α := (options.find? (·.1 == name)).map (·.2)
    match n.target nodes with
    | .scalar s style tag =>
      match Yaml.localTag? tag with
      | some name => if style = .plain && (s.isEmpty || Yaml.isNull s) then known name else none
      | none => known s
    | _ => none

end Decoder

end AddressPlan
