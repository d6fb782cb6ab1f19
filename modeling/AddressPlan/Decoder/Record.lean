import AddressPlan.Decoder.Basic

/-!
Decoding records. A record is an object whose members are fields in any order, or a list of the fields in
their own order. Members that are no fields are passed over; a field may be missing only if it is not
required, and it may not come twice.
-/

namespace AddressPlan

open Json (Mismatch Reader)

/-- A field of a record: what decoding it changes in the record. -/
structure Field (σ : Type) where
  name : String
  required : Bool
  decoder : Decoder (σ → σ)

namespace Field

def mandatory (name : String) (d : Decoder α) (set : α → σ → σ) : Field σ :=
  ⟨name, true, d.map set⟩

def optional (name : String) (d : Decoder α) (set : α → σ → σ) : Field σ :=
  ⟨name, false, d.map set⟩

end Field

namespace Decoder

variable {σ : Type}

def field? (fields : List (Field σ)) (name : String) : Option (Field σ) :=
  fields.find? (·.name == name)

def missing? (fields : List (Field σ)) (names : List String) : Option String :=
  (fields.find? fun f => f.required && !names.contains f.name).map (·.name)

/-- What a list of fields is called when some are missing. -/
def listShape (name : String) (fields : List (Field σ)) : String :=
  let noun := if fields.length = 1 then "element" else "elements"
  s!"struct {name} with {fields.length} {noun}"

/-! ### From values -/

/-- Fields in order; `all` values were given. -/
def ofItems (shape : String) (all : Nat) : (index : Nat) → List (Field σ) → List Json → σ → Except Mismatch σ
  | _, [], [], s => .ok s
  | _, [], _ :: _, _ => .error (.length all "fewer elements in array")
  | i, f :: fs, [], s => if f.required then .error (.length i shape) else ofItems shape all (i + 1) fs [] s
  | i, f :: fs, v :: vs, s => do
    let set ← f.decoder.ofJson v
    ofItems shape all (i + 1) fs vs (set s)

def ofMembers (fields : List (Field σ)) : List (String × Json) → σ → Except Mismatch σ
  | [], s => .ok s
  | (name, v) :: ms, s =>
    match field? fields name with
    | none => ofMembers fields ms s
    | some f => do
      let set ← f.decoder.ofJson v
      ofMembers fields ms (set s)

/-! ### From text -/

def readItems (shape : String) : (index : Nat) → List (Field σ) → σ → Reader σ
  | _, [], s => return s
  | i, f :: fs, s => do
    if ← Reader.hasItem (i = 0) then
      let set ← f.decoder.read
      readItems shape (i + 1) fs (set s)
    else if f.required then Reader.mismatch (.length i shape)
    else readItems shape (i + 1) fs s

def readMembers (fields : List (Field σ)) : (fuel : Nat) → (seen : List String) → (isFirst : Bool) → σ → Reader σ
  | 0, _, _, _ => Reader.failNext .tooDeep
  | fuel + 1, seen, isFirst, s => do
    match ← Reader.nextName? isFirst with
    | none =>
      match missing? fields seen with
      | some name => Reader.mismatch (.missing name)
      | none => return s
    | some name =>
      match field? fields name with
      | none =>
        Reader.colon
        Reader.skipValue
        readMembers fields fuel seen false s
      | some f =>
        if seen.contains name then Reader.mismatch (.duplicate name)
        else
          Reader.colon
          let set ← f.decoder.read
          readMembers fields fuel (name :: seen) false (set s)

/-! ### From YAML -/

def ofEntries (fields : List (Field σ)) (nodes : List Yaml.Node) :
    (seen : List String) → List (Yaml.Node × Yaml.Node) → σ → Option σ
  | seen, [], s => if (missing? fields seen).isSome then none else some s
  | seen, (key, n) :: rest, s => do
    let name ← string.ofYaml nodes key
    match field? fields name with
    | none => ofEntries fields nodes seen rest s
    | some f =>
      if seen.contains name then none
      else
        let set ← f.decoder.ofYaml nodes n
        ofEntries fields nodes (name :: seen) rest (set s)

/-- A record of the given name, made from a blank one by setting its fields. -/
def record (name : String) (blank : σ) (fields : List (Field σ)) : Decoder σ where
  ofJson
    | .array items => ofItems (listShape name fields) items.length 0 fields items blank
    | .object members => do
      let s ← ofMembers fields members blank
      match missing? fields (members.map (·.1)) with
      | some field => .error (.missing field)
      | none => .ok s
    | v => unexpected s!"struct {name}" v
  read := Reader.located do
    match ← Reader.peekPart with
    | some '[' =>
      Reader.eat
      Reader.closedBy (readItems (listShape name fields) 0 fields blank) Reader.endList
    | some '\x7b' =>
      Reader.eat
      Reader.closedBy (do readMembers fields (← Reader.fuel) [] true blank) Reader.endObject
    | some _ => Reader.unexpected s!"struct {name}"
    | none => Reader.failNext .endInValue
  ofYaml nodes n :=
    match n.target nodes with
    | .mapping members _ => ofEntries fields nodes [] members blank
    | .scalar "" .plain _ => ofEntries fields nodes [] [] blank
    | .absent => ofEntries fields nodes [] [] blank
    | _ => none

def ofText (d : Decoder σ) (source : Json.Source) (text : String) : Except Json.TextError σ :=
  Reader.run d.read source text

def ofYamlText? (d : Decoder σ) (text : String) : Option σ := do
  let document ← Yaml.Document.ofText? text
  d.ofYaml document.anchored document.root

end Decoder

end AddressPlan
