import AddressPlan.Json.Skip

/-!
Reading JSON text part by part: the items of a list, the members of an object, and whole values. Typed
reading is built from the same parts, so a text is faulted at the same place whatever it is read as.
-/

namespace AddressPlan.Json.Reader

/-- Whether a list has another item; the commas between items are passed. -/
def hasItem (isFirst : Bool) : Reader Bool := do
  match ← peekPart with
  | none => failNext .endInList
  | some ']' => return false
  | some c =>
    if isFirst then return true
    else if c = ',' then do
      eat
      match ← peekPart with
      | some ']' => failNext .trailingComma
      | some _ => return true
      | none => failNext .endInValue
    else failNext .listGoesOn

def endList : Reader Unit := do
  match ← peekPart with
  | some ']' => eat
  | some ',' => do
    eat
    match ← peekPart with
    | some ']' => failNext .trailingComma
    | _ => failNext .trailingCharacters
  | some _ => failNext .trailingCharacters
  | none => failNext .endInList

/-- The name of the next member, if an object has another one; the commas between members are passed. -/
def nextName? (isFirst : Bool) : Reader (Option String) := do
  match ← peekPart with
  | none => failNext .endInObject
  | some '\x7d' => return none
  | some c =>
    if isFirst then
      if c = '"' then return some (← quotedString) else failNext .keyNotString
    else if c = ',' then do
      eat
      match ← peekPart with
      | some '"' => return some (← quotedString)
      | some '\x7d' => failNext .trailingComma
      | some _ => failNext .keyNotString
      | none => failNext .endInValue
    else failNext .objectGoesOn

def endObject : Reader Unit := do
  match ← peekPart with
  | some '\x7d' => eat
  | some ',' => failNext .trailingComma
  | some _ => failNext .trailingCharacters
  | none => failNext .endInObject

def colon : Reader Unit := do
  match ← peekPart with
  | some ':' => eat
  | some _ => failNext .colonExpected
  | none => failNext .endInObject

/-- The items of a list, up to its end. Every item takes a character, so the length of the text is fuel
enough. -/
def items (item : Reader α) : (fuel : Nat) → (isFirst : Bool) → Reader (List α)
  | 0, _ => failNext .tooDeep
  | fuel + 1, isFirst => do
    if ← hasItem isFirst then
      let a ← item
      let rest ← items item fuel false
      return a :: rest
    else return []

/-- The members of an object, up to its end. -/
def members (value : Reader α) : (fuel : Nat) → (isFirst : Bool) → Reader (List (String × α))
  | 0, _ => failNext .tooDeep
  | fuel + 1, isFirst => do
    match ← nextName? isFirst with
    | none => return []
    | some name =>
      colon
      let a ← value
      let rest ← members value fuel false
      return (name, a) :: rest

/-- Fuel for the parts of what is left of the text. -/
def fuel : Reader Nat := do
  return (← get).rest.length + 1

/-- A list whose opening bracket is next. -/
def list (item : Reader α) : Reader (List α) := do
  eat
  closedBy (do items item (← fuel) true) endList

/-- How deep values may nest, plus one. -/
def maxDepth : Nat := 128

/-- Any value, nested less deep than the given number. -/
def value : (depth : Nat) → Reader Json
  | 0 => failNext .tooDeep
  | depth + 1 => located do
    match ← peekPart with
    | none => failNext .endInValue
    | some 'n' => do ident "null".toList; return .null
    | some 't' => do ident "true".toList; return .bool true
    | some 'f' => do ident "false".toList; return .bool false
    | some '"' => return .string (← quotedString)
    | some '[' => if depth = 0 then failNext .tooDeep else return .array (← list (value depth))
    | some '\x7b' =>
      if depth = 0 then failNext .tooDeep
      else do
        eat
        let ms ← closedBy (do members (value depth) (← fuel) true) endObject
        return .object (ordered ms)
    | some c => if c = '-' ∨ c.isDigit then return .number (← signedNumber) else failNext .valueExpected

/-- What stands where something else was expected; a list or an object is not entered. -/
def unexpected (expected : String) : Reader α := do
  let found : Found ← match (← get).rest.head? with
    | some 'n' => do ident "null".toList; pure .null
    | some 't' => do ident "true".toList; pure (.bool true)
    | some 'f' => do ident "false".toList; pure (.bool false)
    | some '"' => pure (.string (← quotedString))
    | some '[' => pure .sequence
    | some '\x7b' => pure .map
    | some c => if c = '-' ∨ c.isDigit then pure (.number (← signedNumber)) else failNext .valueExpected
    | none => failNext .valueExpected
  mismatch (.type found expected)

/-- Reads a whole text: nothing but fillers may follow what is read. -/
def run (r : Reader α) (source : Source) (text : String) : Except TextError α :=
  let whole : Reader α := do
    let a ← r
    match ← peekPart with
    | none => return a
    | some _ => failNext .trailingCharacters
  match whole (Cursor.ofText source text) with
  | .ok a _ => .ok a
  | .error e _ => .error e

end AddressPlan.Json.Reader

namespace AddressPlan.Json

def read (source : Source) (text : String) : Except TextError Json :=
  Reader.run (Reader.value Reader.maxDepth) source text

end AddressPlan.Json
