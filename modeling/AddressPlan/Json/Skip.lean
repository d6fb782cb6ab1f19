import AddressPlan.Json.Scalar

/-!
Passing over a value that nobody asks for. Only the grammar is checked: escapes may stand for anything,
numbers may be out of range, and nesting may go to any depth.
-/

namespace AddressPlan.Json.Reader

open Text

def skipEscape (cs : List Char) (p : Position) : Located Nat :=
  match cs with
  | [] => .error (.endInString, p)
  | 'u' :: cs => (hexUnit cs (p.along 1)).map fun _ => 5
  | c :: _ => if (shortEscape? c).isSome then .ok 1 else .error (.badEscape, p.afterByte c)

/-- What follows a string after its opening quote; a control character is left unread. -/
def skipStringTail (source : Source) : List Char → Position → Located (List Char × Position)
  | [], p => .error (.endInString, p)
  | c :: cs, p =>
    if c = '"' then .ok (cs, p.along 1)
    else if c = '\\' then
      match skipEscape cs (p.along 1) with
      | .error e => .error e
      | .ok n => skipStringTail source (cs.drop n) (p.along (n + 1))
    else if c.toNat < 0x20 then
      .error (.controlCharacter, if source = .stream then p.afterByte c else p)
    else skipStringTail source cs (p.after c)
termination_by cs => cs.length
decreasing_by
  · simp only [List.length_drop, List.length_cons]; omega
  · simp only [List.length_cons]; omega

def skipString : Reader Unit := fun c =>
  match skipStringTail c.source (c.rest.drop 1) (c.position.along 1) with
  | .ok (rest, position) => .ok () { c with rest := rest, position := position, peeked := false }
  | .error (f, p) => .error ⟨.fault f, some p⟩ c

def skipDigits : Reader Unit := do
  let digits := (takeDigits 10 (← get).rest).1
  if digits.isEmpty then failNext .badNumber else modify fun c => (c.pass digits.length).look

def skipExponent : Reader Unit := do
  modify (·.pass 1)
  let sign := (← get).rest.head?
  if sign = some '+' ∨ sign = some '-' then modify (·.pass 1)
  skipDigits

def skipNumber : Reader Unit := do
  if (← get).rest.head? = some '-' then modify (·.pass 1)
  match (takeDigits 10 (← get).rest).1 with
  | 0 :: _ :: _ => do
    modify (·.pass 1)
    failNext .badNumber
  | _ => do
    skipDigits
    match (← get).rest.head? with
    | some '.' => do
      modify (·.pass 1)
      skipDigits
      match (← get).rest.head? with
      | some 'e' | some 'E' => skipExponent
      | _ => return
    | some 'e' | some 'E' => skipExponent
    | _ => return

/-- The brackets around the value that is being passed. -/
inductive Frame where
  | list
  | object
  deriving DecidableEq

def Frame.close : Frame → Char
  | list => ']'
  | object => '\x7d'

def Frame.goesOn : Frame → Fault
  | list => .listGoesOn
  | object => .objectGoesOn

def Frame.ended : Frame → Fault
  | list => .endInList
  | object => .endInObject

def skipName : Frame → Reader Unit
  | .list => return
  | .object => do
    match ← peekPart with
    | some '"' => skipString
    | some _ => failNext .keyNotString
    | none => failNext .endInObject
    match ← peekPart with
    | some ':' => eat
    | some _ => failNext .colonExpected
    | none => failNext .endInObject

/-- What comes next: a value, the first thing inside a bracket, or what follows a value. -/
inductive Stage where
  | value
  | opened
  | closed

/-- Passes on until the outermost bracket is closed. Every second step passes a character, so twice the
length of the text is fuel enough. -/
def skipFrom : (fuel : Nat) → Stage → List Frame → Reader Unit
  | 0, _, _ => failNext .tooDeep
  | _ + 1, .closed, [] => return
  | _ + 1, .opened, [] => return
  | fuel + 1, .value, frames => do
    match ← peekPart with
    | none => failNext .endInValue
    | some 'n' => do ident "null".toList; skipFrom fuel .closed frames
    | some 't' => do ident "true".toList; skipFrom fuel .closed frames
    | some 'f' => do ident "false".toList; skipFrom fuel .closed frames
    | some '"' => do skipString; skipFrom fuel .closed frames
    | some '[' => do eat; skipFrom fuel .opened (.list :: frames)
    | some '\x7b' => do eat; skipFrom fuel .opened (.object :: frames)
    | some c =>
      if c = '-' ∨ c.isDigit then do skipNumber; skipFrom fuel .closed frames
      else failNext .valueExpected
  | fuel + 1, .opened, frame :: frames => do
    match ← peekPart with
    | none => failNext frame.ended
    | some c =>
      if c = frame.close then do eat; skipFrom fuel .closed frames
      else do skipName frame; skipFrom fuel .value (frame :: frames)
  | fuel + 1, .closed, frame :: frames => do
    match ← peekPart with
    | none => failNext frame.ended
    | some c =>
      if c = ',' then do eat; skipName frame; skipFrom fuel .value (frame :: frames)
      else if c = frame.close then do eat; skipFrom fuel .closed frames
      else failNext frame.goesOn

def skipValue : Reader Unit := do
  skipFrom (2 * (← get).rest.length + 2) .value []

end AddressPlan.Json.Reader
