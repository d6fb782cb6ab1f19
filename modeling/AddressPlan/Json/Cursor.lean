import AddressPlan.Json.Error

/-!
The cursor with which JSON text is read. It knows what is left of the text, how far it has come, and
whether it has looked at the next character: the position of an error in a text that arrives as a stream
counts the byte that was looked at, that in a text which is there as a whole does not.
-/

namespace AddressPlan.Json

/-- How a text arrives. -/
inductive Source where
  | whole
  | stream
  deriving DecidableEq, Repr

namespace Position

def start : Position := ⟨1, 0⟩

/-- The position after one byte, the first of the given character. -/
def afterByte (p : Position) (c : Char) : Position :=
  if c = '\n' then ⟨p.line + 1, 0⟩ else ⟨p.line, p.column + 1⟩

def after (p : Position) (c : Char) : Position :=
  if c = '\n' then ⟨p.line + 1, 0⟩ else ⟨p.line, p.column + c.utf8Size⟩

def along (p : Position) (n : Nat) : Position :=
  ⟨p.line, p.column + n⟩

/-- The position after `n` bytes of a text, or after all of it. -/
def afterBytes (p : Position) : Nat → List Char → Position
  | _, [] => p
  | n, c :: cs =>
    if n = 0 then p
    else if c.utf8Size ≤ n then (p.after c).afterBytes (n - c.utf8Size) cs
    else p.along n

end Position

structure Cursor where
  rest : List Char
  position : Position
  peeked : Bool
  source : Source

namespace Cursor

def ofText (source : Source) (text : String) : Cursor :=
  ⟨text.toList, .start, false, source⟩

/-- Where the cursor is, for an error about what it has read. -/
def here (c : Cursor) : Position :=
  match c.source, c.peeked, c.rest with
  | .stream, true, d :: _ => c.position.afterByte d
  | _, _, _ => c.position

/-- Where the cursor is, for an error about the next character. -/
def next (c : Cursor) : Position :=
  match c.rest with
  | d :: _ => c.position.afterByte d
  | [] => c.position

def look (c : Cursor) : Cursor :=
  { c with peeked := true }

/-- Passes `n` characters of one byte each, none of them a line feed. -/
def pass (c : Cursor) (n : Nat) : Cursor :=
  { c with rest := c.rest.drop n, position := c.position.along n, peeked := false }

end Cursor

/-- A step of reading: it moves the cursor, also when it fails. -/
abbrev Reader := EStateM TextError Cursor

namespace Reader

/-- Fails with a fault in what has been read. -/
def failHere (f : Fault) : Reader α := fun c =>
  .error ⟨.fault f, some c.here⟩ c

/-- Fails with a fault in the next character. -/
def failNext (f : Fault) : Reader α := fun c =>
  .error ⟨.fault f, some c.next⟩ c

/-- Fails with a mismatch, whose position is settled by the enclosing value (`located`). -/
def mismatch (m : Mismatch) : Reader α := fun c =>
  .error ⟨.mismatch m, none⟩ c

def ofExcept : Except Mismatch α → Reader α
  | .ok a => pure a
  | .error m => mismatch m

/-- Gives an error without a position the place that the cursor has reached. -/
def located (r : Reader α) : Reader α := fun c =>
  match r c with
  | .error ⟨cause, none⟩ c => .error ⟨cause, some c.here⟩ c
  | result => result

/-- Reads the inside of a bracket and then its end. The end is looked for even if the inside failed, which
moves the cursor but not the error. -/
def closedBy (inside : Reader α) (close : Reader Unit) : Reader α := fun c =>
  match inside c with
  | .ok a c =>
    match close c with
    | .ok _ c => .ok a c
    | .error e c => .error e c
  | .error e c =>
    match close c with
    | .ok _ c => .error e c
    | .error _ c => .error e c

/-- Passes the next character, which is one that has been looked at. -/
def eat : Reader Unit := fun c =>
  match c.rest with
  | [] => .ok () c
  | d :: rest => .ok () { c with rest := rest, position := c.position.after d, peeked := false }

/-- The characters between the parts of a value. -/
def isFiller (c : Char) : Bool :=
  c == ' ' || c == '\n' || c == '\t' || c == '\r'

def dropFillers : List Char → Position → List Char × Position
  | [], p => ([], p)
  | c :: cs, p => if isFiller c then dropFillers cs (p.after c) else (c :: cs, p)

def peekPart : Reader (Option Char) := fun c =>
  let left := dropFillers c.rest c.position
  .ok left.1.head? { c with rest := left.1, position := left.2, peeked := true }

def ident : List Char → Reader Unit
  | [] => pure ()
  | d :: ds => do
    match (← get).rest with
    | [] => failHere .endInValue
    | c :: _ => if c = d then (do eat; ident ds) else failNext .identExpected

end Reader

end AddressPlan.Json
