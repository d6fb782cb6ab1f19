/-!
The cursor with which YAML text is read, and the classes of characters that its structure rests on: line
breaks, of which there are five, and blanks.
-/

namespace AddressPlan.Yaml

/-- Characters that end a line. -/
def isBreak (c : Char) : Bool :=
  c == '\n' || c == '\r' || c == '\x85' || c == '\u2028' || c == '\u2029'

def isBlank (c : Char) : Bool :=
  c == ' ' || c == '\t'

def isNameChar (c : Char) : Bool :=
  c.isAlphanum || c == '_' || c == '-'

/-- Characters that may stand in a YAML text at all. -/
def isPrintable (c : Char) : Bool :=
  let n := c.toNat
  n == 0x9 || n == 0xa || n == 0xd || (0x20 ≤ n && n ≤ 0x7e) || n == 0x85 || (0xa0 ≤ n && n ≤ 0xd7ff) ||
    (0xe000 ≤ n && n ≤ 0xfffd && n != 0xfeff) || 0x10000 ≤ n

/-- What is left of a text, how many characters have been passed, and where that is. -/
structure Cursor where
  rest : List Char
  index : Nat
  line : Nat
  column : Nat

namespace Cursor

def ofChars (cs : List Char) : Cursor :=
  ⟨cs, 0, 0, 0⟩

/-- Passes a character, or a carriage return together with the line feed after it. -/
def advance (c : Cursor) : Cursor :=
  match c.rest with
  | [] => c
  | '\r' :: '\n' :: rest => ⟨rest, c.index + 2, c.line + 1, 0⟩
  | d :: rest => if isBreak d then ⟨rest, c.index + 1, c.line + 1, 0⟩ else ⟨rest, c.index + 1, c.line, c.column + 1⟩

def advanceBy (c : Cursor) : Nat → Cursor
  | 0 => c
  | n + 1 => c.advance.advanceBy n

def peek? (c : Cursor) (n : Nat) : Option Char :=
  c.rest[n]?

def startsWith (c : Cursor) (d : Char) : Bool :=
  c.peek? 0 == some d

def isEnd (c : Cursor) : Bool :=
  c.rest.isEmpty

def hasBlank (c : Cursor) (n : Nat) : Bool :=
  (c.peek? n).any isBlank

def hasBreak (c : Cursor) (n : Nat) : Bool :=
  (c.peek? n).any isBreak

/-- A line break or the end of the text is `n` places ahead. -/
def endsLine (c : Cursor) (n : Nat) : Bool :=
  (c.peek? n).all isBreak

/-- A blank, a line break or the end of the text is `n` places ahead. -/
def endsWord (c : Cursor) (n : Nat) : Bool :=
  (c.peek? n).all fun d => isBlank d || isBreak d

/-- The given three characters stand alone at the start of a line. -/
def hasMarker (c : Cursor) (d : Char) : Bool :=
  c.column == 0 && c.rest.take 3 == [d, d, d] && c.endsWord 3

/-- A line starts here that begins or ends a document. -/
def atDocumentMarker (c : Cursor) : Bool :=
  c.hasMarker '-' || c.hasMarker '.'

/-- The text of a line break: `\n` for all that are no more than a new line. -/
def breakText (c : Cursor) : List Char :=
  match c.rest with
  | [] => []
  | d :: _ => if d == '\u2028' || d == '\u2029' then [d] else ['\n']

/-- Passes characters as long as a condition holds, which no line break meets. -/
def skipWhile (c : Cursor) (p : Char → Bool) : Cursor :=
  c.advanceBy (c.rest.takeWhile p).length

def skipComment (c : Cursor) : Cursor :=
  if c.startsWith '#' then c.skipWhile (fun d => !isBreak d) else c

end Cursor

end AddressPlan.Yaml
