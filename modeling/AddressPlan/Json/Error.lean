import AddressPlan.Json.Value
import AddressPlan.Text.Quoted

/-!
What can be wrong with JSON: a fault of the text itself, or a mismatch between a value and what was
expected in its place. An error of a text also says where it stands.
-/

namespace AddressPlan.Json

open Text

/-- A place in a text: the line, counted from one, and the number of bytes of it that have been passed. -/
structure Position where
  line : Nat
  column : Nat
  deriving DecidableEq, Repr

inductive Fault where
  | endInList
  | endInObject
  | endInString
  | endInValue
  | colonExpected
  | listGoesOn
  | objectGoesOn
  | identExpected
  | valueExpected
  | badEscape
  | badNumber
  | numberTooLarge
  | controlCharacter
  | keyNotString
  | loneSurrogate
  | brokenSurrogate
  | trailingComma
  | trailingCharacters
  | tooDeep
  deriving DecidableEq, Repr

def Fault.message : Fault → String
  | endInList => "EOF while parsing a list"
  | endInObject => "EOF while parsing an object"
  | endInString => "EOF while parsing a string"
  | endInValue => "EOF while parsing a value"
  | colonExpected => "expected `:`"
  | listGoesOn => "expected `,` or `]`"
  | objectGoesOn => "expected `,` or `\x7d`"
  | identExpected => "expected ident"
  | valueExpected => "expected value"
  | badEscape => "invalid escape"
  | badNumber => "invalid number"
  | numberTooLarge => "number out of range"
  | controlCharacter => "control character (\\u0000-\\u001F) found while parsing a string"
  | keyNotString => "key must be a string"
  | loneSurrogate => "lone leading surrogate in hex escape"
  | brokenSurrogate => "unexpected end of hex escape"
  | trailingComma => "trailing comma"
  | trailingCharacters => "trailing characters"
  | tooDeep => "recursion limit exceeded"

inductive Found where
  | null
  | bool (b : Bool)
  | number (n : Number)
  | string (s : String)
  | sequence
  | map
  deriving DecidableEq, Repr

def Found.ofJson : Json → Found
  | .null => null
  | .bool b => bool b
  | .number n => number n
  | .string s => string s
  | .array _ => sequence
  | .object _ => map

def Found.message : Found → String
  | null => "null"
  | bool true => "boolean `true`"
  | bool false => "boolean `false`"
  | number (.integer i) => s!"integer `{i}`"
  | number (.double x) => s!"floating point `{x.text}`"
  | string s => s!"string {quoted s}"
  | sequence => "sequence"
  | map => "map"

inductive Mismatch where
  | type (found : Found) (expected : String)
  | value (found : Found) (expected : String)
  | length (length : Nat) (expected : String)
  | missing (field : String)
  | duplicate (field : String)
  | variant (name : String) (known : List String)
  | custom (text : String)
  deriving DecidableEq, Repr

/-- A choice between names, in backticks. -/
def alternatives : List String → String
  | [a] => s!"`{a}`"
  | [a, b] => s!"`{a}` or `{b}`"
  | names => "one of " ++ ", ".intercalate (names.map fun n => s!"`{n}`")

def Mismatch.message : Mismatch → String
  | type found expected => s!"invalid type: {found.message}, expected {expected}"
  | value found expected => s!"invalid value: {found.message}, expected {expected}"
  | length n expected => s!"invalid length {n}, expected {expected}"
  | missing field => s!"missing field `{field}`"
  | duplicate field => s!"duplicate field `{field}`"
  | variant name known => s!"unknown variant `{name}`, expected {alternatives known}"
  | custom text => text

inductive Cause where
  | fault (f : Fault)
  | mismatch (m : Mismatch)
  deriving DecidableEq, Repr

def Cause.message : Cause → String
  | fault f => f.message
  | mismatch m => m.message

/-- An error in a text, and where it stands if that is known. -/
structure TextError where
  cause : Cause
  position : Option Position
  deriving DecidableEq, Repr

def TextError.message (e : TextError) : String :=
  match e.position with
  | none => e.cause.message
  | some p => s!"{e.cause.message} at line {p.line} column {p.column}"

end AddressPlan.Json
