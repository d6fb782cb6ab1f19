import AddressPlan.Number.Power
import AddressPlan.Text.Blank
import AddressPlan.Time.Timestamp

/-!
Reading timestamps. The form is that of RFC 3339 with some freedom: blanks may surround the numbers, one digit
is enough where two are usual, and date and time may be separated by a blank. Every number is checked as soon
as it is read, whether the numbers make up a point in time is checked last.
-/

namespace AddressPlan.Time

open Text

inductive TimeError where
  | outOfRange
  | impossible
  | invalid
  | tooShort
  | tooLong
  deriving DecidableEq, Repr

def TimeError.message : TimeError → String
  | outOfRange => "input is out of range"
  | impossible => "no possible date and time matching input"
  | invalid => "input contains invalid characters"
  | tooShort => "premature end of input"
  | tooLong => "trailing input"

namespace Timestamp

/-- A step of reading, on what is left of the text. -/
abbrev Scan := StateT (List Char) (Except TimeError)

namespace Scan

def skipBlanks : Scan Unit :=
  modify trimStart

/-- Digits, at least one and at most `most` of them. -/
def digits (most : Nat) : Scan Nat := do
  let cs ← get
  let (ds, _) := takeDigits 10 (cs.take most)
  if cs.isEmpty then throw .tooShort
  else if ds.isEmpty then throw .invalid
  else
    set (cs.drop ds.length)
    return ofDigits 10 ds

/-- A number of at most two digits from `low` to `high`, after blanks. -/
def number (low high : Nat) : Scan Nat := do
  skipBlanks
  let n ← digits 2
  if low ≤ n ∧ n ≤ high then return n else throw .outOfRange

def separator (c : Char) : Scan Unit := do
  skipBlanks
  match ← get with
  | [] => throw .tooShort
  | d :: rest => if d = c then set rest else throw .invalid

/-- The greatest number that a year may be written as; there are not so many years. -/
def maxWrittenYear : Nat := 2 ^ (31 : Nat) - 1

/-- A year: four digits at most, unless it has a sign. -/
def year : Scan Int := do
  skipBlanks
  match ← get with
  | '-' :: rest =>
    set rest
    let n ← digits rest.length
    if n ≤ maxWrittenYear + 1 then return -(n : Int) else throw .outOfRange
  | '+' :: rest =>
    set rest
    let n ← digits rest.length
    if n ≤ maxWrittenYear then return n else throw .outOfRange
  | _ => return (← digits 4 : Nat)

/-- The decimals of a second, in nanoseconds; what is finer is dropped. -/
def fraction : Scan Nat := do
  match ← get with
  | '.' :: rest =>
    set rest
    let (ds, _) := takeDigits 10 (rest.take 9)
    let n ← digits 9
    modify fun cs => (takeDigits 10 cs).2
    return n * 10 ^ (9 - ds.length)
  | _ => return 0

/-- Two characters, of which a text must have at least two bytes left. -/
def pair : Scan (Char × Option Char) := do
  match ← get with
  | [] => throw .tooShort
  | [c] => if c.utf8Size < 2 then throw .tooShort else return (c, none)
  | c :: d :: _ => return (c, some d)

/-- The signs of an offset; a minus may also be the mathematical one. -/
def sign : Scan Int := do
  match ← get with
  | [] => throw .tooShort
  | c :: rest =>
    set rest
    if c = '+' then return 1
    else if c = '-' ∨ c = '\u2212' then return -1
    else throw .invalid

def offset : Scan Int := do
  let sign ← sign
  let (a, b) ← pair
  let hours ← match digit? 10 a, b.bind (digit? 10) with
    | some x, some y => pure (x * 10 + y)
    | _, _ => throw .invalid
  modify (·.drop 2)
  modify fun cs => cs.dropWhile fun c => c == ':' || isBlank c
  let (a, b) ← pair
  let minutes ← match digit? 10 a, b.bind (digit? 10) with
    | some x, some y => if x < 6 then pure (x * 10 + y) else throw .outOfRange
    | _, _ => throw .invalid
  modify (·.drop 2)
  return sign * (hours * 60 + minutes : Nat)

/-- A zone: UTC by one of its names, or an offset from it in minutes. -/
def zone : Scan Int := do
  let cs ← get
  if (cs.take 3).map Char.toUpper = ['U', 'T', 'C'] then
    set (cs.drop 3)
    return 0
  else
    match cs with
    | 'Z' :: rest | 'z' :: rest => do set rest; return 0
    | _ => offset

def dateEnd : Scan Unit := do
  match ← get with
  | [] => throw .tooShort
  | c :: rest => if c = 't' ∨ c = 'T' ∨ c = ' ' then set rest else throw .invalid

def timestamp : Scan Timestamp := do
  let year ← year
  separator '-'
  let month ← number 1 12
  separator '-'
  let day ← number 1 31
  dateEnd
  let hour ← number 0 23
  separator ':'
  let minute ← number 0 59
  separator ':'
  let second ← number 0 60
  let nano ← fraction
  skipBlanks
  let zone ← zone
  skipBlanks
  if !(← get).isEmpty then throw .tooLong
  match Date.of? year month day with
  | none => throw .outOfRange
  | some date =>
    match of? date hour minute second nano with
    | none => throw .outOfRange
    | some t =>
      if dayMinutes ≤ zone.natAbs then throw .outOfRange
      else
        match t.ahead? zone with
        | some t => return t
        | none => throw .impossible

end Scan

def ofText (text : String) : Except TimeError Timestamp :=
  Scan.timestamp.run' text.toList

end Timestamp

end AddressPlan.Time
