import AddressPlan.Json.Cursor

/-!
Reading the strings and numbers of JSON. A number that is written as an integer and fits stays one; any
other becomes a double, computed from as many leading digits as fit into 64 bits.
-/

namespace AddressPlan.Json

open Text

/-! ### Strings -/

abbrev Located := Except (Fault × Position)

def shortEscape? (c : Char) : Option Char :=
  if c = '"' then some '"'
  else if c = '\\' then some '\\'
  else if c = '/' then some '/'
  else if c = 'b' then some '\x08'
  else if c = 'f' then some '\x0c'
  else if c = 'n' then some '\n'
  else if c = 'r' then some '\r'
  else if c = 't' then some '\t'
  else none

def hexUnit (cs : List Char) (p : Position) : Located Nat :=
  let ds := (cs.take 4).filterMap (digit? 16)
  if ds.length = 4 then .ok (ofDigits 16 ds)
  else if 4 ≤ (String.ofList (cs.take 4)).utf8ByteSize then .error (.badEscape, p.afterBytes 4 cs)
  else .error (.endInString, p.afterBytes 4 cs)

def surrogatePair (high low : Nat) : Nat :=
  (high - 0xd800) * 0x400 + (low - 0xdc00) + 0x10000

/-- The character that the text after `\u` stands for, and how many characters it takes. -/
def unicodeEscape (cs : List Char) (p : Position) : Located (Char × Nat) := do
  let n ← hexUnit cs p
  if n < 0xd800 ∨ 0xdfff < n then return (Char.ofNat n, 4)
  if 0xdc00 ≤ n then throw (.loneSurrogate, p.along 4)
  match cs.drop 4 with
  | [] => throw (.endInString, p.along 4)
  | '\\' :: [] => throw (.endInString, p.along 5)
  | '\\' :: 'u' :: more =>
    let low ← hexUnit more (p.along 6)
    if low < 0xdc00 ∨ 0xdfff < low then throw (.loneSurrogate, p.along 10)
    return (Char.ofNat (surrogatePair n low), 10)
  | '\\' :: c :: _ => throw (.brokenSurrogate, (p.along 5).afterByte c)
  | c :: _ => throw (.brokenSurrogate, (p.along 4).afterByte c)

/-- The character that the text after a backslash stands for, and how many characters it takes. -/
def escape (cs : List Char) (p : Position) : Located (Char × Nat) :=
  match cs with
  | [] => .error (.endInString, p)
  | 'u' :: cs => (unicodeEscape cs (p.along 1)).map fun (c, n) => (c, n + 1)
  | c :: _ =>
    match shortEscape? c with
    | some d => .ok (d, 1)
    | none => .error (.badEscape, p.afterByte c)

/-- The rest of a string after its opening quote: its characters, what follows the closing quote, and the
position there. -/
def stringTail : List Char → Position → Located (List Char × List Char × Position)
  | [], p => .error (.endInString, p)
  | c :: cs, p =>
    if c = '"' then .ok ([], cs, p.along 1)
    else if c = '\\' then
      match escape cs (p.along 1) with
      | .error e => .error e
      | .ok (d, n) => (stringTail (cs.drop n) (p.along (n + 1))).map fun r => (d :: r.1, r.2)
    else if c.toNat < 0x20 then .error (.controlCharacter, p.afterByte c)
    else (stringTail cs (p.after c)).map fun r => (c :: r.1, r.2)
termination_by cs => cs.length
decreasing_by
  · simp only [List.length_drop, List.length_cons]; omega
  · simp only [List.length_cons]; omega

namespace Reader

/-- Reads a string whose opening quote is next. -/
def quotedString : Reader String := fun c =>
  match stringTail (c.rest.drop 1) (c.position.along 1) with
  | .ok (chars, rest, position) =>
    .ok (.ofList chars) { c with rest := rest, position := position, peeked := false }
  | .error (f, p) => .error ⟨.fault f, some p⟩ c

/-! ### Numbers -/

/-- Appends digits to a number as long as it stays within 64 bits: the number, and how many digits are left. -/
def keepDigits : Nat → List Nat → Nat × Nat
  | n, [] => (n, 0)
  | n, d :: ds => if n * 10 + d ≤ maxInteger then keepDigits (n * 10 + d) ds else (n, ds.length + 1)

/-- The greatest exponent that is computed with. -/
def maxWrittenExponent : Nat := 2 ^ (31 : Nat) - 1

/-- The exponent with the given digits, or how many digits it takes to be too large. -/
def exponentDigits : (seen n : Nat) → List Nat → Except Nat Nat
  | _, n, [] => .ok n
  | seen, n, d :: ds =>
    if n * 10 + d ≤ maxWrittenExponent then exponentDigits (seen + 1) (n * 10 + d) ds else .error (seen + 1)

def double (negative : Bool) (n : Nat) (e : Int) : Reader Number := do
  modify Cursor.look
  match Binary64.ofDecimal? n e with
  | some x => return .double (if negative then x.negate else x)
  | none => failHere .numberTooLarge

def exponent (negative : Bool) (n : Nat) (e : Int) : Reader Number := do
  modify (·.pass 1)
  let signed := (← get).rest.head?
  if signed = some '+' ∨ signed = some '-' then modify (·.pass 1)
  let down := signed = some '-'
  let digits := (takeDigits 10 (← get).rest).1
  if digits.isEmpty then
    if (← get).rest.isEmpty then failHere .endInValue else failNext .badNumber
  else
    match exponentDigits 0 0 digits with
    | .ok written => do
      modify (·.pass digits.length)
      double negative n (if down then e - written else e + written)
    | .error seen =>
      if n ≠ 0 ∧ !down then do
        modify (·.pass seen)
        failHere .numberTooLarge
      else do
        modify fun c => (c.pass digits.length).look
        return .double (.zero negative)

def fraction (negative : Bool) (n : Nat) (dropped : Nat) : Reader Number := do
  modify (·.pass 1)
  let digits := (takeDigits 10 (← get).rest).1
  if digits.isEmpty then
    failNext (if (← get).rest.isEmpty then .endInValue else .badNumber)
  else
    modify (·.pass digits.length)
    let (n, left) := keepDigits n digits
    let e : Int := (dropped : Int) - (digits.length - left : Nat)
    match (← get).rest.head? with
    | some 'e' | some 'E' => exponent negative n e
    | _ => double negative n e

/-- The least magnitude of a negative integer that is too large for one. -/
def maxNegative : Nat := 2 ^ (63 : Nat)

/-- Reads a number from its first digit on. -/
def number (negative : Bool) : Reader Number := do
  match (takeDigits 10 (← get).rest).1 with
  | [] => if (← get).rest.isEmpty then failHere .endInValue else failNext .badNumber
  | 0 :: _ :: _ => do
    modify (·.pass 1)
    failNext .badNumber
  | digits => do
    modify (·.pass digits.length)
    let (n, dropped) := keepDigits 0 digits
    match (← get).rest.head? with
    | some '.' => fraction negative n dropped
    | some 'e' | some 'E' => exponent negative n dropped
    | _ =>
      if dropped ≠ 0 then double negative n dropped
      else do
        modify Cursor.look
        if !negative then return .integer n
        else if 0 < n ∧ n ≤ maxNegative then return .integer (-(n : Int))
        else double negative n 0

/-- Reads a number whose sign or first digit is next. -/
def signedNumber : Reader Number := do
  if (← get).rest.head? = some '-' then do
    modify (·.pass 1)
    number true
  else number false

end Reader

end AddressPlan.Json
