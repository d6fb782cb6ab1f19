import AddressPlan.Text.Digits
import AddressPlan.Yaml.Cursor

/-!
Reading YAML scalars: plain, quoted and block scalars. Line breaks inside plain and quoted scalars fold: a
single one becomes a space, and of several the first is dropped. Every reader takes the cursor at the start
of a scalar and gives the text and the cursor after it.
-/

namespace AddressPlan.Yaml

open Text

inductive Style where
  | plain
  | quoted
  | literal
  | folded
  deriving DecidableEq, Repr

/-! ### Gaps between words -/

/-- What stands between two words of a scalar: blanks, or line breaks with the blanks around them. -/
structure Gap where
  blanks : List Char
  firstBreak : List Char
  laterBreaks : List Char
  isBroken : Bool

namespace Gap

def none : Gap :=
  ⟨[], [], [], false⟩

/-- The gap after a line break that is escaped and so leaves no trace. -/
def escapedBreak : Gap :=
  ⟨[], [], [], true⟩

def text (g : Gap) : List Char :=
  if g.isBroken then
    if g.firstBreak = ['\n'] then (if g.laterBreaks.isEmpty then [' '] else g.laterBreaks)
    else g.firstBreak ++ g.laterBreaks
  else g.blanks

/-- Extends a gap as far as it goes. Tabs may not stand in front of the column `floor` of a new line. -/
def extend (floor : Nat) : (fuel : Nat) → Gap → Cursor → Option (Gap × Cursor)
  | 0, g, c => some (g, c)
  | fuel + 1, g, c =>
    match c.peek? 0 with
    | Option.none => some (g, c)
    | some d =>
      if isBlank d then
        if g.isBroken then
          if d == '\t' && c.column < floor then Option.none else extend floor fuel g c.advance
        else extend floor fuel { g with blanks := g.blanks ++ [d] } c.advance
      else if isBreak d then
        if g.isBroken then extend floor fuel { g with laterBreaks := g.laterBreaks ++ c.breakText } c.advance
        else extend floor fuel ⟨[], c.breakText, [], true⟩ c.advance
      else some (g, c)

end Gap

/-! ### Plain scalars -/

/-- Indicators of flow collections, which end a plain scalar inside one. -/
def isFlowIndicator (d : Char) : Bool :=
  d == ',' || d == '[' || d == ']' || d == '\x7b' || d == '\x7d'

/-- A word of a plain scalar. Inside a flow collection a colon may not touch an indicator. -/
def plainWord (inFlow : Bool) : (fuel : Nat) → Cursor → Option (List Char × Cursor)
  | 0, c => some ([], c)
  | fuel + 1, c =>
    match c.peek? 0 with
    | none => some ([], c)
    | some d =>
      if c.endsWord 0 then some ([], c)
      else if inFlow && d == ':' && (c.peek? 1).any (fun e => isFlowIndicator e || e == '?') then none
      else if d == ':' && c.endsWord 1 then some ([], c)
      else if inFlow && isFlowIndicator d then some ([], c)
      else (plainWord inFlow fuel c.advance).map fun r => (d :: r.1, r.2)

/-- A plain scalar: its text, the cursor, and whether line breaks follow the last word. -/
def plainScalar (inFlow : Bool) (floor : Nat) : (fuel : Nat) → Gap → Cursor → Option (List Char × Cursor × Bool)
  | 0, g, c => some ([], c, g.isBroken)
  | fuel + 1, g, c =>
    if c.atDocumentMarker || c.startsWith '#' then some ([], c, g.isBroken)
    else do
      let (word, c) ← plainWord inFlow (c.rest.length + 1) c
      let front := if word.isEmpty then [] else g.text ++ word
      let before := if word.isEmpty then g else .none
      if c.hasBlank 0 || c.hasBreak 0 then
        let (gap, c) ← Gap.extend floor (c.rest.length + 1) before c
        if !inFlow && c.column < floor then some (front, c, gap.isBroken)
        else
          let (back, c, broken) ← plainScalar inFlow floor fuel gap c
          some (front ++ back, c, broken)
      else some (front, c, before.isBroken)

/-! ### Quoted scalars -/

def shortEscape? (d : Char) : Option Char :=
  if d == '0' then some '\x00'
  else if d == 'a' then some '\x07'
  else if d == 'b' then some '\x08'
  else if d == 't' || d == '\t' then some '\t'
  else if d == 'n' then some '\n'
  else if d == 'v' then some '\x0b'
  else if d == 'f' then some '\x0c'
  else if d == 'r' then some '\r'
  else if d == 'e' then some '\x1b'
  else if d == ' ' || d == '"' || d == '/' || d == '\\' then some d
  else if d == 'N' then some '\x85'
  else if d == '_' then some '\xa0'
  else if d == 'L' then some '\u2028'
  else if d == 'P' then some '\u2029'
  else none

/-- How many hexadecimal digits follow an escape. -/
def escapeDigits? (d : Char) : Option Nat :=
  if d == 'x' then some 2 else if d == 'u' then some 4 else if d == 'U' then some 8 else none

/-- An escape after its backslash: the character it stands for, and its length. -/
def escape? : List Char → Option (Char × Nat)
  | [] => none
  | d :: rest =>
    match shortEscape? d with
    | some e => some (e, 1)
    | none => do
      let count ← escapeDigits? d
      let (digits, _) := takeDigits 16 (rest.take count)
      let n := ofDigits 16 digits
      if digits.length = count ∧ n.isValidChar then some (.ofNat n, count + 1) else none

/-- A word of a quoted scalar, and the gap with which the next one starts. -/
def quotedWord (quote : Char) : (fuel : Nat) → Cursor → Option (List Char × Gap × Cursor)
  | 0, c => some ([], .none, c)
  | fuel + 1, c =>
    match c.peek? 0 with
    | none => some ([], .none, c)
    | some d =>
      if c.endsWord 0 then some ([], .none, c)
      else if d == quote then
        if quote == '\'' && c.peek? 1 == some quote then
          (quotedWord quote fuel (c.advanceBy 2)).map fun r => (quote :: r.1, r.2)
        else some ([], .none, c)
      else if quote == '"' && d == '\\' then
        if c.hasBreak 1 then some ([], .escapedBreak, c.advanceBy 2)
        else do
          let (e, length) ← escape? (c.rest.drop 1)
          (quotedWord quote fuel (c.advanceBy (length + 1))).map fun r => (e :: r.1, r.2)
      else (quotedWord quote fuel c.advance).map fun r => (d :: r.1, r.2)

/-- The rest of a quoted scalar after its opening quote. -/
def quotedScalar (quote : Char) : (fuel : Nat) → Cursor → Option (List Char × Cursor)
  | 0, _ => none
  | fuel + 1, c =>
    if c.atDocumentMarker || c.isEnd then none
    else do
      let (word, gap, c) ← quotedWord quote (c.rest.length + 1) c
      if c.startsWith quote then some (word, c.advance)
      else
        let (gap, c) ← Gap.extend 0 (c.rest.length + 1) gap c
        let (back, c) ← quotedScalar quote fuel c
        some (word ++ gap.text ++ back, c)

/-! ### Block scalars -/

/-- What becomes of the line breaks at the end of a block scalar. -/
inductive Chomping where
  | strip
  | clip
  | keep
  deriving DecidableEq

/-- The indicators after the sign of a block scalar: chomping, and how far it is indented if that is said. -/
def blockHeader (c : Cursor) : Option (Chomping × Nat × Cursor) :=
  let chomping? (c : Cursor) : Option Chomping :=
    if c.startsWith '+' then some .keep else if c.startsWith '-' then some .strip else none
  let digit? (c : Cursor) : Option Nat := (c.peek? 0).bind (Text.digit? 10)
  match chomping? c, digit? c with
  | some chomping, _ =>
    match digit? c.advance with
    | some 0 => none
    | some n => some (chomping, n, c.advanceBy 2)
    | none => some (chomping, 0, c.advance)
  | none, some 0 => none
  | none, some n =>
    match chomping? c.advance with
    | some chomping => some (chomping, n, c.advanceBy 2)
    | none => some (.clip, n, c.advance)
  | none, none => some (.clip, 0, c)

/-- Passes indentation and empty lines: their line breaks, the widest indentation, and the cursor at the first
line that is not empty. An indentation of zero means that it is not known yet. -/
def blockBreaks (indent : Nat) : (fuel widest : Nat) → Cursor → Option (List Char × Nat × Cursor)
  | 0, widest, c => some ([], widest, c)
  | fuel + 1, widest, c =>
    let spaces := (c.rest.takeWhile (· == ' ')).length
    let c := c.advanceBy (if indent = 0 then spaces else min spaces (indent - c.column))
    let widest := max widest c.column
    if (indent = 0 || c.column < indent) && c.startsWith '\t' then none
    else if c.hasBreak 0 then
      (blockBreaks indent fuel widest c.advance).map fun r => (c.breakText ++ r.1, r.2)
    else some ([], widest, c)

/-- The lines of a block scalar: `text` is what has been read, with the last line break and the empty lines
after it kept apart. -/
def blockLines (literal : Bool) (indent : Nat) :
    (fuel : Nat) → (text lineBreak breaks : List Char) → (wasBlank : Bool) → Cursor →
      Option (List Char × List Char × List Char × Cursor)
  | 0, text, lineBreak, breaks, _, c => some (text, lineBreak, breaks, c)
  | fuel + 1, text, lineBreak, breaks, wasBlank, c =>
    if c.column = indent && !c.isEnd then do
      let isBlank := c.hasBlank 0
      let joint :=
        if !literal && lineBreak == ['\n'] && !wasBlank && !isBlank then
          (if breaks.isEmpty then [' '] else [])
        else lineBreak
      let line := c.rest.takeWhile fun d => !isBreak d
      let c := c.advanceBy line.length
      let ending := c.breakText
      let (more, _, c) ← blockBreaks indent (c.rest.length + 1) 0 c.advance
      blockLines literal indent fuel (text ++ joint ++ breaks ++ line) ending more isBlank c
    else some (text, lineBreak, breaks, c)

/-- A block scalar whose sign has been passed, inside a collection indented by `parent` columns (less than zero
outside any). -/
def blockScalar (literal : Bool) (parent : Int) (c : Cursor) : Option (List Char × Cursor) := do
  let (chomping, increment, c) ← blockHeader c
  let c := (c.skipWhile isBlank).skipComment
  if !c.endsLine 0 then none
  else
    let known := if increment = 0 then 0 else (max parent 0).toNat + increment
    let (breaks, widest, c) ← blockBreaks known (c.rest.length + 1) 0 c.advance
    let indent := if known = 0 then max widest (max (parent + 1).toNat 1) else known
    let (text, lineBreak, breaks, c) ← blockLines literal indent (c.rest.length + 1) [] [] breaks false c
    let kept := if chomping = .strip then [] else lineBreak
    some (text ++ kept ++ (if chomping = .keep then breaks else []), c)

end AddressPlan.Yaml
