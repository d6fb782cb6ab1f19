import AddressPlan.Yaml.Scalar

/-!
The tokens of a YAML text. Block structure is made explicit here: a line that is indented further opens a
collection, one that is indented less closes it. A scalar is known to be a key only once the colon after it
is seen, so the places where a key may have started are kept, and the tokens for it are put in afterwards.
-/

namespace AddressPlan.Yaml

inductive Token where
  | version (major minor : Nat)
  | tagDirective (handle expansion : List Char)
  | documentStart
  | documentEnd
  | blockSequence
  | blockMapping
  | blockEnd
  | flowSequence
  | flowSequenceEnd
  | flowMapping
  | flowMappingEnd
  | blockEntry
  | flowEntry
  | key
  | value
  | reference (name : List Char)
  | anchor (name : List Char)
  | tag (handle suffix : List Char)
  | scalar (text : List Char) (style : Style)
  deriving DecidableEq, Repr

/-- A place where a key may have started: the number of tokens before it, and where it stands. A required key
is one whose line would be meaningless without it. -/
structure KeyStart where
  before : Nat
  index : Nat
  line : Nat
  column : Nat
  required : Bool

/-- What the lexer knows. `indent` is the column of the innermost block collection, less than zero outside any;
`keys` has one entry for the block context and one more for every flow collection that is open. Tokens are kept
last one first. -/
structure Lexer where
  cursor : Cursor
  indent : Int
  outer : List Int
  keyAllowed : Bool
  keys : List (Option KeyStart)
  tokens : List Token

/-- A step of the lexer; there is one kind of failure. -/
abbrev Lex := StateT Lexer Option

namespace Lexer

def ofChars (cs : List Char) : Lexer :=
  ⟨.ofChars cs, -1, [], true, [none], []⟩

def inFlow (l : Lexer) : Bool :=
  1 < l.keys.length

end Lexer

namespace Lex

def ensure (b : Bool) : Lex Unit :=
  if b then pure () else failure

def emit (t : Token) : Lex Unit :=
  modify fun l => { l with tokens := t :: l.tokens }

def moveTo (c : Cursor) : Lex Unit :=
  modify fun l => { l with cursor := c }

def skip (n : Nat) : Lex Unit :=
  modify fun l => { l with cursor := l.cursor.advanceBy n }

def allowKey (b : Bool) : Lex Unit :=
  modify fun l => { l with keyAllowed := b }

/-! ### Indentation -/

/-- Closes the block collections that are indented further than the given column. -/
def unwind (column : Int) : Lex Unit :=
  modify fun l =>
    if l.inFlow then l
    else
      let levels := l.indent :: l.outer
      let closed := levels.takeWhile (column < ·)
      match levels.dropWhile (column < ·) with
      | [] => l
      | indent :: outer =>
        { l with indent, outer, tokens := List.replicate closed.length .blockEnd ++ l.tokens }

/-- Opens a block collection if the given column lies further in, before the last `back` tokens. -/
def indentTo (column : Nat) (back : Nat) (t : Token) : Lex Unit :=
  modify fun l =>
    if l.inFlow || (column : Int) ≤ l.indent then l
    else { l with indent := column, outer := l.indent :: l.outer, tokens := l.tokens.insertIdx back t }

/-! ### Keys -/

def setKey (k : Option KeyStart) : Lex Unit :=
  modify fun l => { l with keys := k :: l.keys.drop 1 }

/-- Gives up the place where a key may have started. -/
def dropKey : Lex Unit := do
  ensure (!((← get).keys.head?.join.any (·.required)))
  setKey none

def saveKey : Lex Unit := do
  let l ← get
  if l.keyAllowed then
    dropKey
    let required := !l.inFlow && l.indent == l.cursor.column
    setKey (some ⟨l.tokens.length, l.cursor.index, l.cursor.line, l.cursor.column, required⟩)

/-- The most characters between the start of a key and its colon. -/
def maxKeyLength : Nat := 1024

/-- A key has to end on its line and within reach. -/
def expireKeys : Lex Unit := do
  let l ← get
  let isStale (k : KeyStart) : Bool := k.line < l.cursor.line || k.index + maxKeyLength < l.cursor.index
  ensure (l.keys.all fun k => k.all fun k => !(isStale k && k.required))
  set { l with keys := l.keys.map (Option.filter fun k => !isStale k) }

/-! ### Tokens -/

/-- Passes blanks, comments and line breaks. Tabs may not stand where a block key may start. -/
def skipFiller : (fuel : Nat) → Lex Unit
  | 0 => pure ()
  | fuel + 1 => do
    let l ← get
    let c := l.cursor.skipWhile fun d => d == ' ' || (d == '\t' && (l.inFlow || !l.keyAllowed))
    let c := c.skipComment
    if c.hasBreak 0 then
      moveTo c.advance
      if !l.inFlow then allowKey true
      skipFiller fuel
    else moveTo c

def versionNumber : Lex Nat := do
  let (digits, _) := Text.takeDigits 10 (← get).cursor.rest
  ensure (!digits.isEmpty && digits.length ≤ 9)
  skip digits.length
  return Text.ofDigits 10 digits

/-- A handle of tags: `!`, or a name between two of them. -/
def tagHandle (isDirective : Bool) : Lex (List Char) := do
  let c := (← get).cursor
  ensure (c.startsWith '!')
  let name := (c.rest.drop 1).takeWhile isNameChar
  skip (name.length + 1)
  if (← get).cursor.startsWith '!' then
    skip 1
    return '!' :: name ++ ['!']
  else
    ensure (!isDirective || name.isEmpty)
    return '!' :: name

/-- Characters of tags besides letters and digits. -/
def isTagChar (verbatim : Bool) (d : Char) : Bool :=
  isNameChar d || ";/?:@&=+$.!~*'()".toList.contains d || (verbatim && (d == ',' || d == '[' || d == ']'))

/-- One character in its percent form: the value of its bytes, checked against its first byte. -/
def percentByte? : List Char → Option Nat
  | '%' :: a :: b :: _ => do
    let x ← Text.digit? 16 a
    let y ← Text.digit? 16 b
    some (x * 16 + y)
  | _ => none

/-- The bytes of a character in percent form, given how many are to come. -/
def percentTail : (count n : Nat) → List Char → Option Nat
  | 0, n, _ => some n
  | count + 1, n, cs => do
    let b ← percentByte? cs
    if b / 64 = 2 then percentTail count (n * 64 + b % 64) (cs.drop 3) else none

/-- A character in percent form, and how much of the text it takes. -/
def percentChar? (cs : List Char) : Option (Char × Nat) := do
  let b ← percentByte? cs
  if b < 0x80 then some (.ofNat b, 3)
  else if b / 32 = 6 then (percentTail 1 (b % 32) (cs.drop 3)).map fun n => (.ofNat n, 6)
  else if b / 16 = 14 then (percentTail 2 (b % 16) (cs.drop 3)).map fun n => (.ofNat n, 9)
  else if b / 8 = 30 then (percentTail 3 (b % 8) (cs.drop 3)).map fun n => (.ofNat n, 12)
  else none

def tagChars (verbatim : Bool) : (fuel : Nat) → Lex (List Char)
  | 0 => pure []
  | fuel + 1 => do
    match (← get).cursor.rest with
    | [] => return []
    | d :: rest =>
      if d = '%' then
        let (e, length) ← percentChar? (d :: rest)
        skip length
        return e :: (← tagChars verbatim fuel)
      else if isTagChar verbatim d then
        skip 1
        return d :: (← tagChars verbatim fuel)
      else return []

def tagText (verbatim : Bool) : Lex (List Char) := do
  tagChars verbatim ((← get).cursor.rest.length + 1)

/-- A directive. Versions and tag handles are the only ones. -/
def directive : Lex Unit := do
  unwind (-1)
  dropKey
  allowKey false
  skip 1
  let name := (← get).cursor.rest.takeWhile isNameChar
  skip name.length
  ensure ((← get).cursor.endsWord 0)
  let blanks : Lex Unit := modify fun l => { l with cursor := l.cursor.skipWhile isBlank }
  if name = "YAML".toList then
    blanks
    let major ← versionNumber
    ensure ((← get).cursor.startsWith '.')
    skip 1
    let minor ← versionNumber
    emit (.version major minor)
  else if name = "TAG".toList then
    blanks
    let handle ← tagHandle true
    ensure ((← get).cursor.hasBlank 0)
    blanks
    let expansion ← tagText true
    ensure (!expansion.isEmpty && (← get).cursor.endsWord 0)
    emit (.tagDirective handle expansion)
  else failure
  blanks
  modify fun l => { l with cursor := l.cursor.skipComment }
  ensure ((← get).cursor.endsLine 0)
  skip 1

def documentMarker (t : Token) : Lex Unit := do
  unwind (-1)
  dropKey
  allowKey false
  skip 3
  emit t

def openFlow (t : Token) : Lex Unit := do
  saveKey
  modify fun l => { l with keys := none :: l.keys }
  allowKey true
  skip 1
  emit t

def closeFlow (t : Token) : Lex Unit := do
  dropKey
  modify fun l => if l.inFlow then { l with keys := l.keys.drop 1 } else l
  allowKey false
  skip 1
  emit t

def flowEntry : Lex Unit := do
  dropKey
  allowKey true
  skip 1
  emit .flowEntry

def blockEntry : Lex Unit := do
  let l ← get
  if !l.inFlow then
    ensure l.keyAllowed
    indentTo l.cursor.column 0 .blockSequence
  dropKey
  allowKey true
  skip 1
  emit .blockEntry

def explicitKey : Lex Unit := do
  let l ← get
  if !l.inFlow then
    ensure l.keyAllowed
    indentTo l.cursor.column 0 .blockMapping
  dropKey
  allowKey (!l.inFlow)
  skip 1
  emit .key

def value : Lex Unit := do
  let l ← get
  match l.keys.head?.join with
  | some k =>
    let back := l.tokens.length - k.before
    modify fun l => { l with tokens := l.tokens.insertIdx back .key }
    indentTo k.column (back + 1) .blockMapping
    setKey none
    allowKey false
  | none =>
    if !l.inFlow then
      ensure l.keyAllowed
      indentTo l.cursor.column 0 .blockMapping
    allowKey (!l.inFlow)
  skip 1
  emit .value

def name (make : List Char → Token) : Lex Unit := do
  saveKey
  allowKey false
  skip 1
  let name := (← get).cursor.rest.takeWhile isNameChar
  skip name.length
  let c := (← get).cursor
  ensure (!name.isEmpty && (c.endsWord 0 || (c.peek? 0).any "?:,]\x7d%@`".toList.contains))
  emit (make name)

def tag : Lex Unit := do
  saveKey
  allowKey false
  if (← get).cursor.peek? 1 = some '<' then
    skip 2
    let suffix ← tagText true
    ensure (!suffix.isEmpty && (← get).cursor.startsWith '>')
    skip 1
    emit (.tag [] suffix)
  else
    let handle ← tagHandle false
    if 1 < handle.length && handle.getLast? == some '!' then
      let suffix ← tagText false
      ensure (!suffix.isEmpty)
      emit (.tag handle suffix)
    else
      let suffix := handle.drop 1 ++ (← tagText false)
      emit (if suffix.isEmpty then .tag [] ['!'] else .tag ['!'] suffix)
  let l ← get
  ensure ((l.inFlow && l.cursor.startsWith ',') || l.cursor.endsWord 0)

def blockScalar (literal : Bool) : Lex Unit := do
  dropKey
  allowKey true
  skip 1
  let l ← get
  let (text, c) ← Yaml.blockScalar literal l.indent l.cursor
  moveTo c
  emit (.scalar text (if literal then .literal else .folded))

def quotedScalar (quote : Char) : Lex Unit := do
  saveKey
  allowKey false
  skip 1
  let c := (← get).cursor
  let (text, c) ← Yaml.quotedScalar quote (c.rest.length + 1) c
  moveTo c
  emit (.scalar text .quoted)

def plainScalar : Lex Unit := do
  saveKey
  allowKey false
  let l ← get
  let (text, c, broken) ← Yaml.plainScalar l.inFlow (l.indent + 1).toNat (l.cursor.rest.length + 1) .none l.cursor
  moveTo c
  if broken then allowKey true
  emit (.scalar text .plain)

/-- Characters that do not start a plain scalar. -/
def isIndicator (d : Char) : Bool :=
  "-?:,[]\x7b\x7d#&*!|>'\"%@`".toList.contains d

/-- The next token, at a cursor that stands on its first character. -/
def token (d : Char) : Lex Unit := do
  let l ← get
  let c := l.cursor
  let standsAlone := l.inFlow || c.endsWord 1
  if c.column = 0 && d = '%' then directive
  else if c.hasMarker '-' then documentMarker .documentStart
  else if c.hasMarker '.' then documentMarker .documentEnd
  else if d = '[' then openFlow .flowSequence
  else if d = '\x7b' then openFlow .flowMapping
  else if d = ']' then closeFlow .flowSequenceEnd
  else if d = '\x7d' then closeFlow .flowMappingEnd
  else if d = ',' then flowEntry
  else if d = '-' && c.endsWord 1 then blockEntry
  else if d = '?' && standsAlone then explicitKey
  else if d = ':' && standsAlone then value
  else if d = '*' then name .reference
  else if d = '&' then name .anchor
  else if d = '!' then tag
  else if d = '|' && !l.inFlow then blockScalar true
  else if d = '>' && !l.inFlow then blockScalar false
  else if d = '\'' || d = '"' then quotedScalar d
  else if !(isBlank d || isIndicator d) || (d = '-' && !c.hasBlank 1) ||
      (!l.inFlow && (d = '?' || d = ':') && !c.endsWord 1) then plainScalar
  else failure

/-- All tokens up to the end of the text. Every token takes a character, so the length of the text is fuel
enough. -/
def tokens : (fuel : Nat) → Lex Unit
  | 0 => failure
  | fuel + 1 => do
    skipFiller ((← get).cursor.rest.length + 1)
    expireKeys
    unwind (← get).cursor.column
    match (← get).cursor.peek? 0 with
    | some d => do token d; tokens fuel
    | none => do unwind (-1); dropKey

end Lex

/-- The tokens of a text, if it has any such structure. A mark of the byte order at its start is passed over. -/
def Token.ofChars? (cs : List Char) : Option (List Token) :=
  let cs := if cs.head? = some '\ufeff' then cs.drop 1 else cs
  if cs.all isPrintable then
    ((Lex.tokens (cs.length + 1)).run (.ofChars cs)).map fun r => r.2.tokens.reverse
  else none

end AddressPlan.Yaml
