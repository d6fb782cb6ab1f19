import AddressPlan.Yaml.Token

/-!
YAML documents: the tree of nodes that a text stands for, and the nodes that references in it point to. A
text holds one document; a second one is an error, just as any token that fits nowhere.
-/

namespace AddressPlan.Yaml

/-- A node. A reference points to a node by its place among those that have an anchor. -/
inductive Node where
  | scalar (text : String) (style : Style) (tag : Option String)
  | sequence (items : List Node) (tag : Option String)
  | mapping (members : List (Node × Node)) (tag : Option String)
  | reference (target : Nat)
  | absent
  deriving Inhabited, Repr

structure Document where
  root : Node
  anchored : List Node

namespace Node

/-- A node that is not written at all. -/
def blank : Node :=
  scalar "" .plain none

def target (anchored : List Node) : Node → Node
  | reference i => anchored[i]?.getD absent
  | node => node

end Node

/-! ### Composition -/

/-- What is known while a document is composed: the tokens to come, the meaning of tag handles, the names of
anchors with their places, and the nodes that are complete. -/
structure Composer where
  tokens : List Token
  handles : List (List Char × List Char)
  names : List (List Char × Nat)
  complete : List (Nat × Node)

/-- A step of the composer; there is one kind of failure. -/
abbrev Compose := StateT Composer Option

namespace Compose

def peek : Compose (Option Token) := do
  return (← get).tokens.head?

def skip : Compose Unit :=
  modify fun s => { s with tokens := s.tokens.drop 1 }

def accept (t : Token) : Compose Bool := do
  if (← peek) = some t then
    skip
    return true
  else return false

def expect (t : Token) : Compose Unit := do
  if !(← accept t) then failure

/-- The next token is one of the given ones. -/
def meets (ts : List Token) : Compose Bool := do
  return (← peek).any ts.contains

/-- The properties of a node: its anchor and its tag, in either order. -/
def properties : Compose (Option (List Char) × Option (List Char × List Char)) := do
  match ← peek with
  | some (.anchor name) =>
    skip
    match ← peek with
    | some (.tag handle suffix) => do skip; return (some name, some (handle, suffix))
    | _ => return (some name, none)
  | some (.tag handle suffix) =>
    skip
    match ← peek with
    | some (.anchor name) => do skip; return (some name, some (handle, suffix))
    | _ => return (none, some (handle, suffix))
  | _ => return (none, none)

/-- A tag with its handle replaced by what that stands for. -/
def fullTag (handle suffix : List Char) : Compose String := do
  if handle.isEmpty then return .ofList suffix
  else
    match (← get).handles.find? (·.1 == handle) with
    | some (_, expansion) => return .ofList (expansion ++ suffix)
    | none => failure

/-- Gives the next place to an anchor. -/
def announce (name : List Char) : Compose Nat := do
  let i := (← get).names.length
  modify fun s => { s with names := (name, i) :: s.names }
  return i

mutual

/-- A node. Block collections may start here only where `inBlock` says so, and a sequence that is not indented
only where `flush` does. -/
def node : (fuel : Nat) → (inBlock flush : Bool) → Compose Node
  | 0, _, _ => failure
  | fuel + 1, inBlock, flush => do
    match ← peek with
    | some (.reference name) =>
      skip
      match (← get).names.find? (·.1 == name) with
      | some (_, i) => return .reference i
      | none => failure
    | _ =>
      let (anchor, tag) ← properties
      let tag ← tag.mapM fun t => fullTag t.1 t.2
      let place ← anchor.mapM announce
      let n ← content fuel inBlock flush tag (anchor.isSome || tag.isSome)
      match place with
      | some i => modify fun s => { s with complete := (i, n) :: s.complete }
      | none => pure ()
      return n

/-- A node after its properties; with properties it may be empty. -/
def content : (fuel : Nat) → (inBlock flush : Bool) → Option String → (hasProperties : Bool) → Compose Node
  | 0, _, _, _, _ => failure
  | fuel + 1, inBlock, flush, tag, hasProperties => do
    let next ← peek
    if flush && next = some .blockEntry then return .sequence (← flushEntries fuel) tag
    else
      match next with
      | some (.scalar text style) => do skip; return .scalar (.ofList text) style tag
      | some .flowSequence => do skip; return .sequence (← flowItems fuel true) tag
      | some .flowMapping => do skip; return .mapping (← flowMembers fuel true) tag
      | _ =>
        if inBlock && next = some .blockSequence then do skip; return .sequence (← blockEntries fuel) tag
        else if inBlock && next = some .blockMapping then do skip; return .mapping (← blockMembers fuel) tag
        else if hasProperties then return .scalar "" .plain tag
        else failure

/-- A node, or an empty one if one of the given tokens comes next. -/
def nodeUnless : (fuel : Nat) → (ends : List Token) → (inBlock flush : Bool) → Compose Node
  | 0, _, _, _ => failure
  | fuel + 1, ends, inBlock, flush => do
    if ← meets ends then return .blank else node fuel inBlock flush

def blockEntries : (fuel : Nat) → Compose (List Node)
  | 0 => failure
  | fuel + 1 => do
    if ← accept .blockEntry then
      let n ← nodeUnless fuel [.blockEntry, .blockEnd] true false
      return n :: (← blockEntries fuel)
    else
      expect .blockEnd
      return []

/-- The entries of a sequence that is not indented further than the mapping it stands in. -/
def flushEntries : (fuel : Nat) → Compose (List Node)
  | 0 => failure
  | fuel + 1 => do
    if ← accept .blockEntry then
      let n ← nodeUnless fuel [.blockEntry, .key, .value, .blockEnd] true false
      return n :: (← flushEntries fuel)
    else return []

def blockMembers : (fuel : Nat) → Compose (List (Node × Node))
  | 0 => failure
  | fuel + 1 => do
    if ← accept .key then
      let k ← nodeUnless fuel [.key, .value, .blockEnd] true true
      let v ← if ← accept .value then nodeUnless fuel [.key, .value, .blockEnd] true true else pure .blank
      return (k, v) :: (← blockMembers fuel)
    else
      expect .blockEnd
      return []

/-- The items of a flow sequence. One with a key is a mapping of a single member; where its key is empty, the
token that shows so is passed. -/
def flowItems : (fuel : Nat) → (isFirst : Bool) → Compose (List Node)
  | 0, _ => failure
  | fuel + 1, isFirst => do
    if ← accept .flowSequenceEnd then return []
    else
      if !isFirst then expect .flowEntry
      if ← accept .key then
        let k ← if ← meets [.value, .flowEntry, .flowSequenceEnd] then do skip; pure .blank
          else node fuel false false
        let v ← if ← accept .value then nodeUnless fuel [.flowEntry, .flowSequenceEnd] false false else pure .blank
        return .mapping [(k, v)] none :: (← flowItems fuel false)
      else if ← accept .flowSequenceEnd then return []
      else
        let n ← node fuel false false
        return n :: (← flowItems fuel false)

def flowMembers : (fuel : Nat) → (isFirst : Bool) → Compose (List (Node × Node))
  | 0, _ => failure
  | fuel + 1, isFirst => do
    if ← accept .flowMappingEnd then return []
    else
      if !isFirst then expect .flowEntry
      if ← accept .key then
        let k ← nodeUnless fuel [.value, .flowEntry, .flowMappingEnd] false false
        let v ← if ← accept .value then nodeUnless fuel [.flowEntry, .flowMappingEnd] false false else pure .blank
        return (k, v) :: (← flowMembers fuel false)
      else if ← accept .flowMappingEnd then return []
      else
        let k ← node fuel false false
        return (k, .blank) :: (← flowMembers fuel false)

end

/-- The handles that need no directive. -/
def defaultHandles : List (List Char × List Char) :=
  [("!".toList, "!".toList), ("!!".toList, "tag:yaml.org,2002:".toList)]

/-- The directives of a document: one version at most, and each handle once. -/
def directives : (fuel : Nat) → (hasVersion : Bool) → Compose Unit
  | 0, _ => failure
  | fuel + 1, hasVersion => do
    match ← peek with
    | some (.version major minor) =>
      if hasVersion || major ≠ 1 || !(minor = 1 || minor = 2) then failure
      skip
      directives fuel true
    | some (.tagDirective handle expansion) =>
      if (← get).handles.any (·.1 == handle) then failure
      skip
      modify fun s => { s with handles := (handle, expansion) :: s.handles }
      directives fuel hasVersion
    | _ => modify fun s => { s with handles := s.handles ++ defaultHandles }

def documentEnds : Compose Unit :=
  modify fun s => { s with tokens := s.tokens.dropWhile (· = .documentEnd) }

def document (fuel : Nat) : Compose Node := do
  match ← peek with
  | none => return .absent
  | some first =>
    directives fuel false
    let isMarked := match first with
      | .version _ _ | .tagDirective _ _ | .documentStart => true
      | _ => false
    if isMarked then expect .documentStart
    let root ← match ← peek with
      | none => pure .blank
      | some t =>
        let isOver := match t with
          | .version _ _ | .tagDirective _ _ | .documentStart | .documentEnd => true
          | _ => false
        if isMarked && isOver then pure .blank else node fuel true false
    documentEnds
    if (← peek).isSome then failure
    return root

end Compose

/-- Reads a text. Every node takes a token and goes through four steps at most, which bounds the fuel. -/
def Document.ofText? (text : String) : Option Document := do
  let tokens ← Token.ofChars? text.toList
  let (root, s) ← (Compose.document (4 * tokens.length + 8)).run ⟨tokens, [], [], []⟩
  let anchored := (List.range s.names.length).map fun i =>
    ((s.complete.find? (·.1 == i)).map (·.2)).getD .absent
  some ⟨root, anchored⟩

end AddressPlan.Yaml
