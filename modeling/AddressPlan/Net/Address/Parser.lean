import AddressPlan.Net.Address.Basic
import AddressPlan.Text.Digits

/-!
Reading addresses. Texts come in two dialects: a bare address is read strictly, the address of a
network with some tolerance. Both read IPv4 as four decimal octets and IPv6 as groups of at most four
hexadecimal digits, of which the last two may be written as octets and one run of zeros as `::`.
-/

namespace AddressPlan.Net.Address

open Text

/-- How tolerantly an address is read. -/
structure Dialect where
  /-- Octets may start with zeros they do not need. -/
  leadingZeros : Bool
  /-- A `::` may stand between eight groups that are all written out. -/
  idleGap : Bool
  deriving DecidableEq, Repr

/-- Bare addresses. -/
def Dialect.strict : Dialect := ⟨false, false⟩

/-- Addresses in front of a prefix length. -/
def Dialect.tolerant : Dialect := ⟨true, true⟩

/-- One octet: at most three decimal digits, below 256. -/
def octet? (d : Dialect) (cs : List Char) : Option (Nat × List Char) :=
  let (ds, rest) := takeDigits 10 cs
  if ds.isEmpty || 3 < ds.length then none
  else if !d.leadingZeros && ds.head? == some 0 && 1 < ds.length then none
  else if ofDigits 10 ds < 256 then some (ofDigits 10 ds, rest)
  else none

def dotted? (d : Dialect) (cs : List Char) : Option (Nat × List Char) := do
  let (a, cs) ← octet? d cs
  let (b, cs) ← octet? d (← dropChar? '.' cs)
  let (c, cs) ← octet? d (← dropChar? '.' cs)
  let (e, cs) ← octet? d (← dropChar? '.' cs)
  some (((a * 256 + b) * 256 + c) * 256 + e, cs)

/-- One IPv6 group: one to four hexadecimal digits. -/
def group? (cs : List Char) : Option (Nat × List Char) :=
  let (ds, rest) := takeDigits 16 cs
  if ds.isEmpty || 4 < ds.length then none else some (ofDigits 16 ds, rest)

/-- A run of groups, and whether it ended in octets. -/
structure Groups where
  values : List Nat
  endsInOctets : Bool
  rest : List Char

/-- Up to `room` groups; every group but the first follows a colon. Octets fill two places. -/
def takeGroups (d : Dialect) : (room : Nat) → (isFirst : Bool) → List Char → Groups
  | 0, _, cs => ⟨[], false, cs⟩
  | room + 1, isFirst, cs =>
    match if isFirst then some cs else dropChar? ':' cs with
    | none => ⟨[], false, cs⟩
    | some body =>
      match if 0 < room then dotted? d body else none with
      | some (n, rest) => ⟨[n / 65536, n % 65536], true, rest⟩
      | none =>
        match group? body with
        | none => ⟨[], false, cs⟩
        | some (g, rest) =>
          let more := takeGroups d room false rest
          ⟨g :: more.values, more.endsInOctets, more.rest⟩

def ofGroups (gs : List Nat) : Nat :=
  ofDigits 65536 gs

/-- Eight groups, or fewer on both sides of a `::`. -/
def colons? (d : Dialect) (cs : List Char) : Option (Nat × List Char) :=
  let front := takeGroups d 8 true cs
  if front.values.length = 8 then some (ofGroups front.values, front.rest)
  else if front.endsInOctets then none
  else do
    let rest ← dropChar? ':' (← dropChar? ':' front.rest)
    let room := if d.idleGap then 8 - front.values.length else 7 - front.values.length
    let back := takeGroups d room true rest
    let zeros := List.replicate (8 - front.values.length - back.values.length) 0
    some (ofGroups (front.values ++ zeros ++ back.values), back.rest)

/-- An address at the front of a text, and what follows it. -/
def take? (d : Dialect) (cs : List Char) : Option (Address × List Char) :=
  match dotted? d cs with
  | some (n, rest) => (ofValue? .v4 n).map (·, rest)
  | none => do
    let (n, rest) ← colons? d cs
    let a ← ofValue? .v6 n
    some (a, rest)

/-- A text that is a bare address and nothing else. -/
def ofChars? (cs : List Char) : Option Address :=
  match take? .strict cs with
  | some (a, []) => some a
  | _ => none

def syntaxMessage : String := "invalid IP address syntax"

end AddressPlan.Net.Address
