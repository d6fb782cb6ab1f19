/-!
Digits of natural numbers. A text is read greedily into the values of its leading digits, and
`ofDigits` is the number that such values stand for; numbers are written with `Nat.toDigits`.
-/

namespace AddressPlan.Text

/-- The value of a digit of the given base (at most 16); letters of either case stand for ten and up. -/
def digit? (base : Nat) (c : Char) : Option Nat :=
  let value :=
    if '0' ≤ c ∧ c ≤ '9' then c.toNat - '0'.toNat
    else if 'a' ≤ c ∧ c ≤ 'f' then c.toNat - 'a'.toNat + 10
    else if 'A' ≤ c ∧ c ≤ 'F' then c.toNat - 'A'.toNat + 10
    else base
  if value < base then some value else none

/-- The values of the leading digits, and what follows them. -/
def takeDigits (base : Nat) : List Char → List Nat × List Char
  | [] => ([], [])
  | c :: cs =>
    match digit? base c with
    | some d => (d :: (takeDigits base cs).1, (takeDigits base cs).2)
    | none => ([], c :: cs)

/-- The number with the given digits, most significant first. -/
def ofDigits (base : Nat) (ds : List Nat) : Nat :=
  ds.foldl (fun n d => n * base + d) 0

def decimal (n : Nat) : List Char :=
  Nat.toDigits 10 n

/-- Decimal digits, filled with zeros on the left up to `width`. -/
def padded (width n : Nat) : List Char :=
  List.replicate (width - (decimal n).length) '0' ++ decimal n

/-- The whole text as a number: digits only, and at least one. -/
def number? (base : Nat) (cs : List Char) : Option Nat :=
  match takeDigits base cs with
  | (d :: ds, []) => some (ofDigits base (d :: ds))
  | _ => none

def dropChar? (c : Char) : List Char → Option (List Char)
  | [] => none
  | d :: ds => if d = c then some ds else none

end AddressPlan.Text
