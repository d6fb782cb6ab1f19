import AddressPlan.Text.Digits
import AddressPlan.Yaml.Node

/-!
What plain YAML scalars stand for: nothing, a truth value, an integer. Integers may be written in bases two,
eight, ten and sixteen, and a decimal one must not start with a zero it does not need.
-/

namespace AddressPlan.Yaml

/-- The scalars that stand for nothing. -/
def isNull (text : String) : Bool :=
  text = "null" || text = "Null" || text = "NULL" || text = "~"

def bool? (text : String) : Option Bool :=
  if text = "true" || text = "True" || text = "TRUE" then some true
  else if text = "false" || text = "False" || text = "FALSE" then some false
  else none

/-- Digits after a mark of their base. -/
def basedNumber? : List Char → Option Nat
  | '0' :: 'x' :: cs => Text.number? 16 cs
  | '0' :: 'o' :: cs => Text.number? 8 cs
  | '0' :: 'b' :: cs => Text.number? 2 cs
  | _ => none

/-- A decimal number without needless zeros. -/
def decimalNumber? (cs : List Char) : Option Nat :=
  if 1 < cs.length && cs.head? = some '0' then none else Text.number? 10 cs

def number? (cs : List Char) : Option Nat :=
  (basedNumber? cs).or (decimalNumber? cs)

/-- An integer with or without a sign, which is a minus only where negative integers are possible: there is no
negative zero. -/
def integer? (allowMinus : Bool) : List Char → Option Int
  | '-' :: cs => if allowMinus then (number? cs).map fun n => -(n : Int) else none
  | '+' :: cs => (number? cs).map fun n => (n : Int)
  | cs => (number? cs).map fun n => (n : Int)

/-- Tags of the core types. -/
def coreTag (name : String) : String :=
  "tag:yaml.org,2002:" ++ name

/-- Whether a scalar may stand for a value of a core type: plain ones may, and literal ones that say so. -/
def mayBe (name : String) (style : Style) (tag : Option String) : Bool :=
  style = .plain || (style = .literal && tag = some (coreTag name))

/-- The choice that a tag of the document's own makes, as in `!name`. -/
def localTag? (tag : Option String) : Option String :=
  match tag.map String.toList with
  | some ('!' :: c :: cs) => some (.ofList (c :: cs))
  | _ => none

end AddressPlan.Yaml
