import AddressPlan.Number.Shortest

/-!
JSON values. Integers keep every digit they need, all other numbers are doubles. The members of an object
are a list of pairs; what is read from text has each name once and in ascending order (`insert`), what is
written keeps the order in which it was built.
-/

namespace AddressPlan

namespace Json

inductive Number where
  | integer (i : Int)
  | double (x : Binary64)
  deriving DecidableEq, Repr

/-- The greatest integer that is read as one, and not as a double. -/
def maxInteger : Nat := 2 ^ (64 : Nat) - 1

end Json

inductive Json where
  | null
  | bool (b : Bool)
  | number (n : Json.Number)
  | string (s : String)
  | array (items : List Json)
  | object (members : List (String × Json))
  deriving Inhabited, Repr

namespace Json

def nat (n : Nat) : Json :=
  number (.integer n)

def ofOption (f : α → Json) : Option α → Json
  | none => null
  | some a => f a

def strings (ss : List String) : Json :=
  array (ss.map string)

/-- Puts a member in its place; a later one replaces an earlier one of the same name. -/
def insert (name : String) (value : Json) : List (String × Json) → List (String × Json)
  | [] => [(name, value)]
  | (n, v) :: rest =>
    if name = n then (n, value) :: rest
    else if name < n then (name, value) :: (n, v) :: rest
    else (n, v) :: insert name value rest

/-- Members in ascending order of their names, the last one of each name. -/
def ordered (members : List (String × Json)) : List (String × Json) :=
  members.foldl (fun ms m => insert m.1 m.2 ms) []

def member? (name : String) : Json → Option Json
  | object members => (members.find? (·.1 == name)).map (·.2)
  | _ => none

/-- What a value is called when something else was expected. -/
def kind : Json → String
  | null => "null"
  | bool _ => "boolean"
  | number _ => "number"
  | string _ => "string"
  | array _ => "array"
  | object _ => "object"

def isArray : Json → Bool
  | array _ => true
  | _ => false

end Json

end AddressPlan
