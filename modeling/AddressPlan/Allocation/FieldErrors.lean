import AddressPlan.Json.Value

/-!
What is wrong with one requested item: messages about its fields, in the order in which they were found. They
are shown field by field, the fields in ascending order.
-/

namespace AddressPlan

structure FieldErrors where
  entries : List (String × String)
  deriving DecidableEq, Repr

namespace FieldErrors

def empty : FieldErrors :=
  ⟨[]⟩

def single (field message : String) : FieldErrors :=
  ⟨[(field, message)]⟩

def join (es : List FieldErrors) : FieldErrors :=
  ⟨es.flatMap (·.entries)⟩

def isEmpty (e : FieldErrors) : Bool :=
  e.entries.isEmpty

def messages (e : FieldErrors) (field : String) : List String :=
  (e.entries.filter (·.1 == field)).map (·.2)

/-- Puts a name into an ascending list, unless it is there. -/
def insertName (name : String) : List String → List String
  | [] => [name]
  | n :: ns => if name = n then n :: ns else if name < n then name :: n :: ns else n :: insertName name ns

def fields (e : FieldErrors) : List String :=
  e.entries.foldl (fun names entry => insertName entry.1 names) []

def text (e : FieldErrors) : String :=
  "; ".intercalate (e.fields.flatMap fun f => (e.messages f).map fun m => s!"{f}: {m}")

def toJson (e : FieldErrors) : Json :=
  .object (e.fields.map fun f => (f, .strings (e.messages f)))

/-- The items of a batch that have messages, in one line. -/
def summary (items : List FieldErrors) : String :=
  let shown := items.zipIdx.filterMap fun (e, i) => if e.isEmpty then none else some s!"item {i}: {e.text}"
  "validation failed: " ++ ", ".intercalate shown

end FieldErrors

end AddressPlan
