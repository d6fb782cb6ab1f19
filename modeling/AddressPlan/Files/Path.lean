/-!
Paths: names with slashes between them. A path that starts with a slash is absolute, any other is relative to
the working directory.
-/

namespace AddressPlan.Path

/-- The parts between slashes, empty ones included. -/
def parts (path : String) : List (List Char) :=
  path.toList.splitOn '/'

def isAbsolute (path : String) : Bool :=
  path.toList.head? == some '/'

/-- The parts that are not empty. -/
def words (path : String) : List String :=
  ((parts path).map String.ofList).filter (· != "")

/-- The names to follow. A slash at the end asks for a directory, as a point after it does. -/
def names (path : String) : List String :=
  if path.toList.getLast? = some '/' then words path ++ ["."] else words path

/-- Parts that lead nowhere, except at the start of a path. -/
def isIdle (part : List Char) : Bool :=
  part == [] || part == ['.']

def ofParts (ps : List (List Char)) : String :=
  .ofList (['/'].intercalate ps)

/-- The directory that a path lies in, empty for the working directory; a path without a name lies nowhere. -/
def parent? (path : String) : Option String :=
  match parts path with
  | [] => none
  | first :: rest =>
    let dropIdle (ps : List (List Char)) := (ps.reverse.dropWhile isIdle).reverse
    match (dropIdle rest).dropLast, dropIdle rest with
    | _, [] => if first.isEmpty then none else some ""
    | front, _ =>
      match first, dropIdle front with
      | [], [] => some "/"
      | _, front => some (ofParts (first :: front))

def join (directory name : String) : String :=
  if directory.isEmpty || directory.toList.getLast? == some '/' then directory ++ name
  else directory ++ "/" ++ name

end AddressPlan.Path
