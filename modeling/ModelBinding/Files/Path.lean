/-!
# Paths

A path is a text; slashes separate its parts. Parts that are empty or a `.` name nothing, but for
the system they still ask for a directory, and a `.` that a path begins with belongs to its
spelling: `./a` and `a` lead to one place and are spelled differently.
-/
namespace ModelBinding.Path

/-- The texts between the slashes; there is always one more than there are slashes. -/
def splitSlash : List Char → List (List Char)
  | [] => [[]]
  | c :: s =>
    if c = '/' then [] :: splitSlash s
    else
      match splitSlash s with
      | [] => [[c]]
      | part :: rest => (c :: part) :: rest

def parts (path : String) : List String := (splitSlash path.toList).map String.ofList

/-- Whether a part names something. -/
def isName (part : String) : Bool := part != "" && part != "."

def isAbsolute (path : String) : Bool := path.toList.head? == some '/'

/-- The root, for an absolute path, or else a leading `.`, and then the parts that name something. -/
def components (path : String) : List String :=
  match parts path with
  | [] | [""] => []
  | "" :: rest => "/" :: rest.filter isName
  | first :: rest => first :: rest.filter isName

/-- The path of some components. -/
def ofComponents : List String → String
  | "/" :: rest => "/" ++ "/".intercalate rest
  | names => "/".intercalate names

/--
The parts that the system goes through one after the other. An empty part counts only at the end,
where it asks for a directory just as a `.` does.
-/
def steps (path : String) : List String :=
  let named := (parts path).filter (· != "")
  if path.toList.getLast? = some '/' then named ++ ["."] else named

/-- The path without the slashes at its end. -/
def withoutTrailing (path : String) : String :=
  String.ofList (path.toList.reverse.dropWhile (· == '/')).reverse

/-- The path of a name in a directory. -/
def join (directory name : String) : String :=
  if directory.isEmpty || directory.toList.getLast? == some '/' then directory ++ name
  else directory ++ "/" ++ name

/-- The last name of a path; the root, `.` and `..` have none. -/
def fileName? (path : String) : Option String :=
  (components path).getLast?.filter fun name => name != "/" && name != "." && name != ".."

/-- The components without a `.` at the front. -/
def withoutLeadingDot : List String → List String
  | "." :: names => names
  | names => names

/-- The names that lead from a directory to a path, if the one begins with the other. -/
def relative? : (directory path : List String) → Option (List String)
  | [], path => some path
  | a :: directory, b :: path => if a = b then relative? directory path else none
  | _ :: _, [] => none

end ModelBinding.Path
