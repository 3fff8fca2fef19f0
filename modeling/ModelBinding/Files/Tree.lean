import ModelBinding.Files.Access

/-!
# File trees

A file system as a value: what is at each place, and the place that relative paths start
from. A path is followed part by part, and every part but the last has to be a directory.
-/
namespace ModelBinding

/-- The names that lead from the root to a place. -/
abbrev Place := List String

inductive FileNode where
  | directory
  | file (content : ByteArray)

instance (node : FileNode) : Decidable (node = .directory) :=
  match node with
  | .directory => .isTrue rfl
  | .file _ => .isFalse (fun h => nomatch h)

/-- A file system. The root is a directory whatever the list says. -/
structure FileTree where
  workingDirectory : Place
  nodes : List (Place × FileNode)

namespace FileTree

def node? (tree : FileTree) (place : Place) : Option FileNode :=
  if place = [] then some .directory else tree.nodes.lookup place

/-- Put a node at a place, instead of any other. -/
def put (tree : FileTree) (place : Place) (node : FileNode) : FileTree :=
  { tree with nodes := (place, node) :: tree.nodes.filter (·.1 != place) }

theorem lookup_filter_ne {place other : Place} (h : other ≠ place) (nodes : List (Place × FileNode)) :
    (nodes.filter (·.1 != place)).lookup other = nodes.lookup other := by
  induction nodes with
  | nil => rfl
  | cons entry rest ih =>
    obtain ⟨name, node⟩ := entry
    by_cases hp : name = place
    · subst hp
      have hf : (other == name) = false := by simpa using h
      simp [List.lookup_cons, hf, ih]
    · have hk : (name != place) = true := by simpa using hp
      rw [List.filter_cons_of_pos (by simpa using hk), List.lookup_cons, List.lookup_cons, ih]

@[simp] theorem node?_put_self {place : Place} (tree : FileTree) (node : FileNode)
    (h : place ≠ []) : (tree.put place node).node? place = some node := by
  simp [node?, put, h]

@[simp] theorem node?_put_of_ne {place other : Place} (tree : FileTree) (node : FileNode)
    (h : other ≠ place) : (tree.put place node).node? other = tree.node? other := by
  have hf : (other == place) = false := by simpa using h
  simp [node?, put, List.lookup_cons, hf, lookup_filter_ne h]

/-- The tree without a place and all that is below it. -/
def erase (tree : FileTree) (place : Place) : FileTree :=
  { tree with nodes := tree.nodes.filter fun (other, _) => !place.isPrefixOf other }

/-- Where one part of a path leads from a place. -/
def step (tree : FileTree) (place : Place) (part : String) : Except FileFault Place :=
  match tree.node? place with
  | none => .error .notFound
  | some (.file _) => .error .notADirectory
  | some .directory =>
    .ok (if part = "." then place else if part = ".." then place.dropLast else place ++ [part])

/-- The place that a path leads to; nothing needs to be there. -/
def locate (tree : FileTree) (path : String) : Except FileFault Place :=
  if path.isEmpty then .error .notFound
  else (Path.steps path).foldlM tree.step (if Path.isAbsolute path then [] else tree.workingDirectory)

def kindOf : FileNode → FileKind
  | .directory => .directory
  | .file _ => .regular

def kind? (tree : FileTree) (path : String) : Option FileKind :=
  match tree.locate path with
  | .error _ => none
  | .ok place => (tree.node? place).map kindOf

/-- The names directly below a place. -/
def namesAt (tree : FileTree) (place : Place) : List String :=
  tree.nodes.filterMap fun (other, _) =>
    if other.dropLast = place then other.getLast? else none

def names (tree : FileTree) (path : String) : Except FileFault (List String) := do
  let place ← tree.locate path
  match tree.node? place with
  | none => throw .notFound
  | some (.file _) => throw .notADirectory
  | some .directory => return tree.namesAt place

def read (tree : FileTree) (path : String) : Except FileFault String := do
  let place ← tree.locate path
  match tree.node? place with
  | none => throw .notFound
  | some .directory => throw .isADirectory
  | some (.file content) =>
    match String.fromUTF8? content with
    | some text => return text
    | none => throw .notText

def writeBytes (tree : FileTree) (path : String) (content : ByteArray) :
    Except FileFault FileTree := do
  let place ← tree.locate path
  match tree.node? place with
  | some .directory => throw .isADirectory
  | _ => return tree.put place (.file content)

def write (tree : FileTree) (path text : String) : Except FileFault FileTree :=
  tree.writeBytes path text.toUTF8

/-- A directory is made also if the path ends in a slash. -/
def makeDirectory (tree : FileTree) (path : String) : Except FileFault FileTree := do
  let place ← tree.locate (Path.withoutTrailing path)
  match tree.node? place with
  | some _ => throw .exists
  | none => return tree.put place .directory

/-- A change of the tree as a step of a computation; one that fails changes nothing. -/
def change (f : FileTree → Except FileFault FileTree) : StateM FileTree (Except FileFault Unit) :=
  fun tree =>
    match f tree with
    | .ok changed => (.ok (), changed)
    | .error fault => (.error fault, tree)

instance : FileAccess (StateM FileTree) where
  kind? path := fun tree => (tree.kind? path, tree)
  names path := fun tree => (tree.names path, tree)
  read path := fun tree => (tree.read path, tree)
  write path text := change (·.write path text)
  makeDirectory path := change (·.makeDirectory path)

end FileTree

end ModelBinding
