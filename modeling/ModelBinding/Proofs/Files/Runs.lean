import ModelBinding.Project.Directory
import ModelBinding.Proofs.Files.Places

/-!
# Runs over a file tree

A computation that works on files is run from a tree and leaves a tree behind. One that only reads
leaves the tree that it was run from, also when it fails.
-/
namespace ModelBinding

variable {ε ε' α β : Type} {tree tree' : FileTree}

namespace FileTree

/-- What a computation comes to, and the tree that it leaves behind. -/
def run (tree : FileTree) (x : ExceptT ε (StateM FileTree) α) : Except ε α × FileTree :=
  x.run.run tree

variable {x : ExceptT ε (StateM FileTree) α} {f : α → ExceptT ε (StateM FileTree) β} {a : α} {b : β}

@[simp] theorem run_pure (tree : FileTree) (a : α) :
    tree.run (pure a : ExceptT ε (StateM FileTree) α) = (.ok a, tree) := rfl

@[simp] theorem run_throw (tree : FileTree) (e : ε) :
    tree.run (throw e : ExceptT ε (StateM FileTree) α) = (.error e, tree) := rfl

@[simp] theorem run_ofExcept (tree : FileTree) (result : Except ε α) :
    tree.run (ExceptT.mk (pure result) : ExceptT ε (StateM FileTree) α) = (result, tree) := rfl

/-- A result that is used as a computation. -/
@[simp] theorem run_liftExcept (tree : FileTree) (result : Except ε α) :
    tree.run (liftM result : ExceptT ε (StateM FileTree) α) = (result, tree) := by
  cases result with
  | error e => rfl
  | ok a => rfl

theorem run_bind_of_ok (h : tree.run x = (.ok a, tree')) : tree.run (x >>= f) = tree'.run (f a) := by
  unfold run at h ⊢
  rw [ExceptT.run_bind, StateT.run_bind, h]
  rfl

theorem run_bind_of_error {e : ε} (h : tree.run x = (.error e, tree')) :
    tree.run (x >>= f) = (.error e, tree') := by
  unfold run at h ⊢
  rw [ExceptT.run_bind, StateT.run_bind, h]
  rfl

/-- A sequence succeeds if its parts do, the second from the tree that the first leaves. -/
theorem run_bind_eq_ok : tree.run (x >>= f) = (.ok b, tree') ↔
    ∃ a mid, tree.run x = (.ok a, mid) ∧ mid.run (f a) = (.ok b, tree') := by
  rcases h : tree.run x with ⟨result, mid⟩
  cases result with
  | error e => simp [run_bind_of_error h]
  | ok a => simp [run_bind_of_ok h]

/-- A sequence fails with its first part, or with the second from the tree that the first leaves. -/
theorem run_bind_eq_error {e : ε} : tree.run (x >>= f) = (.error e, tree') ↔
    tree.run x = (.error e, tree') ∨
      ∃ a mid, tree.run x = (.ok a, mid) ∧ mid.run (f a) = (.error e, tree') := by
  rcases h : tree.run x with ⟨result, mid⟩
  cases result with
  | error e => simp [run_bind_of_error h]
  | ok a => simp [run_bind_of_ok h]

@[simp] theorem run_kind? (tree : FileTree) (path : String) :
    tree.run (FileAccess.kind? path : ExceptT ε (StateM FileTree) _) =
      (.ok (tree.kind? path), tree) := rfl

@[simp] theorem run_names (tree : FileTree) (path : String) :
    tree.run (FileAccess.names path : ExceptT ε (StateM FileTree) _) =
      (.ok (tree.names path), tree) := rfl

@[simp] theorem run_read (tree : FileTree) (path : String) :
    tree.run (FileAccess.read path : ExceptT ε (StateM FileTree) _) =
      (.ok (tree.read path), tree) := rfl

/-- A change that fails leaves the tree as it was, and the computation goes on with its fault. -/
theorem run_change (tree : FileTree) (edit : FileTree → Except FileFault FileTree) :
    tree.run (ExceptT.lift (change edit) : ExceptT ε (StateM FileTree) _) =
      match edit tree with
      | .ok edited => (.ok (.ok ()), edited)
      | .error fault => (.ok (.error fault), tree) := by
  change ((Except.ok (change edit tree).1, (change edit tree).2) : Except ε _ × FileTree) = _
  dsimp only [change]
  cases edit tree with
  | error fault => rfl
  | ok edited => rfl

theorem run_write (tree : FileTree) (path text : String) :
    tree.run (FileAccess.write path text : ExceptT ε (StateM FileTree) _) =
      match tree.write path text with
      | .ok written => (.ok (.ok ()), written)
      | .error fault => (.ok (.error fault), tree) :=
  run_change tree (·.write path text)

theorem run_makeDirectory (tree : FileTree) (path : String) :
    tree.run (FileAccess.makeDirectory path : ExceptT ε (StateM FileTree) _) =
      match tree.makeDirectory path with
      | .ok made => (.ok (.ok ()), made)
      | .error fault => (.ok (.error fault), tree) :=
  run_change tree (·.makeDirectory path)

/-! ## Computations that only read -/

/-- A computation that leaves every tree as it is. -/
def ReadOnly (x : ExceptT ε (StateM FileTree) α) : Prop := ∀ tree, (FileTree.run tree x).2 = tree

theorem ReadOnly.bind (hx : ReadOnly x) (hf : ∀ a, ReadOnly (f a)) : ReadOnly (x >>= f) := by
  intro tree
  rcases h : tree.run x with ⟨result, mid⟩
  have hmid : mid = tree := by
    rw [← hx tree, h]
  cases result with
  | error e => rw [run_bind_of_error h, hmid]
  | ok a =>
    rw [run_bind_of_ok h, hf a, hmid]

theorem ReadOnly.liftExcept (result : Except ε α) :
    ReadOnly (liftM result : ExceptT ε (StateM FileTree) α) := by
  intro tree
  rw [run_liftExcept]

theorem ReadOnly.tree_eq (h : ReadOnly x) (hrun : tree.run x = (.ok a, tree')) : tree' = tree := by
  rw [← h tree, hrun]

/-! ## Listing directories -/

/-- The names in a directory in increasing order; what is no directory has none. -/
def listing (tree : FileTree) (path : String) : List String :=
  match tree.names path with
  | .ok names => sortDistinct names
  | .error _ => []

theorem run_sortedNames (tree : FileTree) (path : String) :
    tree.run (FileAccess.sortedNames path : ExceptT ε (StateM FileTree) (List String)) =
      (.ok (tree.listing path), tree) := by
  unfold FileAccess.sortedNames listing
  rw [run_bind_of_ok (run_names tree path)]
  cases tree.names path with
  | error fault => rfl
  | ok names => rfl

theorem run_isRegular (tree : FileTree) (path : String) :
    tree.run (FileAccess.isRegular path : ExceptT ε (StateM FileTree) Bool) =
      (.ok (tree.kind? path == some .regular), tree) := by
  unfold FileAccess.isRegular
  rw [run_bind_of_ok (run_kind? tree path)]
  rfl

theorem run_mapM {f : α → ExceptT ε (StateM FileTree) β} {g : α → β}
    (h : ∀ a, tree.run (f a) = (.ok (g a), tree)) (as : List α) :
    tree.run (as.mapM f) = (.ok (as.map g), tree) := by
  induction as with
  | nil => rfl
  | cons a as ih =>
    rw [List.mapM_cons, run_bind_of_ok (h a), run_bind_of_ok ih]
    rfl

theorem run_filterM {p : α → ExceptT ε (StateM FileTree) Bool} {q : α → Bool}
    (h : ∀ a, tree.run (p a) = (.ok (q a), tree)) (as : List α) :
    tree.run (as.filterM p) = (.ok (as.filter q), tree) := by
  have hloop : ∀ kept, tree.run (List.filterAuxM p as kept) =
      (.ok ((as.filter q).reverse ++ kept), tree) := by
    induction as with
    | nil => exact fun kept => rfl
    | cons a as ih =>
      intro kept
      rw [List.filterAuxM, run_bind_of_ok (h a)]
      cases ha : q a with
      | false => simpa [ha] using ih kept
      | true => simpa [ha] using ih (a :: kept)
  rw [List.filterM, run_bind_of_ok (hloop [])]
  simp

end FileTree

/-! ## Sources -/

namespace Sources

open FileTree

/-- The regular files in a directory whose names end in a suffix. -/
def filesIn (tree : FileTree) (suffix directory : String) : List String :=
  ((tree.listing directory).filter (hasSuffix suffix)).filter fun name =>
    tree.kind? (Path.join directory name) == some .regular

/-- The names that lead from a directory to the files one directory below. -/
def nestedIn (tree : FileTree) (suffix directory : String) : List (List String) :=
  (tree.listing directory).flatMap fun name =>
    (filesIn tree suffix (Path.join directory name)).map fun file => [name, file]

/-- The names that lead from a directory to the sources. -/
def foundIn (tree : FileTree) (directory : String) : List (List String) :=
  (filesIn tree ".cpp" directory).map ([·]) ++ (filesIn tree ".c" directory).map ([·]) ++
    nestedIn tree ".c" directory

theorem run_filesWith (tree : FileTree) (suffix directory : String) :
    tree.run (filesWith suffix directory : ExceptT ε (StateM FileTree) (List String)) =
      (.ok (filesIn tree suffix directory), tree) := by
  unfold filesWith
  rw [run_bind_of_ok (run_sortedNames tree directory)]
  exact run_filterM (fun name => run_isRegular tree _) _

theorem run_nestedFilesWith (tree : FileTree) (suffix directory : String) :
    tree.run (nestedFilesWith suffix directory : ExceptT ε (StateM FileTree) _) =
      (.ok (nestedIn tree suffix directory), tree) := by
  have hname : ∀ name, tree.run ((do
      return (← filesWith suffix (Path.join directory name)).map fun file => [name, file]) :
        ExceptT ε (StateM FileTree) (List (List String))) =
      (.ok ((filesIn tree suffix (Path.join directory name)).map fun file => [name, file]), tree) := by
    intro name
    rw [run_bind_of_ok (run_filesWith tree suffix _)]
    rfl
  unfold nestedFilesWith
  rw [run_bind_of_ok (run_sortedNames tree directory), run_bind_of_ok (run_mapM hname _)]
  rfl

theorem run_search (tree : FileTree) (directory : String) :
    tree.run (search directory : ExceptT ε (StateM FileTree) _) = (.ok (foundIn tree directory), tree) := by
  unfold search
  rw [run_bind_of_ok (run_filesWith tree _ _), run_bind_of_ok (run_filesWith tree _ _),
    run_bind_of_ok (run_nestedFilesWith tree _ _)]
  rfl

/-- Discovery always succeeds, and it only reads. -/
theorem run_discover (tree : FileTree) (directory : String) :
    tree.run (discover directory : ExceptT ε (StateM FileTree) (List String)) =
      (.ok ((foundIn tree directory).filterMap (relative? directory)), tree) := by
  unfold discover
  rw [run_bind_of_ok (run_search tree directory)]
  rfl

theorem readOnly_discover (directory : String) :
    ReadOnly (discover directory : ExceptT ε (StateM FileTree) (List String)) := by
  intro tree
  rw [run_discover]

/-- Where there is no directory there are no sources. -/
theorem run_discover_of_no_directory {directory : String} {fault : FileFault}
    (h : tree.names directory = .error fault) :
    tree.run (discover directory : ExceptT ε (StateM FileTree) (List String)) = (.ok [], tree) := by
  have hlisting : tree.listing directory = [] := by
    rw [listing, h]
  rw [run_discover, foundIn, filesIn, filesIn, nestedIn, hlisting]
  rfl

end Sources

/-! ## Projects -/

namespace Project

open FileTree

variable {project : Project} {path text : String} {context : Context}

theorem run_readText (tree : FileTree) (path : String) :
    tree.run (readText path) = ((tree.read path).mapError (Error.file path), tree) := rfl

theorem run_writeText (tree : FileTree) (path text : String) :
    tree.run (writeText path text) = match tree.write path text with
      | .ok written => (.ok (), written)
      | .error fault => (.error (.file path fault), tree) := by
  have hwrite := @run_write Error tree path text
  unfold writeText atPath
  cases h : tree.write path text with
  | error fault =>
    rw [h] at hwrite
    rw [run_bind_of_ok hwrite]
    rfl
  | ok written =>
    rw [h] at hwrite
    rw [run_bind_of_ok hwrite]
    rfl

theorem run_writeText_eq_ok :
    tree.run (writeText path text) = (.ok (), tree') ↔ tree.write path text = .ok tree' := by
  rw [run_writeText]
  cases tree.write path text <;> simp

theorem run_writeText_eq_error {error : Error} : tree.run (writeText path text) = (.error error, tree') ↔
    tree = tree' ∧ ∃ fault, tree.write path text = .error fault ∧ .file path fault = error := by
  rw [run_writeText]
  cases tree.write path text with
  | error fault => simp [and_comm]
  | ok written => simp

theorem readOnly_readText (path : String) : ReadOnly (readText path : ExceptT Error (StateM FileTree) _) :=
  fun _ => rfl

theorem readOnly_assemble (project : Project) :
    ReadOnly (project.assemble : ExceptT Error (StateM FileTree) Context) := by
  refine .bind (.bind (readOnly_readText _) fun _ => .liftExcept _) fun settings => ?_
  refine .bind (.bind (readOnly_readText _) fun _ => .liftExcept _) fun env => ?_
  refine .bind (.bind (readOnly_readText _) fun _ => .liftExcept _) fun metadata => ?_
  exact .bind (Sources.readOnly_discover _) fun sources => .liftExcept _

end Project

end ModelBinding
