import ModelBinding.Proofs.Project.Discovery
import ModelBinding.Proofs.Project.Reload

/-!
# Building again

A build that fails before it writes leaves the project as it was. One that succeeds changes the one
document that it writes, or two, and reads neither of them: building again gives the same context and
changes nothing.
-/
namespace ModelBinding

open FileTree

variable {tree tree' : FileTree}

namespace FileTree

theorem put_put (tree : FileTree) (place : Place) (node node' : FileNode) :
    (tree.put place node).put place node' = tree.put place node' := by
  simp [put]

/-- Of two nodes that are put in turn, only the last of each place counts. -/
theorem put_put_put (tree : FileTree) {place other : Place} (h : other ≠ place)
    (node node' node'' : FileNode) :
    ((tree.put place node).put other node').put place node'' = (tree.put other node').put place node'' := by
  simp [put, h, List.filter_filter, Bool.and_comm]

/-- Writing a text that was written changes nothing. -/
theorem write_again {path text : String} (h : tree.write path text = .ok tree') :
    tree'.write path text = .ok tree' := by
  obtain ⟨place, hplace, hnode, hput⟩ := write_eq_ok.1 h
  refine write_eq_ok.2 ⟨place, (locate_of_write h).2 hplace, ?_, ?_⟩
  · rw [← hput, node?_put_self tree _ (ne_root_of_node? hnode)]
    exact fun h => nomatch h
  · rw [← hput, put_put]

/-- The same holds of two texts at different places that were written in turn. -/
theorem write_write_again {mid : FileTree} {first second text text' : String}
    (hfirst : tree.write first text = .ok mid) (hsecond : mid.write second text' = .ok tree')
    (hne : tree.locate first ≠ tree.locate second) :
    ∃ mid', tree'.write first text = .ok mid' ∧ mid'.write second text' = .ok tree' := by
  obtain ⟨place, hplace, hnode, hput⟩ := write_eq_ok.1 hfirst
  obtain ⟨other, hother, hnode', hput'⟩ := write_eq_ok.1 hsecond
  have hdiffer : other ≠ place := by
    rintro rfl
    exact hne (hplace.trans ((locate_of_write hfirst).1 hother).symm)
  have hroot := ne_root_of_node? hnode
  have hroot' := ne_root_of_node? hnode'
  have hplace' := (locate_of_write hsecond).2 ((locate_of_write hfirst).2 hplace)
  have hwrite : tree'.write first text = .ok (tree'.put place (.file text.toUTF8)) := by
    refine write_eq_ok.2 ⟨place, hplace', ?_, rfl⟩
    rw [← hput', ← hput, node?_put_of_ne _ _ hdiffer.symm, node?_put_self tree _ hroot]
    exact fun h => nomatch h
  refine ⟨_, hwrite, write_eq_ok.2 ⟨other, ?_, ?_, ?_⟩⟩
  · exact (locate_of_write hwrite).2 ((locate_of_write hsecond).2 hother)
  · rw [node?_put_of_ne _ _ hdiffer, ← hput', node?_put_self mid _ hroot']
    exact fun h => nomatch h
  · rw [← hput', ← hput, put_put_put tree hdiffer, put_put_put _ hdiffer.symm]

end FileTree

namespace Project

variable {project : Project} {debug : Bool} {context : Context} {error : Error}

/-- A name that a build does not read: neither one of the three documents nor one of a source. -/
structure IsOutputName (name : String) : Prop where
  isFileName : Path.IsFileName name
  notSettings : settingsName ≠ name
  notEnvironment : environmentName ≠ name
  notMetadata : metadataName ≠ name
  notCpp : Sources.hasSuffix ".cpp" name = false
  notC : Sources.hasSuffix ".c" name = false

theorem isOutputName_contextName : IsOutputName contextName :=
  ⟨isFileName_contextName, by decide, by decide, by decide, by decide, by decide⟩

theorem isOutputName_debugContextName : IsOutputName debugContextName :=
  ⟨isFileName_debugContextName, by decide, by decide, by decide, by decide, by decide⟩

/-- The model directory is below the directory of the project. -/
theorem locate_modelDirectory_ne {folder : Place} (h : tree.folder project.workdir = .ok folder) :
    tree.locate project.modelDirectory ≠ .ok folder := by
  intro hplace
  obtain ⟨folder', hfolder', -, hbelow⟩ :=
    (locate_join_eq_ok isFileName_modelDirectoryName).1 hplace
  obtain rfl := Except.ok.inj (h.symm.trans hfolder')
  exact absurd (congrArg List.length hbelow) (by simp)

section

variable {name text : String} (hname : IsOutputName name)
  (h : tree.write (project.path name) text = .ok tree')
include hname h

theorem run_discoverSources_of_write {sources : List String}
    (hsources : tree.run project.discoverSources = (.ok sources, tree)) :
    tree'.run project.discoverSources = (.ok sources, tree') := by
  obtain ⟨place, hplace, -⟩ := write_eq_ok.1 h
  obtain ⟨folder, hfolder, -, rfl⟩ := (locate_join_eq_ok hname.isFileName).1 hplace
  have hfound := Sources.foundIn_of_write h hplace hname.notCpp hname.notC
    (locate_modelDirectory_ne hfolder)
  unfold discoverSources at hsources ⊢
  rw [Sources.run_discover] at hsources ⊢
  rw [hfound]
  exact congrArg (·, tree') (congrArg Prod.fst hsources)

/-- What is assembled does not depend on what a build writes. -/
theorem run_assemble_of_write (hassemble : tree.run project.assemble = (.ok context, tree)) :
    tree'.run project.assemble = (.ok context, tree') := by
  obtain ⟨-, settings, env, metadata, sources, ⟨settingsText, hsettings, hsettings'⟩,
    ⟨envText, henv, henv'⟩, ⟨metadataText, hmetadata, hmetadata'⟩, hsources, hbuild⟩ :=
    run_assemble_eq_ok.1 hassemble
  refine run_assemble_eq_ok.2 ⟨rfl, settings, env, metadata, sources, ⟨settingsText, ?_, hsettings'⟩,
    ⟨envText, ?_, henv'⟩, ⟨metadataText, ?_, hmetadata'⟩,
    run_discoverSources_of_write hname h hsources, hbuild⟩
  · exact read_of_write_beside hname.isFileName isFileName_settingsName hname.notSettings h hsettings
  · exact read_of_write_beside hname.isFileName isFileName_environmentName hname.notEnvironment h henv
  · exact read_of_write_beside hname.isFileName isFileName_metadataName hname.notMetadata h hmetadata

end

/-- A build fails before it changes anything, or it cannot write the second of its documents. -/
theorem tree_eq_of_build_error (h : tree.run (project.build debug) = (.error error, tree')) :
    tree' = tree ∨ ∃ fault, .file (project.path debugContextName) fault = error := by
  unfold build at h
  rcases run_bind_eq_error.1 h with hassemble | ⟨context, mid, hassemble, hwrites⟩
  · left
    rw [← readOnly_assemble project tree, hassemble]
  obtain rfl := (readOnly_assemble project).tree_eq hassemble
  rcases run_bind_eq_error.1 hwrites with hwrite | ⟨_, written, -, hrest⟩
  · exact .inl (run_writeText_eq_error.1 hwrite).1.symm
  cases debug with
  | false => cases hrest
  | true =>
    rcases run_bind_eq_error.1 hrest with hdebug | ⟨_, last, -, hlast⟩
    · obtain ⟨-, fault, -, hfault⟩ := run_writeText_eq_error.1 hdebug
      exact .inr ⟨fault, hfault⟩
    · cases hlast

/-- The two documents of a build are at different places. -/
theorem locate_contextName_ne {place : Place}
    (h : tree.locate (project.path contextName) = .ok place) :
    tree.locate (project.path contextName) ≠ tree.locate (project.path debugContextName) := by
  intro heq
  exact ne_of_locate_join isFileName_contextName isFileName_debugContextName (by decide) h
    (heq.symm.trans h) rfl

theorem build_again (h : tree.run (project.build debug) = (.ok context, tree')) :
    tree'.run (project.build debug) = (.ok context, tree') := by
  obtain ⟨hassemble, mid, hwrite, hrest⟩ := run_build_eq_ok.1 h
  have hassemble' := run_assemble_of_write isOutputName_contextName hwrite hassemble
  cases debug with
  | false =>
    cases hrest
    exact run_build_eq_ok.2 ⟨hassemble', _, write_again hwrite, rfl⟩
  | true =>
    obtain ⟨place, hplace, -⟩ := write_eq_ok.1 hwrite
    obtain ⟨mid', hwrite', hrest'⟩ := write_write_again hwrite hrest (locate_contextName_ne hplace)
    have hassemble'' := run_assemble_of_write isOutputName_debugContextName hrest hassemble'
    exact run_build_eq_ok.2 ⟨hassemble'', mid', hwrite', hrest'⟩

/-- Both documents can be read after a build, and no other place has changed. -/
theorem frame_of_build (h : tree.run (project.build debug) = (.ok context, tree')) :
    tree'.read (project.path contextName) = .ok (context.dump .concise) ∧
      (debug = true → tree'.read (project.path debugContextName) = .ok (context.dump .debug)) ∧
      ∀ place, tree.locate (project.path contextName) ≠ .ok place →
        (debug = true → tree.locate (project.path debugContextName) ≠ .ok place) →
        tree'.node? place = tree.node? place := by
  obtain ⟨-, mid, hwrite, hrest⟩ := run_build_eq_ok.1 h
  refine ⟨(files_of_build h).2, ?_⟩
  cases debug with
  | false =>
    cases hrest
    exact ⟨fun h => (nomatch h), fun place hplace _ => node?_of_write hwrite hplace⟩
  | true =>
    refine ⟨fun _ => read_of_write hrest, fun place hplace hplace' => ?_⟩
    rw [node?_of_write hrest fun hmid => hplace' rfl ((locate_of_write hwrite).1 hmid),
      node?_of_write hwrite hplace]

end Project

end ModelBinding
