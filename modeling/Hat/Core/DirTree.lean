import Hat.Core.Pathname
import Mathlib.Data.List.Nodup

/-!
# Trees of directories

A directory has files and subdirectories, each with a name of its own.  The place of a file is
the list of the names that lead to it, and its path joins them with slashes: the path tells the
place, since no name has a slash.
-/

namespace Hat

/-- An entry of a directory that is not a directory itself. -/
structure DirFile where
  name : String
  regular : Bool
  /-- It can be opened for reading and writing. -/
  isFile : Bool
  /-- It can be opened as a directory, which it links to. -/
  isDir : Bool

mutual

/-- A directory with its entries, which can be read when it opens. -/
inductive DirTree
  | node (opens : Bool) (files : List DirFile) (subdirs : DirForest)

inductive DirForest
  | nil
  | cons (name : String) (tree : DirTree) (rest : DirForest)

end

def hidden (name : String) : Bool := name.toList.head? = some '.'

def DirForest.names : DirForest → List String
  | .nil => []
  | .cons name _ rest => name :: rest.names

mutual

/-- The file stands at the place below the directory. -/
def DirTree.FileAt : DirTree → List String → DirFile → Prop
  | .node _ files subdirs, place, file =>
      (file ∈ files ∧ place = [file.name]) ∨ subdirs.FileAt place file

def DirForest.FileAt : DirForest → List String → DirFile → Prop
  | .nil, _, _ => False
  | .cons name tree rest, place, file =>
      (∃ inner, place = name :: inner ∧ tree.FileAt inner file) ∨ rest.FileAt place file

end

mutual

/-- The entries of every directory have different names without a slash. -/
def DirTree.WellNamed : DirTree → Prop
  | .node _ files subdirs => (files.map DirFile.name ++ subdirs.names).Nodup ∧
      (∀ name ∈ files.map DirFile.name ++ subdirs.names, '/' ∉ name.toList) ∧ subdirs.WellNamed

def DirForest.WellNamed : DirForest → Prop
  | .nil => True
  | .cons _ tree rest => tree.WellNamed ∧ rest.WellNamed

end

structure Directory where
  tree : DirTree
  wellNamed : tree.WellNamed

/-- The path of a place below a directory. -/
def pathOf (src : String) (place : List String) : String :=
  place.foldl (fun path name => path ++ "/" ++ name) src

@[simp]
theorem pathOf_cons (src name : String) (place : List String) :
    pathOf src (name :: place) = pathOf (src ++ "/" ++ name) place := rfl

theorem split_pathOf {place : List String} (hplace : ∀ name ∈ place, '/' ∉ name.toList)
    (src : String) : Pathname.split (pathOf src place) = Pathname.split src ++ place := by
  induction place generalizing src with
  | nil => exact (List.append_nil _).symm
  | cons name rest ih =>
      obtain ⟨hname, hrest⟩ := List.forall_mem_cons.mp hplace
      rw [pathOf_cons, ih hrest, Pathname.split_join, Pathname.split_of_notMem hname,
        List.append_assoc, List.singleton_append]

theorem pathOf_inj {first second : List String} (hfirst : ∀ name ∈ first, '/' ∉ name.toList)
    (hsecond : ∀ name ∈ second, '/' ∉ name.toList) {src : String} :
    pathOf src first = pathOf src second ↔ first = second := by
  constructor
  · intro hpath
    have hsplit := congrArg Pathname.split hpath
    rw [split_pathOf hfirst, split_pathOf hsecond] at hsplit
    exact List.append_cancel_left hsplit
  · exact congrArg (pathOf src)

mutual

theorem DirTree.FileAt.ne_nil {place : List String} {file : DirFile} :
    ∀ {tree : DirTree}, tree.FileAt place file → place ≠ []
  | .node _ files subdirs, hat => by
      rw [DirTree.FileAt] at hat
      rcases hat with ⟨-, rfl⟩ | hbelow
      · exact List.cons_ne_nil _ _
      · obtain ⟨name, inner, rfl, -, -⟩ := DirForest.FileAt.split hbelow
        exact List.cons_ne_nil _ _

/-- A place below one of the subdirectories. -/
theorem DirForest.FileAt.split {place : List String} {file : DirFile} :
    ∀ {forest : DirForest}, forest.FileAt place file →
      ∃ name inner, place = name :: inner ∧ inner ≠ [] ∧ name ∈ forest.names
  | .nil, hat => by
      rw [DirForest.FileAt] at hat
      exact hat.elim
  | .cons name tree rest, hat => by
      rw [DirForest.FileAt] at hat
      rcases hat with ⟨inner, rfl, hinner⟩ | hrest
      · exact ⟨name, inner, rfl, DirTree.FileAt.ne_nil hinner, List.mem_cons_self⟩
      · obtain ⟨other, inner, hplace, hne, hmem⟩ := DirForest.FileAt.split hrest
        exact ⟨other, inner, hplace, hne, List.mem_cons_of_mem name hmem⟩

end

mutual

theorem DirTree.FileAt.noSlash {place : List String} {file : DirFile} :
    ∀ {tree : DirTree}, tree.WellNamed → tree.FileAt place file →
      ∀ name ∈ place, '/' ∉ name.toList
  | .node _ files subdirs, hwell, hat => by
      rw [DirTree.WellNamed] at hwell
      obtain ⟨-, hnames, hsubdirs⟩ := hwell
      rw [DirTree.FileAt] at hat
      rcases hat with ⟨hfile, rfl⟩ | hbelow
      · rw [List.forall_mem_singleton]
        exact hnames _ (List.mem_append_left _ (List.mem_map_of_mem hfile))
      · refine DirForest.FileAt.noSlash hsubdirs (fun name hname => ?_) hbelow
        exact hnames name (List.mem_append_right _ hname)

theorem DirForest.FileAt.noSlash {place : List String} {file : DirFile} :
    ∀ {forest : DirForest}, forest.WellNamed → (∀ name ∈ forest.names, '/' ∉ name.toList) →
      forest.FileAt place file → ∀ name ∈ place, '/' ∉ name.toList
  | .nil, _, _, hat => by
      rw [DirForest.FileAt] at hat
      exact hat.elim
  | .cons name tree rest, hwell, hnames, hat => by
      rw [DirForest.WellNamed] at hwell
      obtain ⟨hname, hothers⟩ := List.forall_mem_cons.mp hnames
      rw [DirForest.FileAt] at hat
      rcases hat with ⟨inner, rfl, hinner⟩ | hrest
      · exact List.forall_mem_cons.mpr ⟨hname, DirTree.FileAt.noSlash hwell.1 hinner⟩
      · exact DirForest.FileAt.noSlash hwell.2 hothers hrest

end

end Hat
