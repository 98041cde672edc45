import Hat.Core.DirTree
import Hat.Minilibs.ArchiveQueries

/-!
# Exploring the archive

`exploreArchive` collects the files below a directory, for the purge of the archive and for the
list of its instances.  It takes files from directories without visible subdirectories only: in
any other directory it goes down and passes the files beside the subdirectories over.
-/

namespace Hat

open Hsrv

/-- The names of the subdirectories that `dirList` finds. -/
def DirForest.visible (forest : DirForest) : List String :=
  forest.names.filter fun name => !hidden name

namespace ArchiveManager

mutual

/-- What is appended to the list. -/
def exploreArchive (src : String) (noDir : Bool) : DirTree → List String
  | .node opens files subdirs =>
      if opens ∧ subdirs.visible ≠ [] then exploreSubdirs src noDir subdirs
      else
        let flist := if opens then files.filter fun file => !hidden file.name else []
        ((flist.filter fun file => file.isFile || (file.isDir && !noDir)).map fun file =>
          src ++ "/" ++ file.name) ++ if noDir then [] else [src]

def exploreSubdirs (src : String) (noDir : Bool) : DirForest → List String
  | .nil => []
  | .cons name tree rest =>
      (if hidden name then [] else exploreArchive (src ++ "/" ++ name) noDir tree) ++
        exploreSubdirs src noDir rest

end

def getWindow (archive : ArchiveManager) (archiveName : String) : ℤ :=
  match archive.accessInfo.find? archiveName with
  | none => 0
  | some descriptor => descriptor.temporalWindow

/-- The path without what stands before it, and without a slash at its front. -/
def withoutFront (front path : String) : String :=
  let rest := path.toList.drop front.length
  String.ofList (if rest.head? = some '/' then rest.drop 1 else rest)

def getRelativePath (archive : ArchiveManager) (path : String) : String :=
  let home := strReplace archive.archiveHome "//" "/"
  if contains path home then withoutFront home path else ""

/-- The purge goes on with a file to its renaming or its expiry.  The front of an empty list is
not defined. -/
def purges (archive : ArchiveManager) (filename : String) : Option Bool :=
  let tail := FileManager.getTail filename
  (NameList.init [] (archive.getRelativePath filename) '/').head?.map fun root =>
    !decide (archive.getWindow root < 0) && (tail = "data" || subSetPrefix tail = "data")

/-- The files that the purge considers, in the archive below its home. -/
def purgeFiles (archive : ArchiveManager) (tree : DirTree) : Option (List String) :=
  collect (fun filename => (archive.purges filename).map fun goesOn =>
    if goesOn then [filename] else []) (exploreArchive archive.archiveHome true tree)

/-- A path without a slash is its own parent. -/
def getParentDirectory (filename : String) : String :=
  if '/' ∈ filename.toList then dirPath filename else filename

def methods : List String := ["first", "last", "all"]

/-- One path of the list: it stays, gives way to its methods, or is erased. -/
def subPath (archive : ArchiveManager) (src path : String) :
    Option (List String × List String) :=
  let nl := NameList.init [] path '/'
  (archive.checkPermission nl .read).map fun readable =>
    if readable = false ∨ archive.archiveHome ++ "/" ++ path = src then ([], [])
    else if nl.getLast? = some "data" then
      ([], methods.map fun method => getParentDirectory path ++ "/" ++ method)
    else ([path], [])

/-- The home of the root of a request, and the directory that it asks for. -/
def subPathsRoot (archive : ArchiveManager) (url : String) : Option (String × String) :=
  if url = "" then none
  else
    let src := if url.toList.getLast? = some '/' then String.ofList url.toList.dropLast else url
    (archive.getRootPath src).map fun rootP =>
      (rootP, strReplace (rootP ++ "/" ++ src) "//" "/")

def relativeTo (rootP path : String) : String :=
  if contains path rootP then withoutFront rootP path else path

def getSubPaths (archive : ArchiveManager) (disk : String → Directory) (url : String) :
    Option (List String) :=
  (archive.subPathsRoot url).bind fun root =>
    let list := (exploreArchive root.2 true (disk root.2).tree).map (relativeTo root.1)
    (collect (fun path => (archive.subPath root.2 path).map fun part => [part]) list).map
      fun parts => parts.flatMap Prod.fst ++ parts.flatMap Prod.snd

/-- A regular file whose name is not hidden. -/
def Wanted (file : DirFile) : Prop := file.regular = true ∧ hidden file.name = false

instance (file : DirFile) : Decidable (Wanted file) := inferInstanceAs (Decidable (_ ∧ _))

/-- Every wanted file below the directory is listed exactly once. -/
def ListsOnce (src : String) (tree : DirTree) : Prop :=
  ∀ place file, tree.FileAt place file → Wanted file →
    (exploreArchive src true tree).count (pathOf src place) = 1

/-- A purge that comes to its end has considered every wanted file that it does not pass over. -/
def PurgeConsiders (archive : ArchiveManager) (tree : DirTree) : Prop :=
  ∀ considered, archive.purgeFiles tree = some considered →
    ∀ place file, tree.FileAt place file → Wanted file →
      archive.purges (pathOf archive.archiveHome place) = some true →
        pathOf archive.archiveHome place ∈ considered

/-- The list has the methods of every wanted instance that may be read. -/
def OffersInstances (archive : ArchiveManager) (disk : String → Directory) (url : String)
    (root : String × String) : Prop :=
  ∀ list, archive.getSubPaths disk url = some list →
    ∀ place file, (disk root.2).tree.FileAt place file → Wanted file →
      let path := relativeTo root.1 (pathOf root.2 place)
      let nl := NameList.init [] path '/'
      archive.checkPermission nl .read = some true → nl.getLast? = some "data" →
        archive.archiveHome ++ "/" ++ path ≠ root.2 →
          ∀ method ∈ methods, getParentDirectory path ++ "/" ++ method ∈ list

mutual

/-- A directory with a wanted file has no visible subdirectory, opens and is not hidden, and its
wanted files open. -/
def InLeaves : DirTree → Prop
  | .node opens files subdirs =>
      (∀ file ∈ files, Wanted file → opens = true ∧ subdirs.visible = [] ∧ file.isFile = true) ∧
        (if opens then BelowInLeaves subdirs
          else ∀ place file, subdirs.FileAt place file → ¬ Wanted file)

def BelowInLeaves : DirForest → Prop
  | .nil => True
  | .cons name tree rest =>
      (if hidden name then ∀ place file, tree.FileAt place file → ¬ Wanted file
        else InLeaves tree) ∧ BelowInLeaves rest

end

mutual

def listed : DirTree → List (List String)
  | .node opens files subdirs =>
      if opens ∧ subdirs.visible ≠ [] then listedBelow subdirs
      else if opens then
        (files.filter fun file => !hidden file.name && file.isFile).map fun file => [file.name]
      else []

def listedBelow : DirForest → List (List String)
  | .nil => []
  | .cons name tree rest =>
      (if hidden name then [] else (listed tree).map (name :: ·)) ++ listedBelow rest

end

mutual

theorem exploreArchive_eq (src : String) :
    ∀ tree : DirTree, exploreArchive src true tree = (listed tree).map (pathOf src)
  | .node opens files subdirs => by
      rw [exploreArchive, listed]
      split
      · exact exploreSubdirs_eq src subdirs
      · cases opens with
        | false => rfl
        | true =>
            simp only [if_true, Bool.not_true, Bool.and_false, Bool.or_false, List.append_nil,
              List.filter_filter, List.map_map]
            simp only [Bool.and_comm]
            rfl

theorem exploreSubdirs_eq (src : String) :
    ∀ forest : DirForest, exploreSubdirs src true forest = (listedBelow forest).map (pathOf src)
  | .nil => rfl
  | .cons name tree rest => by
      rw [exploreSubdirs, listedBelow, List.map_append, exploreSubdirs_eq src rest]
      split
      · rfl
      · rw [exploreArchive_eq (src ++ "/" ++ name) tree, List.map_map]
        rfl

end

mutual

theorem ne_nil_of_mem_listed {place : List String} :
    ∀ {tree : DirTree}, place ∈ listed tree → place ≠ []
  | .node opens files subdirs, hmem => by
      rw [listed] at hmem
      split at hmem
      · obtain ⟨name, inner, rfl, -, -⟩ := split_of_mem_listedBelow hmem
        exact List.cons_ne_nil _ _
      · split at hmem
        · obtain ⟨file, -, rfl⟩ := List.mem_map.mp hmem
          exact List.cons_ne_nil _ _
        · exact absurd hmem List.not_mem_nil

/-- A place that is listed below one of the subdirectories. -/
theorem split_of_mem_listedBelow {place : List String} :
    ∀ {forest : DirForest}, place ∈ listedBelow forest →
      ∃ name inner, place = name :: inner ∧ inner ≠ [] ∧ name ∈ forest.names
  | .nil, hmem => absurd hmem List.not_mem_nil
  | .cons name tree rest, hmem => by
      rw [listedBelow, List.mem_append] at hmem
      rcases hmem with hfirst | hrest
      · split at hfirst
        · exact absurd hfirst List.not_mem_nil
        · obtain ⟨inner, hinner, rfl⟩ := List.mem_map.mp hfirst
          exact ⟨name, inner, rfl, ne_nil_of_mem_listed hinner, List.mem_cons_self⟩
      · obtain ⟨other, inner, hplace, hne, hother⟩ := split_of_mem_listedBelow hrest
        exact ⟨other, inner, hplace, hne, List.mem_cons_of_mem name hother⟩

end

mutual

theorem listed_noSlash : ∀ {tree : DirTree}, tree.WellNamed →
    ∀ place ∈ listed tree, ∀ name ∈ place, '/' ∉ name.toList
  | .node opens files subdirs, hwell, place, hplace => by
      rw [DirTree.WellNamed] at hwell
      obtain ⟨-, hnames, hsubdirs⟩ := hwell
      rw [listed] at hplace
      split at hplace
      · exact listedBelow_noSlash hsubdirs (fun name hname => hnames name
          (List.mem_append_right _ hname)) place hplace
      · split at hplace
        · obtain ⟨file, hfile, rfl⟩ := List.mem_map.mp hplace
          rw [List.forall_mem_singleton]
          exact hnames _ (List.mem_append_left _
            (List.mem_map_of_mem (List.mem_of_mem_filter hfile)))
        · exact absurd hplace List.not_mem_nil

theorem listedBelow_noSlash : ∀ {forest : DirForest}, forest.WellNamed →
    (∀ name ∈ forest.names, '/' ∉ name.toList) →
      ∀ place ∈ listedBelow forest, ∀ name ∈ place, '/' ∉ name.toList
  | .nil, _, _, place, hplace => absurd hplace List.not_mem_nil
  | .cons name tree rest, hwell, hnames, place, hplace => by
      rw [DirForest.WellNamed] at hwell
      obtain ⟨hname, hothers⟩ := List.forall_mem_cons.mp hnames
      rw [listedBelow, List.mem_append] at hplace
      rcases hplace with hfirst | hrest
      · split at hfirst
        · exact absurd hfirst List.not_mem_nil
        · obtain ⟨inner, hinner, rfl⟩ := List.mem_map.mp hfirst
          exact List.forall_mem_cons.mpr ⟨hname, listed_noSlash hwell.1 inner hinner⟩
      · exact listedBelow_noSlash hwell.2 hothers place hrest

end

mutual

theorem nodup_listed : ∀ {tree : DirTree}, tree.WellNamed → (listed tree).Nodup
  | .node opens files subdirs, hwell => by
      rw [DirTree.WellNamed] at hwell
      obtain ⟨hnodup, -, hsubdirs⟩ := hwell
      obtain ⟨hfiles, hdirs, -⟩ := List.nodup_append.mp hnodup
      rw [listed]
      split
      · exact nodup_listedBelow hsubdirs hdirs
      · split
        · have hsame : (files.filter fun file => !hidden file.name && file.isFile).map
              (fun file => [file.name]) = ((files.filter fun file =>
                !hidden file.name && file.isFile).map DirFile.name).map fun name => [name] := by
            rw [List.map_map]
            rfl
          rw [hsame]
          exact ((List.filter_sublist.map DirFile.name).nodup hfiles).map
            fun first second hname => List.singleton_inj.mp hname
        · exact List.nodup_nil

theorem nodup_listedBelow : ∀ {forest : DirForest}, forest.WellNamed → forest.names.Nodup →
    (listedBelow forest).Nodup
  | .nil, _, _ => List.nodup_nil
  | .cons name tree rest, hwell, hnames => by
      rw [DirForest.WellNamed] at hwell
      obtain ⟨hname, hrest⟩ := List.nodup_cons.mp hnames
      rw [listedBelow]
      refine List.nodup_append.mpr ⟨?_, nodup_listedBelow hwell.2 hrest, ?_⟩
      · split
        · exact List.nodup_nil
        · exact (nodup_listed hwell.1).map fun first second hplace => (List.cons.inj hplace).2
      · rintro place hfirst _ hlater rfl
        split at hfirst
        · exact absurd hfirst List.not_mem_nil
        · obtain ⟨inner, -, rfl⟩ := List.mem_map.mp hfirst
          obtain ⟨other, _, hplace, -, hother⟩ := split_of_mem_listedBelow hlater
          exact hname ((List.cons.inj hplace).1 ▸ hother)

end

/-- A file is listed exactly once when its place is listed. -/
theorem count_explore_iff (directory : Directory) (src : String) {place : List String}
    {file : DirFile} (hat : directory.tree.FileAt place file) :
    (exploreArchive src true directory.tree).count (pathOf src place) = 1 ↔
      place ∈ listed directory.tree := by
  have hplace := hat.noSlash directory.wellNamed
  have hlisted := listed_noSlash directory.wellNamed
  have hnodup : ((listed directory.tree).map (pathOf src)).Nodup := by
    refine (List.nodup_map_iff_inj_on (nodup_listed directory.wellNamed)).mpr ?_
    intro first hfirst second hsecond hpath
    exact (pathOf_inj (hlisted first hfirst) (hlisted second hsecond)).mp hpath
  rw [exploreArchive_eq]
  constructor
  · intro hone
    have hmem := List.count_pos_iff.mp (hone ▸ Nat.one_pos)
    obtain ⟨other, hother, hpath⟩ := List.mem_map.mp hmem
    exact (pathOf_inj (hlisted other hother) hplace).mp hpath ▸ hother
  · intro hmem
    exact List.count_eq_one_of_mem hnodup (List.mem_map_of_mem hmem)

/-! ## When all are listed -/

/-- A file of the directory itself. -/
theorem mem_listed_here_iff {opens : Bool} {files : List DirFile} {subdirs : DirForest}
    (hnames : (files.map DirFile.name).Nodup) {file : DirFile} (hfile : file ∈ files)
    (hwanted : Wanted file) :
    [file.name] ∈ listed (.node opens files subdirs) ↔
      opens = true ∧ subdirs.visible = [] ∧ file.isFile = true := by
  rw [listed]
  by_cases hvisible : subdirs.visible = []
  · cases opens with
    | false => simp
    | true =>
        simp only [hvisible, ne_eq, not_true_eq_false, and_false, if_false, if_true, true_and,
          List.mem_map, List.mem_filter, List.cons.injEq, and_true]
        constructor
        · rintro ⟨other, ⟨hother, htest⟩, hname⟩
          have hsame := List.inj_on_of_nodup_map hnames hother hfile hname
          rw [hsame, hwanted.2] at htest
          exact htest
        · intro hisFile
          refine ⟨file, ⟨hfile, ?_⟩, rfl⟩
          rw [hwanted.2, hisFile]
          rfl
  · refine iff_of_false (fun hmem => ?_) fun hthree => hvisible hthree.2.1
    cases opens with
    | false => simp at hmem
    | true =>
        rw [if_pos ⟨rfl, hvisible⟩] at hmem
        obtain ⟨name, inner, hplace, hne, -⟩ := split_of_mem_listedBelow hmem
        exact hne (List.cons.inj hplace).2.symm

theorem listedBelow_of_visible_eq_nil :
    ∀ {forest : DirForest}, forest.visible = [] → listedBelow forest = []
  | .nil, _ => rfl
  | .cons name tree rest, hvisible => by
      rw [DirForest.visible, DirForest.names, List.filter_cons] at hvisible
      split at hvisible
      · exact absurd hvisible (List.cons_ne_nil _ _)
      · rename_i hname
        rw [Bool.not_eq_true, Bool.not_eq_false'] at hname
        rw [listedBelow, if_pos hname, List.nil_append]
        exact listedBelow_of_visible_eq_nil hvisible

/-- A file of one of the subdirectories. -/
theorem mem_listed_below_iff {files : List DirFile} {subdirs : DirForest} {place : List String}
    {file : DirFile} (hat : subdirs.FileAt place file) :
    place ∈ listed (.node true files subdirs) ↔ place ∈ listedBelow subdirs := by
  rw [listed]
  by_cases hvisible : subdirs.visible = []
  · rw [if_neg fun hboth => hboth.2 hvisible, if_pos rfl, listedBelow_of_visible_eq_nil hvisible]
    refine iff_of_false (fun hmem => ?_) List.not_mem_nil
    obtain ⟨other, -, hone⟩ := List.mem_map.mp hmem
    obtain ⟨name, inner, hplace, hne, -⟩ := hat.split
    exact hne (List.cons.inj (hone.trans hplace)).2.symm
  · rw [if_pos ⟨rfl, hvisible⟩]

/-- A file below the first of the subdirectories. -/
theorem cons_mem_listedBelow_iff {name : String} {tree : DirTree} {rest : DirForest}
    (hname : name ∉ rest.names) (inner : List String) :
    name :: inner ∈ listedBelow (.cons name tree rest) ↔
      hidden name = false ∧ inner ∈ listed tree := by
  have hnot : name :: inner ∉ listedBelow rest := by
    intro hmem
    obtain ⟨other, _, hplace, -, hother⟩ := split_of_mem_listedBelow hmem
    exact hname ((List.cons.inj hplace).1 ▸ hother)
  rw [listedBelow, List.mem_append, or_iff_left hnot]
  cases hidden name <;> simp

/-- A file below one of the other subdirectories. -/
theorem mem_listedBelow_rest_iff {name : String} {tree : DirTree} {rest : DirForest}
    (hname : name ∉ rest.names) {place : List String} {file : DirFile}
    (hat : rest.FileAt place file) :
    place ∈ listedBelow (.cons name tree rest) ↔ place ∈ listedBelow rest := by
  obtain ⟨other, inner, rfl, -, hother⟩ := hat.split
  rw [listedBelow, List.mem_append]
  refine or_iff_right fun hmem => ?_
  split at hmem
  · exact List.not_mem_nil hmem
  · obtain ⟨_, -, hplace⟩ := List.mem_map.mp hmem
    exact hname ((List.cons.inj hplace).1 ▸ hother)

mutual

theorem all_listed_iff : ∀ {tree : DirTree}, tree.WellNamed →
    ((∀ place file, tree.FileAt place file → Wanted file → place ∈ listed tree) ↔ InLeaves tree)
  | .node opens files subdirs, hwell => by
      rw [DirTree.WellNamed] at hwell
      obtain ⟨hnodup, -, hsubdirs⟩ := hwell
      obtain ⟨hfiles, hdirs, -⟩ := List.nodup_append.mp hnodup
      have hbelow : (∀ place file, subdirs.FileAt place file → Wanted file →
          place ∈ listed (.node opens files subdirs)) ↔ if opens = true then BelowInLeaves subdirs
            else ∀ place file, subdirs.FileAt place file → ¬ Wanted file := by
        cases opens with
        | false => simp [listed]
        | true =>
            rw [if_pos rfl, ← all_listedBelow_iff hsubdirs hdirs]
            refine forall_congr' fun place => forall_congr' fun file => forall_congr' fun hat => ?_
            rw [mem_listed_below_iff hat]
      rw [InLeaves, ← hbelow]
      constructor
      · intro hall
        refine ⟨fun file hfile hwanted => ?_, fun place file hat => hall place file ?_⟩
        · refine (mem_listed_here_iff hfiles hfile hwanted).mp (hall _ file ?_ hwanted)
          rw [DirTree.FileAt]
          exact .inl ⟨hfile, rfl⟩
        · rw [DirTree.FileAt]
          exact .inr hat
      · rintro ⟨hhere, hrest⟩ place file hat hwanted
        rw [DirTree.FileAt] at hat
        rcases hat with ⟨hfile, rfl⟩ | hat
        · exact (mem_listed_here_iff hfiles hfile hwanted).mpr (hhere file hfile hwanted)
        · exact hrest place file hat hwanted

theorem all_listedBelow_iff : ∀ {forest : DirForest}, forest.WellNamed → forest.names.Nodup →
    ((∀ place file, forest.FileAt place file → Wanted file → place ∈ listedBelow forest) ↔
      BelowInLeaves forest)
  | .nil, _, _ => by simp [DirForest.FileAt, BelowInLeaves]
  | .cons name tree rest, hwell, hnames => by
      rw [DirForest.WellNamed] at hwell
      obtain ⟨hname, hrest⟩ := List.nodup_cons.mp hnames
      have htree : (∀ inner file, tree.FileAt inner file → Wanted file →
          name :: inner ∈ listedBelow (.cons name tree rest)) ↔ if hidden name = true then
            ∀ place file, tree.FileAt place file → ¬ Wanted file else InLeaves tree := by
        simp only [cons_mem_listedBelow_iff hname]
        cases hidden name with
        | true => simp
        | false => simpa using all_listed_iff hwell.1
      have hothers : (∀ place file, rest.FileAt place file → Wanted file →
          place ∈ listedBelow (.cons name tree rest)) ↔ BelowInLeaves rest := by
        rw [← all_listedBelow_iff hwell.2 hrest]
        refine forall_congr' fun place => forall_congr' fun file => forall_congr' fun hat => ?_
        rw [mem_listedBelow_rest_iff hname hat]
      rw [BelowInLeaves, ← htree, ← hothers]
      constructor
      · intro hall
        refine ⟨fun inner file hat => hall _ file ?_, fun place file hat => hall place file ?_⟩
        · rw [DirForest.FileAt]
          exact .inl ⟨inner, rfl, hat⟩
        · rw [DirForest.FileAt]
          exact .inr hat
      · rintro ⟨hfirst, hlater⟩ place file hat
        rw [DirForest.FileAt] at hat
        rcases hat with ⟨inner, rfl, hat⟩ | hat
        · exact hfirst inner file hat
        · exact hlater place file hat

end

theorem listsOnce_iff (directory : Directory) (src : String) :
    ListsOnce src directory.tree ↔ InLeaves directory.tree := by
  rw [← all_listed_iff directory.wellNamed]
  refine forall_congr' fun place => forall_congr' fun file => forall_congr' fun hat => ?_
  rw [count_explore_iff directory src hat]

theorem mem_explore_of_listsOnce {src : String} {tree : DirTree} (h : ListsOnce src tree)
    {place : List String} {file : DirFile} (hat : tree.FileAt place file) (hwanted : Wanted file) :
    pathOf src place ∈ exploreArchive src true tree :=
  List.count_pos_iff.mp (h place file hat hwanted ▸ Nat.one_pos)

theorem purgeConsiders_of_listsOnce {archive : ArchiveManager} {tree : DirTree}
    (h : ListsOnce archive.archiveHome tree) : PurgeConsiders archive tree := by
  intro considered hpurge place file hat hwanted hpurges
  have hstep : (archive.purges (pathOf archive.archiveHome place)).map (fun goesOn =>
      if goesOn then [pathOf archive.archiveHome place] else []) =
        some [pathOf archive.archiveHome place] := by
    rw [hpurges]
    rfl
  have hmem := mem_explore_of_listsOnce h hat hwanted
  exact subset_of_collect hpurge hmem hstep List.mem_cons_self

theorem offersInstances_of_listsOnce {archive : ArchiveManager} {disk : String → Directory}
    {url : String} {root : String × String} (hroot : archive.subPathsRoot url = some root)
    (h : ListsOnce root.2 (disk root.2).tree) : OffersInstances archive disk url root := by
  intro list hlist place file hat hwanted path nl hreadable hdata hne method hmethod
  rw [getSubPaths, hroot, Option.bind_some] at hlist
  obtain ⟨parts, hparts, rfl⟩ := Option.map_eq_some_iff.mp hlist
  have hpath : path ∈ (exploreArchive root.2 true (disk root.2).tree).map (relativeTo root.1) :=
    List.mem_map_of_mem (mem_explore_of_listsOnce h hat hwanted)
  have hstep : (archive.subPath root.2 path).map (fun part => [part]) =
      some [([], methods.map fun method => getParentDirectory path ++ "/" ++ method)] := by
    have hkept : ¬ (true = false ∨ archive.archiveHome ++ "/" ++ path = root.2) := by
      simpa using hne
    simp only [subPath, nl, hreadable, Option.map_some, if_neg hkept, if_pos hdata]
  have hmem := subset_of_collect hparts hpath hstep List.mem_cons_self
  refine List.mem_append_right _ (List.mem_flatMap.mpr ⟨_, hmem, ?_⟩)
  exact List.mem_map_of_mem hmethod

/-- Which trees are listed in whole, and what this means for the purge of the archive and for
the list of its instances. -/
theorem explore_iff_inLeaves (disk : String → Directory) (archive : ArchiveManager) :
    (∀ src, ListsOnce src (disk src).tree ↔ InLeaves (disk src).tree) ∧
      (InLeaves (disk archive.archiveHome).tree →
        PurgeConsiders archive (disk archive.archiveHome).tree) ∧
      ∀ url root, archive.subPathsRoot url = some root → InLeaves (disk root.2).tree →
        OffersInstances archive disk url root := by
  refine ⟨fun src => listsOnce_iff (disk src) src, fun hleaves => ?_,
    fun url root hroot hleaves => ?_⟩
  · exact purgeConsiders_of_listsOnce ((listsOnce_iff _ _).mpr hleaves)
  · exact offersInstances_of_listsOnce hroot ((listsOnce_iff _ _).mpr hleaves)

def plainData : DirFile := ⟨"data", true, true, false⟩

/-- The events of a feature, in one file and in the directory of one agent. -/
def meterEvents : Directory where
  tree := .node true [] (.cons "power" (.node true [plainData]
    (.cons "agent7" (.node true [plainData] .nil) .nil)) .nil)
  wellNamed := by
    simp only [DirTree.WellNamed, DirForest.WellNamed, DirForest.names]
    decide

/-- The file beside the directory is not listed, and the purge does not consider it. -/
theorem not_lists_beside_directory :
    ¬ ListsOnce "/home/hat" meterEvents.tree ∧
      ¬ PurgeConsiders ⟨"/home/hat", SortedMap.empty⟩ meterEvents.tree := by
  have hat : meterEvents.tree.FileAt ["power", "data"] plainData := by
    simp [meterEvents, DirTree.FileAt, DirForest.FileAt, plainData]
  have hwanted : Wanted plainData := by
    decide
  refine ⟨fun hlists => ?_, fun hconsiders => ?_⟩
  · have hone := hlists _ plainData hat hwanted
    exact absurd hone (by decide +kernel)
  · have hfiles : (⟨"/home/hat", SortedMap.empty⟩ : ArchiveManager).purgeFiles meterEvents.tree =
        some ["/home/hat/power/agent7/data"] := by
      decide +kernel
    have hmem := hconsiders _ hfiles _ plainData hat hwanted (by decide +kernel)
    exact absurd hmem (by decide +kernel)

end ArchiveManager

end Hat
