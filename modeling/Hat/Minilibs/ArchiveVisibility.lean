import Hat.Minilibs.ArchiveManager

/-!
# The visible directories of a root

`init` reads the names of the visible directories of every root into one list.  The list is
left as it is by an empty attribute, so what a root without names shows depends on the roots
that are read before it.
-/

namespace Hat

namespace ArchiveManager

/-- The visible directories of a configured root. -/
def visibilityOf (archive : ArchiveManager) (name : String) : Option (List String) :=
  (archive.accessInfo.find? name).map RootDescriptor.visibility

/-- The names and attributes of the roots, in the order in which they are read. -/
def configured (params : MParams) : List (String × String) :=
  (extractCategory params "root").map (fun root =>
    (root.name, params.getCategory root.name "root")) ++
  (extractCategory params "conf").map fun root =>
    (root.name, params.getCategory root.name "conf")

/-- The directories that the list names, where a star stands for all. -/
def shown (subdir : NameList) : List String := if subdir.member "*" then ["*"] else subdir

/-- The directories that an attribute names by itself. -/
def ownVisibility (value : String) : List String := shown (NameList.init [] value '+')

/-- The attributes of the root. -/
def ownAttributes (params : MParams) (name : String) : List MAttribute :=
  params.attributes.filter fun attr =>
    attr.name = name && (attr.category = "root" || attr.category = "conf")

/-- Whatever the other entries are and wherever they stand, the root shows the same. -/
def Undisturbed (homedir configdir : String) (params : MParams) (name : String) : Prop :=
  ∀ other : MParams, ownAttributes other name = ownAttributes params name →
    (init other homedir configdir).visibilityOf name =
      (init params homedir configdir).visibilityOf name

/-- The list after some entries. -/
def carry (subdir : NameList) (entries : List (String × String)) : NameList :=
  entries.foldl (fun subdir entry => NameList.init subdir entry.2 '+') subdir

/-- What the first entry of that name shows. -/
def visibilityAt (name : String) : NameList → List (String × String) → Option (List String)
  | _, [] => none
  | subdir, entry :: rest =>
      let next := NameList.init subdir entry.2 '+'
      if entry.1 = name then some (shown next) else visibilityAt name next rest

theorem visibilityAt_append (name : String) (subdir : NameList)
    (first second : List (String × String)) :
    visibilityAt name subdir (first ++ second) =
      (visibilityAt name subdir first).or (visibilityAt name (carry subdir first) second) := by
  induction first generalizing subdir with
  | nil => rfl
  | cons entry rest ih =>
      rw [List.cons_append, visibilityAt, visibilityAt]
      by_cases hname : entry.1 = name
      · simp only [hname, if_true, Option.some_or]
      · simp only [hname, if_false]
        exact ih _

theorem visibilityAt_of_notMem {name : String} {entries : List (String × String)}
    (h : name ∉ entries.map Prod.fst) (subdir : NameList) :
    visibilityAt name subdir entries = none := by
  induction entries generalizing subdir with
  | nil => rfl
  | cons entry rest ih =>
      rw [List.map_cons, List.mem_cons, not_or] at h
      rw [visibilityAt]
      simp only [Ne.symm h.1, if_false]
      exact ih h.2 _

theorem initCategory_carry (params : MParams) (home category : String) (roots : List MAttribute)
    (state : NameList × SortedMap String RootDescriptor) :
    (initCategory params home category roots state).1 = carry state.1
      (roots.map fun root => (root.name, params.getCategory root.name category)) := by
  induction roots generalizing state with
  | nil => rfl
  | cons root rest ih => exact ih _

theorem initCategory_visibility (params : MParams) (home category name : String)
    (roots : List MAttribute) (state : NameList × SortedMap String RootDescriptor) :
    ((initCategory params home category roots state).2.find? name).map
        RootDescriptor.visibility =
      ((state.2.find? name).map RootDescriptor.visibility).or (visibilityAt name state.1
        (roots.map fun root => (root.name, params.getCategory root.name category))) := by
  induction roots generalizing state with
  | nil => exact (Option.or_none).symm
  | cons root rest ih =>
      obtain ⟨subdir, accessInfo⟩ := state
      rw [initCategory, ih, List.map_cons, visibilityAt, SortedMap.find?_insertNew]
      dsimp only
      by_cases hname : root.name = name
      · cases hfind : accessInfo.find? name <;>
          simp [hname, hfind, shown, SortedMap.contains]
      · simp [hname]

/-- The roots are read one after the other, and the first of a name counts. -/
theorem visibilityOf_init (params : MParams) (homedir configdir name : String) :
    (init params homedir configdir).visibilityOf name =
      visibilityAt name [] (configured params) := by
  rw [visibilityOf, init]
  dsimp only
  rw [initCategory_visibility, initCategory_visibility, initCategory_carry, configured,
    visibilityAt_append]
  rfl

/-! ## What a root shows -/

theorem init_eq_nil_iff (subdir : NameList) (value : String) :
    NameList.init subdir value '+' = [] ↔ subdir = [] ∧ value = "" := by
  by_cases hvalue : value = ""
  · rw [NameList.init, if_pos hvalue, and_iff_left hvalue]
  · have hhead := NameList.head?_init hvalue '+'
    have hsame : NameList.init subdir value '+' = NameList.init [] value '+' := by
      rw [NameList.init, NameList.init, if_neg hvalue, if_neg hvalue]
    refine iff_of_false (fun hnil => ?_) fun hboth => hvalue hboth.2
    rw [← hsame, hnil] at hhead
    cases hhead

theorem carry_eq_nil_iff (subdir : NameList) (entries : List (String × String)) :
    carry subdir entries = [] ↔ subdir = [] ∧ ∀ entry ∈ entries, entry.2 = "" := by
  induction entries generalizing subdir with
  | nil => simp [carry]
  | cons entry rest ih =>
      rw [carry, List.foldl_cons, ← carry, ih, init_eq_nil_iff, List.forall_mem_cons, and_assoc]

theorem shown_eq_nil_iff (subdir : NameList) : shown subdir = [] ↔ subdir = [] := by
  rw [shown]
  split
  · rename_i hstar
    refine iff_of_false (List.cons_ne_nil _ _) ?_
    rintro rfl
    exact Bool.false_ne_true hstar
  · exact Iff.rfl

theorem visibilityAt_split {name value : String} {before after : List (String × String)}
    (hfirst : name ∉ before.map Prod.fst) :
    visibilityAt name [] (before ++ (name, value) :: after) =
      some (shown (NameList.init (carry [] before) value '+')) := by
  rw [visibilityAt_append, visibilityAt_of_notMem hfirst, Option.none_or, visibilityAt]
  exact if_pos rfl

/-- An attribute that is not empty is read by itself, and an empty one leaves the list of the
roots before. -/
theorem shown_eq_own_iff (before : List (String × String)) (value : String) :
    shown (NameList.init (carry [] before) value '+') = ownVisibility value ↔
      value ≠ "" ∨ ∀ entry ∈ before, entry.2 = "" := by
  by_cases hvalue : value = ""
  · have hown : ownVisibility value = [] := by
      rw [hvalue]
      rfl
    rw [hown, shown_eq_nil_iff, init_eq_nil_iff, carry_eq_nil_iff]
    simp [hvalue]
  · refine iff_of_true ?_ (Or.inl hvalue)
    rw [ownVisibility, NameList.init, NameList.init, if_neg hvalue, if_neg hvalue]

theorem getFromCategory_own {name category : String}
    (hcategory : category = "root" ∨ category = "conf") (attributes : List MAttribute) :
    MParams.getFromCategory name category (attributes.filter fun attr =>
        attr.name = name && (attr.category = "root" || attr.category = "conf")) =
      MParams.getFromCategory name category attributes := by
  induction attributes with
  | nil => rfl
  | cons attr rest ih =>
      by_cases hown : attr.name = name ∧ (attr.category = "root" ∨ attr.category = "conf")
      · rw [List.filter_cons_of_pos (by simpa using hown), MParams.getFromCategory, ih]
        rfl
      · have hother : ¬ ((attr.name = name ∧ attr.category = category) ∧ attr.value ≠ "") := by
          rintro ⟨⟨hname, rfl⟩, -⟩
          exact hown ⟨hname, hcategory⟩
        rw [List.filter_cons_of_neg (by simpa using hown), ih, MParams.getFromCategory,
          if_neg hother]

/-- One category of a root's own attributes, with the attribute that is read. -/
theorem filter_category {name category : String}
    (hcategory : category = "root" ∨ category = "conf") (params : MParams) :
    ((extractCategory params category).map fun root =>
        (root.name, params.getCategory root.name category)).filter (fun entry => entry.1 = name) =
      ((ownAttributes params name).filter fun attr => attr.category = category).map fun _ =>
        (name, MParams.getFromCategory name category (ownAttributes params name)) := by
  rw [List.filter_map, ownAttributes, getFromCategory_own hcategory, extractCategory,
    List.filter_filter, List.filter_filter]
  have hkeep : ∀ attr : MAttribute,
      (((fun entry : String × String => decide (entry.1 = name)) ∘ fun root : MAttribute =>
        (root.name, params.getCategory root.name category)) attr && decide
          (attr.category = category)) = (decide (attr.category = category) &&
            (decide (attr.name = name) &&
              (decide (attr.category = "root") || decide (attr.category = "conf")))) := by
    intro attr
    by_cases hattr : attr.category = category
    · rw [hattr]
      rcases hcategory with rfl | rfl <;> simp
    · simp [hattr]
  rw [List.filter_congr fun attr _ => hkeep attr]
  refine List.map_congr_left fun attr hattr => ?_
  have hname : attr.name = name := by
    have hboth := (List.mem_filter.mp hattr).2
    simp only [Bool.and_eq_true, decide_eq_true_eq] at hboth
    exact hboth.2.1
  rw [hname]
  rfl

/-- The entries of a root are determined by its own attributes. -/
theorem filter_configured (params : MParams) (name : String) :
    (configured params).filter (fun entry => entry.1 = name) =
      (((ownAttributes params name).filter fun attr => attr.category = "root").map fun _ =>
        (name, MParams.getFromCategory name "root" (ownAttributes params name))) ++
      ((ownAttributes params name).filter fun attr => attr.category = "conf").map fun _ =>
        (name, MParams.getFromCategory name "conf" (ownAttributes params name)) := by
  rw [configured, List.filter_append, filter_category (.inl rfl), filter_category (.inr rfl)]

theorem filter_of_split {name value : String} {before after : List (String × String)}
    (hfirst : name ∉ before.map Prod.fst) :
    ((before ++ (name, value) :: after).filter fun entry => entry.1 = name) =
      (name, value) :: after.filter fun entry => entry.1 = name := by
  have hnone : (before.filter fun entry => entry.1 = name) = [] := by
    rw [List.filter_eq_nil_iff]
    intro entry hentry hname
    exact hfirst (List.mem_map.mpr ⟨entry, hentry, of_decide_eq_true hname⟩)
  rw [List.filter_append, hnone, List.nil_append, List.filter_cons_of_pos (by simp)]

/-- The first entry of a root is the same with the same own attributes. -/
theorem split_of_own {params other : MParams} {name value : String}
    {before after : List (String × String)}
    (hsplit : configured params = before ++ (name, value) :: after)
    (hfirst : name ∉ before.map Prod.fst)
    (hown : ownAttributes other name = ownAttributes params name) :
    ∃ before' after', configured other = before' ++ (name, value) :: after' ∧
      name ∉ before'.map Prod.fst := by
  have hfilter : ((configured other).filter fun entry => entry.1 = name) =
      (name, value) :: after.filter fun entry => entry.1 = name := by
    rw [filter_configured, hown, ← filter_configured, hsplit, filter_of_split hfirst]
  obtain ⟨before', after', hconfigured, hother, -, -⟩ := List.filter_eq_cons_iff.mp hfilter
  refine ⟨before', after', hconfigured, fun hmem => ?_⟩
  obtain ⟨entry, hentry, hname⟩ := List.mem_map.mp hmem
  exact hother entry hentry (decide_eq_true hname)

/-- The root's own attributes behind a root of another name. -/
def behind (params : MParams) (name value : String) : MParams :=
  { params with attributes := ⟨name ++ "_", "root", value⟩ :: ownAttributes params name }

theorem ne_append_underscore (name : String) : name ++ "_" ≠ name := by
  intro h
  have hchars := congrArg String.toList h
  rw [String.toList_append, List.append_right_eq_self] at hchars
  exact absurd hchars (by decide)

theorem own_behind (params : MParams) (name value : String) :
    ownAttributes (behind params name value) name = ownAttributes params name := by
  have hne : name ++ "_" ≠ name := ne_append_underscore name
  rw [ownAttributes, behind]
  dsimp only
  rw [List.filter_cons_of_neg (by simp [hne]), ownAttributes, List.filter_filter]
  simp only [Bool.and_self]

/-- The root before is read first, and only the entries of the root follow. -/
theorem configured_behind (params : MParams) (name : String) {value : String}
    (hvalue : value ≠ "") :
    configured (behind params name value) = (name ++ "_", value) ::
      (configured params).filter fun entry => entry.1 = name := by
  have hne : name ++ "_" ≠ name := ne_append_underscore name
  have hget : (behind params name value).getCategory (name ++ "_") "root" = value := by
    rw [MParams.getCategory, behind, MParams.getFromCategory, if_pos ⟨⟨rfl, rfl⟩, hvalue⟩]
  have hrest : ∀ category, ((ownAttributes params name).filter fun attr =>
      attr.category = category).map (fun root =>
        (root.name, (behind params name value).getCategory root.name category)) =
      ((ownAttributes params name).filter fun attr => attr.category = category).map fun _ =>
        (name, MParams.getFromCategory name category (ownAttributes params name)) := by
    intro category
    refine List.map_congr_left fun attr hattr => ?_
    have hname : attr.name = name := by
      have hboth := (List.mem_filter.mp (List.mem_filter.mp hattr).1).2
      simp only [Bool.and_eq_true, decide_eq_true_eq] at hboth
      exact hboth.1
    rw [hname, MParams.getCategory, behind, MParams.getFromCategory,
      if_neg fun hboth => hne hboth.1.1]
  rw [filter_configured, ← hrest, ← hrest, configured, extractCategory, extractCategory]
  change ((List.filter _ (_ :: ownAttributes params name)).map _) ++
    ((List.filter _ (_ :: ownAttributes params name)).map _) = _
  rw [List.filter_cons_of_pos (by simp), List.filter_cons_of_neg (by simp), List.map_cons, hget]
  rfl

section Root

variable {params : MParams} {name value : String} {before after : List (String × String)}

theorem visibilityOf_of_split (homedir configdir : String)
    (hsplit : configured params = before ++ (name, value) :: after)
    (hfirst : name ∉ before.map Prod.fst) :
    (init params homedir configdir).visibilityOf name =
      some (shown (NameList.init (carry [] before) value '+')) := by
  rw [visibilityOf_init, hsplit, visibilityAt_split hfirst]

theorem undisturbed_iff (homedir configdir : String)
    (hsplit : configured params = before ++ (name, value) :: after)
    (hfirst : name ∉ before.map Prod.fst) :
    Undisturbed homedir configdir params name ↔ value ≠ "" := by
  constructor
  · rintro hsame rfl
    -- An entry before the root with one directory or with another one.
    have hbehind : ∀ dir : String, dir ≠ "" →
        (init params homedir configdir).visibilityOf name = some (ownVisibility dir) := by
      intro dir hdir
      have hbefore : configured (behind params name dir) = [(name ++ "_", dir)] ++
          (name, "") :: after.filter fun entry => entry.1 = name := by
        rw [configured_behind params name hdir, hsplit, filter_of_split hfirst]
        rfl
      have hnot : name ∉ [(name ++ "_", dir)].map Prod.fst := by
        simpa using (ne_append_underscore name).symm
      rw [← hsame _ (own_behind params name dir),
        visibilityOf_of_split homedir configdir hbefore hnot]
      rfl
    have htwo := (hbehind "a" (by decide)).symm.trans (hbehind "b" (by decide))
    exact absurd (Option.some.inj htwo) (by decide)
  · intro hvalue other hown
    obtain ⟨before', after', hother, hfirst'⟩ := split_of_own hsplit hfirst hown
    rw [visibilityOf_of_split homedir configdir hother hfirst',
      visibilityOf_of_split homedir configdir hsplit hfirst,
      (shown_eq_own_iff before' value).mpr (.inl hvalue),
      (shown_eq_own_iff before value).mpr (.inl hvalue)]

end Root

/-- When a root shows what its own attribute names, and when it does so whatever the other
entries are. -/
theorem visibility_own_iff (params : MParams) (homedir configdir : String) {name value : String}
    {before after : List (String × String)}
    (hsplit : configured params = before ++ (name, value) :: after)
    (hfirst : name ∉ before.map Prod.fst) :
    ((init params homedir configdir).visibilityOf name = some (ownVisibility value) ↔
        value ≠ "" ∨ ∀ entry ∈ before, entry.2 = "") ∧
      (Undisturbed homedir configdir params name ↔ value ≠ "") := by
  refine ⟨?_, undisturbed_iff homedir configdir hsplit hfirst⟩
  rw [visibilityOf_of_split homedir configdir hsplit hfirst, Option.some.injEq]
  exact shown_eq_own_iff before value

/-- Two roots: the second has no directory to show. -/
def twoRoots (second : String) : MParams :=
  ⟨"archive", [⟨"video", "root", "gate+yard"⟩, ⟨"keys", "root", second⟩], none, none⟩

/-- A second root with directories of its own. -/
theorem visibility_own_doors :
    (init (twoRoots "doors") "/home/hat" "/etc/hat").visibilityOf "keys" =
        some (ownVisibility "doors") ∧
      Undisturbed "/home/hat" "/etc/hat" (twoRoots "doors") "keys" := by
  have hsplit :
      configured (twoRoots "doors") = [("video", "gate+yard")] ++ [("keys", "doors")] := by
    decide +kernel
  have hboth := visibility_own_iff (twoRoots "doors") "/home/hat" "/etc/hat" hsplit
    (by decide +kernel)
  exact ⟨hboth.1.mpr (.inl (by decide)), hboth.2.mpr (by decide)⟩

/-- A second root with an empty attribute shows the directories of the first. -/
theorem visibility_not_own_empty :
    (init (twoRoots "") "/home/hat" "/etc/hat").visibilityOf "keys" = some ["gate", "yard"] ∧
      ownVisibility "" = [] := by
  decide +kernel

end ArchiveManager

end Hat
