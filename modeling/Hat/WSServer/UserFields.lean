import Hat.Minilibs.AttributeValues
import Hat.WSServer.AuthAddition
import Mathlib.Data.List.Induction

/-!
# The fields of a new user

An addition copies the attributes of the template and then sets one field for each
operation of the body.  `set` changes attributes that exist and adds none, and a field
that has a value already is set under its alias only.  The module determines when every
operation of the body is read back from the new user.
-/

namespace Hat

open Hat.Guarded

namespace User

def values (name category : String) (user : User) : List String :=
  user.params.values name category

/-- The attribute that `getField` reads in place of one that is missing or empty. -/
def aliasOf (field : String) (user : User) : String := user.params.getCategory field "alias"

theorem get_eq (user : User) (name : String) :
    user.get name = MParams.firstFull (user.values name "generic") :=
  MParams.get_eq user.params name

theorem aliasOf_eq (user : User) (field : String) :
    user.aliasOf field = MParams.firstFull (user.values field "alias") :=
  MParams.getCategory_eq user.params field "alias"

theorem getField_eq (user : User) (field : String) :
    user.getField field =
      if user.get field ≠ "" then user.get field else user.get (user.aliasOf field) := rfl

theorem values_add (user : User) (name value other category : String) :
    (user.add name value).values other category =
      if other = name ∧ category = "generic" then value :: (user.values other category).tail
      else user.values other category :=
  MParams.values_add user.params name value other category

theorem values_addCategory (user : User) (name category value other kind : String) :
    (user.addCategory name category value).values other kind =
      if other = name ∧ kind = category then value :: (user.values other kind).tail
      else user.values other kind :=
  MParams.values_addCategory user.params name category value other kind

theorem values_set (user : User) (name value other category : String) :
    (user.set name value).values other category =
      if other = name ∧ category = "generic" then
        MParams.overwrite value (user.values other category)
      else user.values other category :=
  MParams.values_set user.params name value other category

/-- The attribute that `setField` changes, if it exists. -/
def target (field : String) (user : User) : Option String :=
  if user.get field = "" then some field
  else if user.aliasOf field ≠ "" then some (user.aliasOf field)
  else none

/-- The values that `setField` writes. -/
def IsSelection (value : String) : Prop := value = "true" ∨ value = "false"

instance (value : String) : Decidable (IsSelection value) :=
  inferInstanceAs (Decidable (_ ∨ _))

theorem IsSelection.ne_empty {value : String} (h : IsSelection value) : value ≠ "" := by
  rcases h with rfl | rfl <;> decide

theorem values_setField (user : User) (field : String) {value : String}
    (hvalue : IsSelection value) (name category : String) :
    (user.setField field value).2.values name category =
      if user.target field = some name ∧ category = "generic" then
        MParams.overwrite value (user.values name category)
      else user.values name category := by
  have hselection : ¬(value ≠ "true" ∧ value ≠ "false") := by
    rintro ⟨htrue, hfalse⟩
    exact hvalue.elim htrue hfalse
  rw [setField, if_neg hselection, target]
  by_cases hget : user.get field = ""
  · simp only [if_pos hget, values_set, Option.some.injEq, eq_comm (a := name)]
  · rw [if_neg hget, if_neg hget]
    by_cases halias : user.aliasOf field = ""
    · have hnot : ¬user.params.getCategory field "alias" ≠ "" := fun h => h halias
      simp [hnot, halias]
    · have hsome : user.params.getCategory field "alias" ≠ "" := halias
      simp only [if_pos hsome, if_pos halias, values_set, Option.some.injEq, eq_comm (a := name)]
      rfl

theorem aliasOf_setField (user : User) (field : String) {value : String}
    (hvalue : IsSelection value) (name : String) :
    (user.setField field value).2.aliasOf name = user.aliasOf name := by
  rw [aliasOf_eq, aliasOf_eq, values_setField user field hvalue,
    if_neg fun h => absurd h.2 (by decide)]

theorem values_setField_of_ne (user : User) (field : String) {value : String}
    (hvalue : IsSelection value) {name : String} (hfield : name ≠ field)
    (halias : user.aliasOf field = name → name = "") (category : String) :
    (user.setField field value).2.values name category = user.values name category := by
  rw [values_setField user field hvalue, if_neg]
  rintro ⟨htarget, -⟩
  rw [target] at htarget
  split at htarget
  · exact hfield (Option.some.inj htarget).symm
  · split at htarget
    · rename_i hsome
      have hname := Option.some.inj htarget
      exact hsome (hname.trans (halias hname))
    · cases htarget

/-- The operation has an attribute of its own that is empty or its own alias, or it is read
as the entry has it already. -/
def Settable (user : User) (entry : String × String) : Prop :=
  (user.get entry.1 = "" ∧ user.values entry.1 "generic" ≠ []) ∨
    (user.get entry.1 ≠ "" ∧ user.aliasOf entry.1 = entry.1 ∧ entry.1 ≠ "") ∨
      user.getField entry.1 = entry.2

theorem get_congr {user other : User} {name : String}
    (h : other.values name "generic" = user.values name "generic") :
    other.get name = user.get name := by
  rw [get_eq, get_eq, h]

/-- What `getField` reads does not change with other attributes. -/
theorem getField_congr {user other : User} {field : String}
    (haliasOf : other.aliasOf field = user.aliasOf field)
    (hfield : other.values field "generic" = user.values field "generic")
    (halias : other.values (user.aliasOf field) "generic" =
      user.values (user.aliasOf field) "generic") :
    other.getField field = user.getField field := by
  rw [getField_eq, getField_eq, haliasOf, get_congr hfield, get_congr halias]

theorem get_setField_self {user : User} {field name value : String} (hvalue : IsSelection value)
    (htarget : user.target field = some name) (hexists : user.values name "generic" ≠ []) :
    (user.setField field value).2.get name = value := by
  obtain ⟨first, rest, hvalues⟩ := List.exists_cons_of_ne_nil hexists
  rw [get_eq, values_setField user field hvalue, if_pos ⟨htarget, rfl⟩, hvalues]
  exact MParams.firstFull_cons hvalue.ne_empty rest

/-- Where nothing is changed the operation has to be read as it is wanted beforehand. -/
theorem getField_setField_of_unchanged {user : User} {entry : String × String}
    (hunchanged : ∀ name category,
      (user.setField entry.1 entry.2).2.values name category = user.values name category)
    (howns : ¬(user.get entry.1 = "" ∧ user.values entry.1 "generic" ≠ []))
    (halias : ¬(user.get entry.1 ≠ "" ∧ user.aliasOf entry.1 = entry.1 ∧ entry.1 ≠ "")) :
    (user.setField entry.1 entry.2).2.getField entry.1 = entry.2 ↔ user.Settable entry := by
  have haliasOf : (user.setField entry.1 entry.2).2.aliasOf entry.1 = user.aliasOf entry.1 := by
    rw [aliasOf_eq, aliasOf_eq, hunchanged]
  rw [getField_congr haliasOf (hunchanged _ _) (hunchanged _ _), Settable, or_iff_right howns,
    or_iff_right halias]

/-- An operation that is set alone is read back exactly when it was settable. -/
theorem getField_setField_iff (user : User) {entry : String × String}
    (hvalue : IsSelection entry.2) :
    (user.setField entry.1 entry.2).2.getField entry.1 = entry.2 ↔ user.Settable entry := by
  have hvalues := values_setField user entry.1 hvalue
  by_cases hget : user.get entry.1 = ""
  · have htarget : user.target entry.1 = some entry.1 := if_pos hget
    by_cases hexists : user.values entry.1 "generic" = []
    · -- There is no attribute to set.
      apply getField_setField_of_unchanged
      · intro name category
        simp only [hvalues, htarget, Option.some.injEq]
        split
        · rename_i hname
          rw [← hname.1, hname.2, hexists]
          rfl
        · rfl
      · exact fun h => h.2 hexists
      · exact fun h => h.1 hget
    · have hset := get_setField_self hvalue htarget hexists
      have hne : (user.setField entry.1 entry.2).2.get entry.1 ≠ "" := by
        rw [hset]
        exact hvalue.ne_empty
      rw [getField_eq, if_pos hne, hset]
      exact iff_of_true rfl (Or.inl ⟨hget, hexists⟩)
  · by_cases halias : user.aliasOf entry.1 = ""
    · have htarget : user.target entry.1 = none := by
        rw [target, if_neg hget, if_neg fun h => h halias]
      apply getField_setField_of_unchanged
      · intro name category
        rw [hvalues, htarget, if_neg fun h => nomatch h.1]
      · exact fun h => hget h.1
      · exact fun h => h.2.2 (h.2.1.symm.trans halias)
    · have htarget : user.target entry.1 = some (user.aliasOf entry.1) := by
        rw [target, if_neg hget, if_pos halias]
      by_cases hself : user.aliasOf entry.1 = entry.1
      · have hexists : user.values entry.1 "generic" ≠ [] := by
          intro hnil
          rw [get_eq, hnil] at hget
          exact hget rfl
        have hset := get_setField_self hvalue (hself ▸ htarget) hexists
        have hne : (user.setField entry.1 entry.2).2.get entry.1 ≠ "" := by
          rw [hset]
          exact hvalue.ne_empty
        rw [getField_eq, if_pos hne, hset]
        exact iff_of_true rfl (Or.inr (Or.inl ⟨hget, hself, hself ▸ halias⟩))
      · -- The alias is set, and the operation is read under its own name.
        have hsame : (user.setField entry.1 entry.2).2.get entry.1 = user.get entry.1 := by
          apply get_congr
          rw [hvalues, htarget, if_neg fun h => hself (Option.some.inj h.1)]
        rw [getField_eq, hsame, if_pos hget, Settable, or_iff_right fun h => hget h.1,
          or_iff_right fun h => hself h.2.1, getField_eq, if_pos hget]

/-- No two names stand for one field, be it directly or by an alias; a missing alias counts
as an empty name. -/
def Apart (user : User) (first second : String × String) : Prop :=
  first.1 ≠ second.1 ∧ first.1 ≠ user.aliasOf second.1 ∧ user.aliasOf first.1 ≠ second.1 ∧
    (user.aliasOf first.1 = user.aliasOf second.1 → user.aliasOf first.1 = "")

instance (user : User) (first second : String × String) : Decidable (user.Apart first second) :=
  inferInstanceAs (Decidable (_ ∧ _ ∧ _ ∧ _))

theorem Apart.symm {user : User} {first second : String × String} (h : user.Apart first second) :
    user.Apart second first :=
  ⟨h.1.symm, h.2.2.1.symm, h.2.1.symm, fun heq => heq.trans (h.2.2.2 heq.symm)⟩

theorem Apart.congr {user other : User} (haliasOf : ∀ name, other.aliasOf name = user.aliasOf name)
    {first second : String × String} (h : user.Apart first second) : other.Apart first second := by
  simp only [Apart, haliasOf]
  exact h

/-- An operation apart from another leaves the attributes of that one alone. -/
theorem Apart.values_setField {user : User} {first second : String × String}
    (h : user.Apart first second) (hvalue : IsSelection first.2) (category : String) :
    (user.setField first.1 first.2).2.values second.1 category = user.values second.1 category ∧
      (user.setField first.1 first.2).2.values (user.aliasOf second.1) category =
        user.values (user.aliasOf second.1) category := by
  obtain ⟨hname, hfirst, hsecond, halias⟩ := h
  constructor
  · exact values_setField_of_ne user first.1 hvalue hname.symm (fun heq => absurd heq hsecond) _
  · exact values_setField_of_ne user first.1 hvalue hfirst.symm
      (fun heq => heq.symm.trans (halias heq)) _

theorem Apart.getField_setField {user : User} {first second : String × String}
    (h : user.Apart first second) (hvalue : IsSelection first.2) :
    (user.setField first.1 first.2).2.getField second.1 = user.getField second.1 :=
  getField_congr (aliasOf_setField user first.1 hvalue second.1)
    (h.values_setField hvalue "generic").1 (h.values_setField hvalue "generic").2

theorem Apart.settable_setField {user : User} {first second : String × String}
    (h : user.Apart first second) (hvalue : IsSelection first.2) :
    (user.setField first.1 first.2).2.Settable second ↔ user.Settable second := by
  have hvalues := (h.values_setField hvalue "generic").1
  rw [Settable, Settable, get_congr hvalues, hvalues, aliasOf_setField user first.1 hvalue,
    h.getField_setField hvalue]

end User

namespace AuthManager

open User

theorem getField_setAll_of_apart {operations : List (String × String)} {user : User}
    {entry : String × String} (hvalues : ∀ other ∈ operations, IsSelection other.2)
    (hapart : ∀ other ∈ operations, user.Apart other entry) :
    (setAll operations user).getField entry.1 = user.getField entry.1 := by
  induction operations generalizing user with
  | nil => rfl
  | cons other rest ih =>
      obtain ⟨hother, hrest⟩ := List.forall_mem_cons.mp hvalues
      obtain ⟨hfirst, hothers⟩ := List.forall_mem_cons.mp hapart
      have hcongr : ∀ next ∈ rest, (user.setField other.1 other.2).2.Apart next entry := by
        intro next hnext
        exact (hothers next hnext).congr (aliasOf_setField user other.1 hother)
      exact (ih hrest hcongr).trans (hfirst.getField_setField hother)

/-- Operations that stand for different fields are all read back exactly when each of them
was settable. -/
theorem getField_setAll_iff {operations : List (String × String)} {user : User}
    (hvalues : ∀ entry ∈ operations, IsSelection entry.2)
    (hapart : operations.Pairwise user.Apart) :
    (∀ entry ∈ operations, (setAll operations user).getField entry.1 = entry.2) ↔
      ∀ entry ∈ operations, user.Settable entry := by
  induction operations generalizing user with
  | nil =>
      exact iff_of_true (fun _ h => absurd h List.not_mem_nil)
        fun _ h => absurd h List.not_mem_nil
  | cons entry rest ih =>
      obtain ⟨hentry, hrest⟩ := List.forall_mem_cons.mp hvalues
      obtain ⟨hfirst, hothers⟩ := List.pairwise_cons.mp hapart
      have hcongr := aliasOf_setField user entry.1 hentry
      have hhead : (setAll (entry :: rest) user).getField entry.1 =
          (user.setField entry.1 entry.2).2.getField entry.1 := by
        apply getField_setAll_of_apart hrest
        intro other hother
        exact (hfirst other hother).symm.congr hcongr
      rw [List.forall_mem_cons, List.forall_mem_cons, hhead, getField_setField_iff user hentry]
      apply and_congr_right
      intro _
      have htail := ih hrest (hothers.imp fun h => h.congr hcongr)
      calc (∀ other ∈ rest, (setAll (entry :: rest) user).getField other.1 = other.2)
          ↔ ∀ other ∈ rest, (user.setField entry.1 entry.2).2.Settable other := htail
        _ ↔ ∀ other ∈ rest, user.Settable other := by
          apply forall₂_congr
          intro other hother
          exact (hfirst other hother).settable_setField hentry

/-- What no operation stands for stays as it is. -/
theorem values_setAll_of_ne {operations : List (String × String)} {user : User} {name : String}
    (hvalues : ∀ entry ∈ operations, IsSelection entry.2)
    (hne : ∀ entry ∈ operations, name ≠ entry.1 ∧ (user.aliasOf entry.1 = name → name = ""))
    (category : String) :
    (setAll operations user).values name category = user.values name category := by
  induction operations generalizing user with
  | nil => rfl
  | cons entry rest ih =>
      obtain ⟨hentry, hrest⟩ := List.forall_mem_cons.mp hvalues
      obtain ⟨⟨hname, halias⟩, hothers⟩ := List.forall_mem_cons.mp hne
      have hrestNe : ∀ other ∈ rest, name ≠ other.1 ∧
          ((user.setField entry.1 entry.2).2.aliasOf other.1 = name → name = "") := by
        intro other hother
        rw [aliasOf_setField user entry.1 hentry]
        exact hothers other hother
      exact (ih hrest hrestNe).trans
        (values_setField_of_ne user entry.1 hentry hname halias category)

/-- The values of an attribute that is not generic are not changed by operations. -/
theorem values_setAll_of_category (operations : List (String × String)) (user : User)
    (hvalues : ∀ entry ∈ operations, IsSelection entry.2) {category : String}
    (hcategory : category ≠ "generic") (name : String) :
    (setAll operations user).values name category = user.values name category := by
  induction operations generalizing user with
  | nil => rfl
  | cons entry rest ih =>
      obtain ⟨hentry, hrest⟩ := List.forall_mem_cons.mp hvalues
      have hstep : (user.setField entry.1 entry.2).2.values name category =
          user.values name category := by
        rw [values_setField user entry.1 hentry, if_neg fun h => hcategory h.2]
      exact (ih (user.setField entry.1 entry.2).2 hrest).trans hstep

/-! ## The new user -/

/-- The fields that an addition writes itself. -/
def ownFields : List String := ["username", "passwd", "Administration"]

theorem values_introduce (asked : Addition) (name : String) (user : User)
    (field category : String) :
    (asked.introduce name user).values field category =
      if category = "generic" then
        if field = "Administration" then
          asked.administrationAccess :: (user.values field category).tail
        else if field = "passwd" then asked.password :: (user.values field category).tail
        else if field = "username" then name :: (user.values field category).tail
        else user.values field category
      else user.values field category := by
  rw [Addition.introduce, values_add, values_add, values_add]
  by_cases hcategory : category = "generic"
  · simp only [hcategory, and_true, if_true]
    by_cases hadministration : field = "Administration"
    · subst hadministration
      simp
    · by_cases hpasswd : field = "passwd"
      · subst hpasswd
        simp
      · rw [if_neg hadministration, if_neg hpasswd, if_neg hadministration, if_neg hpasswd]
  · simp only [hcategory, and_false, if_false]

theorem values_introduce_of_notMem (asked : Addition) (name : String) (user : User)
    {field : String} (hfield : field ∉ ownFields) (category : String) :
    (asked.introduce name user).values field category = user.values field category := by
  simp only [ownFields, List.mem_cons, List.not_mem_nil, or_false, not_or] at hfield
  obtain ⟨husername, hpasswd, hadministration⟩ := hfield
  rw [values_introduce, if_neg hadministration, if_neg hpasswd, if_neg husername]
  split <;> rfl

theorem aliasOf_introduce (asked : Addition) (name : String) (user : User) (field : String) :
    (asked.introduce name user).aliasOf field = user.aliasOf field := by
  rw [aliasOf_eq, aliasOf_eq, values_introduce, if_neg (by decide)]

/-- No operation stands for one of the fields that an addition writes itself. -/
def OffOwnFields (user : User) (entry : String × String) : Prop :=
  entry.1 ∉ ownFields ∧ user.aliasOf entry.1 ∉ ownFields

instance (user : User) (entry : String × String) : Decidable (OffOwnFields user entry) :=
  inferInstanceAs (Decidable (_ ∧ _))

theorem settable_introduce {user : User} {entry : String × String} (h : OffOwnFields user entry)
    (asked : Addition) (name : String) :
    (asked.introduce name user).Settable entry ↔ user.Settable entry := by
  have hentry := values_introduce_of_notMem asked name user h.1 "generic"
  have halias := values_introduce_of_notMem asked name user h.2 "generic"
  rw [Settable, Settable, get_congr hentry, hentry, aliasOf_introduce,
    getField_congr (aliasOf_introduce asked name user entry.1) hentry halias]

/-- The value under a name and a category in the template; the last one counts. -/
def lastValue (name category : String) (attributes : List MAttribute) : Option String :=
  (attributes.reverse.find? fun attr => attr.name = name ∧ attr.category = category).map
    MAttribute.value

theorem head?_values_prepare {attributes : List MAttribute} {name category value : String}
    (hvalue : lastValue name category attributes = some value) (user : User) :
    ((attributes.foldl (fun user attr => user.addCategory attr.name attr.category attr.value)
      user).values name category).head? = some value := by
  induction attributes using List.reverseRecOn with
  | nil => cases hvalue
  | append_singleton front attr ih =>
      rw [List.foldl_append, List.foldl_cons, List.foldl_nil, values_addCategory]
      rw [lastValue, List.reverse_append, List.reverse_singleton, List.singleton_append,
        List.find?_cons] at hvalue
      by_cases hattr : attr.name = name ∧ attr.category = category
      · rw [decide_eq_true hattr] at hvalue
        rw [if_pos ⟨hattr.1.symm, hattr.2.symm⟩]
        exact hvalue
      · rw [decide_eq_false hattr] at hvalue
        rw [if_neg fun h => hattr ⟨h.1.symm, h.2.symm⟩]
        exact ih hvalue

/-- No empty value gives way to a second attribute of the name. -/
def Accepts (field value : String) (user : User) : Prop :=
  value = "" → ∀ other ∈ (user.values field "generic").tail, other = ""

/-- The operations, the password and the access are read back, and every other attribute
has the value of the template. -/
structure Stored (manager : AuthManager) (name : String) (asked : Addition) (user : User) :
    Prop where
  operations : ∀ entry ∈ asked.operations, user.getField entry.1 = entry.2
  passwd : user.get "passwd" = asked.password
  administration : user.get "Administration" = asked.administrationAccess
  others : ∀ field category value,
    lastValue field category manager.userTemplate.attributes = some value →
      (category = "generic" → field ∉ ownFields ∧ ∀ entry ∈ asked.operations,
        field ≠ entry.1 ∧ field ≠ (manager.prepared name).aliasOf entry.1) →
        (user.values field category).head? = some value

section

variable {manager : AuthManager} {name : String} {asked : Addition}
  (hvalues : ∀ entry ∈ asked.operations, IsSelection entry.2)
  (hown : ∀ entry ∈ asked.operations, OffOwnFields (manager.prepared name) entry)
include hvalues hown

/-- The fields that an addition writes itself are not touched by the operations. -/
theorem values_added_of_mem {field : String} (hfield : field ∈ ownFields) :
    (manager.added asked name).values field "generic" =
      (asked.introduce name (manager.prepared name)).values field "generic" := by
  apply values_setAll_of_ne hvalues
  intro entry hentry
  rw [aliasOf_introduce]
  obtain ⟨hname, halias⟩ := hown entry hentry
  refine ⟨fun heq => hname (heq ▸ hfield), fun heq => ?_⟩
  exact absurd (heq ▸ hfield) halias

theorem get_passwd_added :
    (manager.added asked name).get "passwd" = asked.password ↔
      Accepts "passwd" asked.password (manager.prepared name) := by
  rw [get_eq, values_added_of_mem hvalues hown (by decide), values_introduce, if_pos rfl,
    if_neg (by decide), if_pos rfl]
  exact MParams.firstFull_cons_iff _ _

theorem get_administration_added :
    (manager.added asked name).get "Administration" = asked.administrationAccess ↔
      Accepts "Administration" asked.administrationAccess (manager.prepared name) := by
  rw [get_eq, values_added_of_mem hvalues hown (by decide), values_introduce, if_pos rfl,
    if_pos rfl]
  exact MParams.firstFull_cons_iff _ _

omit hown in
theorem head?_values_added {field category value : String}
    (hvalue : lastValue field category manager.userTemplate.attributes = some value)
    (hother : category = "generic" → field ∉ ownFields ∧ ∀ entry ∈ asked.operations,
      field ≠ entry.1 ∧ field ≠ (manager.prepared name).aliasOf entry.1) :
    ((manager.added asked name).values field category).head? = some value := by
  have hsame : (manager.added asked name).values field category =
      (manager.prepared name).values field category := by
    by_cases hcategory : category = "generic"
    · obtain ⟨hfield, hnone⟩ := hother hcategory
      rw [← values_introduce_of_notMem asked name (manager.prepared name) hfield category]
      apply values_setAll_of_ne hvalues
      intro entry hentry
      rw [aliasOf_introduce]
      exact ⟨(hnone entry hentry).1, fun heq => absurd heq.symm (hnone entry hentry).2⟩
    · rw [added, values_setAll_of_category _ _ hvalues hcategory, values_introduce,
        if_neg hcategory]
  rw [hsame]
  exact head?_values_prepare hvalue _

theorem getField_added_iff
    (hapart : asked.operations.Pairwise (manager.prepared name).Apart) :
    (∀ entry ∈ asked.operations, (manager.added asked name).getField entry.1 = entry.2) ↔
      ∀ entry ∈ asked.operations, (manager.prepared name).Settable entry := by
  have hintroduced : asked.operations.Pairwise
      (asked.introduce name (manager.prepared name)).Apart :=
    hapart.imp fun h => h.congr (aliasOf_introduce asked name _)
  rw [added, getField_setAll_iff hvalues hintroduced]
  apply forall₂_congr
  intro entry hentry
  exact settable_introduce (hown entry hentry) asked name

end

theorem userAt_saveUser (name other : String) (manager : AuthManager) :
    (manager.saveUser name).userAt other = manager.userAt other := by
  rw [saveUser]
  split <;> rfl

/-- For a new name and a body with everything, whose operations stand for different fields,
the new user is stored as it is asked for exactly when every operation was settable in the
user made from the template and no second attribute shows through an empty password or
access. -/
theorem stored_iff {readJson : String → Option PTree} {manager : AuthManager} {name body : String}
    {asked : Addition} (hnew : manager.users.contains name = false)
    (hasked : addition readJson body = some asked)
    (hvalues : ∀ entry ∈ asked.operations, IsSelection entry.2)
    (hapart : asked.operations.Pairwise (manager.prepared name).Apart)
    (hown : ∀ entry ∈ asked.operations, OffOwnFields (manager.prepared name) entry)
    (res : MMessage) :
    ∃ answer after, addUser readJson name body res ⟨false, manager⟩ = .ok answer after ∧
      (Stored manager name asked (after.data.userAt name) ↔
        (∀ entry ∈ asked.operations, (manager.prepared name).Settable entry) ∧
          Accepts "passwd" asked.password (manager.prepared name) ∧
          Accepts "Administration" asked.administrationAccess (manager.prepared name)) := by
  have hrun := addUser_of_new readJson hnew body res
  rw [hasked] at hrun
  obtain ⟨unique, hdone⟩ := hrun
  refine ⟨_, _, hdone, ?_⟩
  rw [userAt_saveUser, userAt_withUser, ← getField_added_iff hvalues hown hapart,
    ← get_passwd_added hvalues hown, ← get_administration_added hvalues hown]
  constructor
  · intro h
    exact ⟨h.operations, h.passwd, h.administration⟩
  · rintro ⟨hoperations, hpasswd, hadministration⟩
    exact ⟨hoperations, hpasswd, hadministration,
      fun _ _ _ hvalue hother => head?_values_added hvalues hvalue hother⟩

/-- A new user that must not switch the alarm off. -/
def forbidOff : String :=
  "\x7b\"password\":\"1234\",\"administration_access\":\"false\",\"alarm_operations\":[" ++
    "\x7b\"name\":\"Alarm_OFF\",\"selection_status\":\"false\"\x7d]\x7d"

/-- What the reader makes of it. -/
def readForbidOff (text : String) : Option PTree :=
  if text = forbidOff then
    some (.node "" [("password", .node "1234" []), ("administration_access", .node "false" []),
      ("alarm_operations", .node "" [("", .node "" [("name", .node "Alarm_OFF" []),
        ("selection_status", .node "false" [])])])])
  else none

/-- A new user that may see a scenery and must not switch the alarm off. -/
def twoWishes : String :=
  "\x7b\"password\":\"1234\",\"administration_access\":\"false\",\"alarm_operations\":[" ++
    "\x7b\"name\":\"Alarm_OFF\",\"selection_status\":\"false\"\x7d," ++
    "\x7b\"name\":\"Scenery_1\",\"selection_status\":\"true\"\x7d]\x7d"

def readTwoWishes (text : String) : Option PTree :=
  if text = twoWishes then
    some (.node "" [("password", .node "1234" []), ("administration_access", .node "false" []),
      ("alarm_operations", .node "" [("", .node "" [("name", .node "Alarm_OFF" []),
        ("selection_status", .node "false" [])]), ("", .node "" [("name", .node "Scenery_1" []),
        ("selection_status", .node "true" [])])])])
  else none

theorem stored_iff_forbidOff :
    ∃ answer after, addUser readTwoWishes "bob" twoWishes res ⟨false, noUsers⟩ =
        .ok answer after ∧
      (Stored noUsers "bob" ⟨"1234", "false", [("Alarm_OFF", "false"), ("Scenery_1", "true")]⟩
        (after.data.userAt "bob") ↔
          (∀ entry ∈ [("Alarm_OFF", "false"), ("Scenery_1", "true")],
            (noUsers.prepared "bob").Settable entry) ∧
            Accepts "passwd" "1234" (noUsers.prepared "bob") ∧
            Accepts "Administration" "false" (noUsers.prepared "bob")) := by
  have hasked : addition readTwoWishes twoWishes =
      some ⟨"1234", "false", [("Alarm_OFF", "false"), ("Scenery_1", "true")]⟩ := by
    decide +kernel
  exact stored_iff rfl hasked (by decide) (by decide +kernel) (by decide +kernel) res

/-- The template allows what the body forbids: the prohibition is lost. -/
theorem not_stored_forbidOff :
    addition readForbidOff forbidOff = some ⟨"1234", "false", [("Alarm_OFF", "false")]⟩ ∧
      ∃ answer after, addUser readForbidOff "bob" forbidOff res ⟨false, noUsers⟩ =
        .ok answer after ∧
          ¬Stored noUsers "bob" ⟨"1234", "false", [("Alarm_OFF", "false")]⟩
            (after.data.userAt "bob") := by
  refine ⟨by decide +kernel, _, _, rfl, fun hstored => ?_⟩
  have hread := hstored.operations ("Alarm_OFF", "false") List.mem_cons_self
  exact absurd hread (by decide +kernel)

end AuthManager

end Hat
