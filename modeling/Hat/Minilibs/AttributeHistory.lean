import Hat.Minilibs.AttributeValues
import Hat.Minilibs.MessageReaders
import Mathlib.Data.List.Induction

/-!
# The history of an attribute set

A set is loaded from a document, changed by additions and saved as a document again.  What is
read under a name and a category is the value added last, if that is not the empty text in
front of other values of the file; and a category that is written as `*` is read back as
the generic one.
-/

namespace Hat

namespace MAttribute

/-- A node that is no element leaves the fields of a new attribute as they are. -/
def xmlDecode : XmlNode → MAttribute
  | .element attributes children =>
      let node := XmlNode.element attributes children
      let category := node.getAttrbyName "category"
      { name := node.getAttrbyName "name"
        category := if category = "*" then "generic" else category
        value := node.getAttrbyName "value" }
  | .other => ⟨"", "", ""⟩

def xmlEncode (attr : MAttribute) : String :=
  "<attribute name=\"" ++ attr.name ++ "\" category=\"" ++ attr.category ++ "\" value=\"" ++
    attr.value ++ "\"/>"

/-- The element that an attribute is written as. -/
def node (attr : MAttribute) : XmlNode :=
  .element [("name", attr.name), ("category", attr.category), ("value", attr.value)] []

/-- The attribute as it comes back from its element. -/
def reread (attr : MAttribute) : MAttribute :=
  { attr with category := if attr.category = "*" then "generic" else attr.category }

theorem xmlDecode_node (attr : MAttribute) : xmlDecode attr.node = attr.reread := rfl

theorem category_xmlDecode_ne (node : XmlNode) : (xmlDecode node).category ≠ "*" := by
  cases node with
  | element attributes children =>
      simp only [xmlDecode]
      split_ifs with hstar
      · decide
      · exact hstar
  | other => decide

end MAttribute

namespace MParams

def xmlEncode (params : MParams) : String :=
  "<?xml version=\"1.0\" ?>" ++
    (if params.ty = "" then "<set>" else "<set type=\"" ++ params.ty ++ "\">") ++
    String.join (params.attributes.map MAttribute.xmlEncode) ++ "</set>"

/-- The text that `xmlSave` leaves in the file. -/
def xmlSave (params : MParams) : String := params.xmlEncode ++ "\n"

/-- The element that a set is written as. -/
def node (params : MParams) : XmlNode :=
  .element (if params.ty = "" then [] else [("type", params.ty)])
    (params.attributes.map MAttribute.node)

def xmlDecode (desc : XmlNode) (params : MParams) : MParams :=
  { params with
    ty := desc.getAttrbyName "type"
    attributes := desc.children.map MAttribute.xmlDecode }

/-- The set is the node behind the first one; without it nothing is changed. -/
def xmlLoad (parse : String → List XmlNode) (text : String) (params : MParams) : MParams :=
  match parse text with
  | _ :: desc :: _ => params.xmlDecode desc
  | _ => params

/-- The reader of documents delivers the saved set as it is written, the declaration and the
element; a set whose texts hold no markup is one that it delivers so. -/
def ReadAsWritten (parse : String → List XmlNode) (params : MParams) : Prop :=
  parse params.xmlSave = [.other, params.node]

def addAll (params : MParams) (adds : List MAttribute) : MParams :=
  adds.foldl (fun params add => params.addCategory add.name add.category add.value) params

/-- The value of the last addition for a name and a category. -/
def lastAdd (name category : String) (adds : List MAttribute) : Option String :=
  (adds.reverse.find? fun add => add.name = name ∧ add.category = category).map
    MAttribute.value

theorem addAll_append_singleton (params : MParams) (adds : List MAttribute) (add : MAttribute) :
    params.addAll (adds ++ [add]) =
      (params.addAll adds).addCategory add.name add.category add.value := by
  rw [addAll, List.foldl_append]
  rfl

theorem lastAdd_append_singleton (name category : String) (adds : List MAttribute)
    (add : MAttribute) :
    lastAdd name category (adds ++ [add]) =
      if add.name = name ∧ add.category = category then some add.value
      else lastAdd name category adds := by
  rw [lastAdd, List.reverse_append, List.reverse_singleton, List.singleton_append,
    List.find?_cons, lastAdd]
  by_cases hadd : add.name = name ∧ add.category = category
  · rw [if_pos hadd, decide_eq_true hadd]
    rfl
  · rw [if_neg hadd, decide_eq_false hadd]

/-- The values of a name and a category: the first one is the one added last. -/
theorem values_addAll (params : MParams) (adds : List MAttribute) (name category : String) :
    (params.addAll adds).values name category =
      match lastAdd name category adds with
      | some value => value :: (params.values name category).tail
      | none => params.values name category := by
  induction adds using List.reverseRecOn with
  | nil => rfl
  | append_singleton adds add ih =>
      rw [addAll_append_singleton, values_addCategory, lastAdd_append_singleton, ih]
      by_cases hadd : add.name = name ∧ add.category = category
      · rw [if_pos ⟨hadd.1.symm, hadd.2.symm⟩, if_pos hadd]
        cases lastAdd name category adds <;> rfl
      · rw [if_neg fun h => hadd ⟨h.1.symm, h.2.symm⟩, if_neg hadd]

/-- What is read under a name and a category is the value added last, or that of the file;
and an addition is of no effect on the other names and categories. -/
structure Remembers (loaded : MParams) (adds : List MAttribute) : Prop where
  last : ∀ name category, (loaded.addAll adds).getCategory name category =
    (lastAdd name category adds).getD (loaded.getCategory name category)
  apart : ∀ add name category, ¬(name = add.name ∧ category = add.category) →
    (loaded.addAll (adds ++ [add])).getCategory name category =
      (loaded.addAll adds).getCategory name category

/-- Nothing shows through an addition of the empty text: the file has no value that is not
empty behind its first one. -/
def NothingBehind (loaded : MParams) (adds : List MAttribute) : Prop :=
  ∀ name category, lastAdd name category adds = some "" →
    ∀ value ∈ (loaded.values name category).tail, value = ""

theorem remembers_iff (loaded : MParams) (adds : List MAttribute) :
    loaded.Remembers adds ↔ loaded.NothingBehind adds := by
  have hpair : ∀ name category, ((loaded.addAll adds).getCategory name category =
      (lastAdd name category adds).getD (loaded.getCategory name category)) ↔
        (lastAdd name category adds = some "" →
          ∀ value ∈ (loaded.values name category).tail, value = "") := by
    intro name category
    rw [getCategory_eq, getCategory_eq, values_addAll]
    cases lastAdd name category adds with
    | none => exact iff_of_true rfl fun h => absurd h.symm (Option.some_ne_none "")
    | some value =>
        rw [Option.getD_some, Option.some.injEq]
        exact firstFull_cons_iff value _
  have hapart : ∀ add name category, ¬(name = add.name ∧ category = add.category) →
      (loaded.addAll (adds ++ [add])).getCategory name category =
        (loaded.addAll adds).getCategory name category := by
    intro add name category hne
    rw [addAll_append_singleton, getCategory_eq, getCategory_eq, values_addCategory, if_neg hne]
  constructor
  · exact fun h name category => (hpair name category).mp (h.last name category)
  · exact fun h => ⟨fun name category => (hpair name category).mpr (h name category), hapart⟩

/-! ## Saving and loading again -/

/-- Every attribute reads the same after the set is saved and loaded again. -/
def Restores (parse : String → List XmlNode) (params : MParams) : Prop :=
  ∀ into : MParams, ∀ name category,
    (into.xmlLoad parse params.xmlSave).getCategory name category =
      params.getCategory name category

/-- An attribute without the category `*` comes back as it is, and an empty one is not
missed. -/
theorem getFromCategory_map_reread (name category : String) {attributes : List MAttribute}
    (hstar : ∀ attr ∈ attributes, attr.category = "*" → attr.value = "") :
    getFromCategory name category (attributes.map MAttribute.reread) =
      getFromCategory name category attributes := by
  induction attributes with
  | nil => rfl
  | cons attr rest ih =>
      obtain ⟨hattr, hrest⟩ := List.forall_mem_cons.mp hstar
      rw [List.map_cons, getFromCategory, getFromCategory, ih hrest]
      by_cases hcategory : attr.category = "*"
      · have hvalue : attr.value = "" := hattr hcategory
        have hvalue' : attr.reread.value = "" := hvalue
        rw [if_neg fun h => h.2 hvalue', if_neg fun h => h.2 hvalue]
      · have hsame : attr.reread = attr := by
          rw [MAttribute.reread, if_neg hcategory]
        rw [hsame]

/-- Nothing is read under the category `*` after it was loaded again. -/
theorem getFromCategory_star_map_reread (name : String) (attributes : List MAttribute) :
    getFromCategory name "*" (attributes.map MAttribute.reread) = "" := by
  apply getFromCategory_of_category_ne
  intro attr hattr
  obtain ⟨source, -, rfl⟩ := List.mem_map.mp hattr
  simp only [MAttribute.reread]
  split_ifs with hstar
  · decide
  · exact hstar

/-- What was added last under the category `*` is empty. -/
def NoStar (adds : List MAttribute) : Prop :=
  ∀ name value, lastAdd name "*" adds = some value → value = ""

theorem attributes_xmlLoad {parse : String → List XmlNode} {params : MParams}
    (hread : params.ReadAsWritten parse) (into : MParams) :
    (into.xmlLoad parse params.xmlSave).attributes =
      params.attributes.map MAttribute.reread := by
  rw [xmlLoad, hread]
  simp only [xmlDecode, node, XmlNode.children, List.map_map]
  exact List.map_congr_left fun attr _ => attr.xmlDecode_node

/-- Without the category `*` the saved attributes come back as they are. -/
theorem attributes_xmlLoad_eq_load {parse : String → List XmlNode} {params : MParams}
    (hread : params.ReadAsWritten parse)
    (hstar : ∀ attr ∈ params.attributes, attr.category ≠ "*") (into : MParams) :
    (into.xmlLoad parse params.xmlSave).attributes = params.save.load.attributes := by
  rw [attributes_xmlLoad hread]
  refine (List.map_congr_left fun attr hattr => ?_).trans (List.map_id params.attributes)
  rw [MAttribute.reread, if_neg (hstar attr hattr)]
  rfl

theorem values_star_eq_nil {params : MParams}
    (hstar : ∀ attr ∈ params.attributes, attr.category ≠ "*") (name : String) :
    params.values name "*" = [] := by
  rw [values, List.map_eq_nil_iff, List.filter_eq_nil_iff]
  intro attr hattr hsame
  exact hstar attr hattr (of_decide_eq_true hsame).2

theorem restores_iff {parse : String → List XmlNode} {loaded : MParams}
    (hstar : ∀ attr ∈ loaded.attributes, attr.category ≠ "*") {adds : List MAttribute}
    (hread : (loaded.addAll adds).ReadAsWritten parse) :
    Restores parse (loaded.addAll adds) ↔ NoStar adds := by
  have hvalues : ∀ name, (loaded.addAll adds).values name "*" =
      (lastAdd name "*" adds).toList := by
    intro name
    rw [values_addAll, values_star_eq_nil hstar]
    cases lastAdd name "*" adds <;> rfl
  constructor
  · intro hrestores name value hlast
    have hstarRead := hrestores loaded name "*"
    rw [getCategory, attributes_xmlLoad hread, getFromCategory_star_map_reread,
      getCategory_eq, hvalues, hlast] at hstarRead
    by_contra hvalue
    rw [Option.toList_some, firstFull_cons hvalue] at hstarRead
    exact hvalue hstarRead.symm
  · intro hnone into name category
    rw [getCategory, getCategory, attributes_xmlLoad hread]
    apply getFromCategory_map_reread
    intro attr hattr hcategory
    have hmem : attr.value ∈ (loaded.addAll adds).values attr.name "*" := by
      apply List.mem_map_of_mem
      exact List.mem_filter.mpr ⟨hattr, decide_eq_true ⟨rfl, hcategory⟩⟩
    rw [hvalues, Option.mem_toList] at hmem
    exact hnone attr.name attr.value hmem

/-- A loaded set remembers what was added last and survives being saved and loaded again
exactly when nothing shows through an empty addition and the category `*` is left empty. -/
theorem history_iff {parse : String → List XmlNode} (file : XmlNode) (unloaded : MParams)
    (adds : List MAttribute)
    (hread : ((unloaded.xmlDecode file).addAll adds).ReadAsWritten parse) :
    ((unloaded.xmlDecode file).Remembers adds ∧
        Restores parse ((unloaded.xmlDecode file).addAll adds)) ↔
      (unloaded.xmlDecode file).NothingBehind adds ∧ NoStar adds := by
  have hstar : ∀ attr ∈ (unloaded.xmlDecode file).attributes, attr.category ≠ "*" := by
    intro attr hattr
    obtain ⟨child, -, rfl⟩ := List.mem_map.mp hattr
    exact MAttribute.category_xmlDecode_ne child
  rw [remembers_iff, restores_iff hstar hread]

/-- A set before it is loaded. -/
def blank : MParams := ⟨"heating", [], none, none⟩

/-- A file that gives the temperature twice. -/
def heatingFile : XmlNode :=
  .element [("type", "heating")]
    [.element [("name", "temp"), ("value", "20")] [],
      .element [("name", "temp"), ("category", "generic"), ("value", "22")] []]

/-- The file after the temperature has been set. -/
def heated : MParams := (blank.xmlDecode heatingFile).addAll [⟨"temp", "generic", "19"⟩]

theorem history_heating :
    ((blank.xmlDecode heatingFile).Remembers [⟨"temp", "generic", "19"⟩] ∧
        Restores (MMessage.readsOnly heated.xmlSave [.other, heated.node]) heated) ↔
      (blank.xmlDecode heatingFile).NothingBehind [⟨"temp", "generic", "19"⟩] ∧
        NoStar [⟨"temp", "generic", "19"⟩] :=
  history_iff heatingFile blank [⟨"temp", "generic", "19"⟩] (if_pos rfl)

/-- The temperature is made empty, and the other one of the file is read. -/
theorem not_remembers_heating :
    ¬(blank.xmlDecode heatingFile).Remembers [⟨"temp", "generic", ""⟩] := by
  intro hremembers
  exact absurd (hremembers.last "temp" "generic") (by decide)

end MParams

end Hat
