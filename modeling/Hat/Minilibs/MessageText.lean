import Hat.Core.Delimited
import Hat.Minilibs.AgentInfo
import Mathlib.Data.Set.Basic

/-!
# Messages as texts

The encoder puts type, subtype, names, values and items between fixed pieces of markup and
quotes nothing.  Whether the text determines the message depends on the characters that
the contents may have: on whether they can spell one of four delimiters.
-/

namespace Hat

open Hat.Delimited

namespace MessageText

def typeEnd : String := "\" subtype=\""

def subtypeEnd : String := "\">"

def fieldOpen : String := "<field name=\""

def scalarValue : String := "\" type=\"Mstring\"  value=\""

def listOpen : String := "\" type=\"MstringList\">"

def itemOpen : String := "<item value=\""

def valueEnd : String := "\"/>"

def listEnd : String := "</field>"

def messageEnd : String := "</message>"

def messageOpen (md : ℕ) : String :=
  (if md > 0 then "<?xml version=\"1.0\" ?>" else "") ++ "<message type=\""

/-- The delimiters between type and subtype, between the subtype and the first name, between
a name and its value and between two items.  Every other delimiter within a text has the
letters of one of them. -/
def delimiters : List String :=
  [typeEnd, subtypeEnd ++ fieldOpen, scalarValue, valueEnd ++ itemOpen]

def keys : List (List Char) := delimiters.map String.toList

/-- What can stand behind the type. -/
def typeInner : List (List Char) := [typeEnd.toList]

/-- What can stand behind the subtype. -/
def subtypeInner : List (List Char) := [subtypeEnd.toList ++ fieldOpen.toList]

def subtypeEndings : List (List Char) := [subtypeEnd.toList ++ messageEnd.toList]

/-- What can stand behind a name. -/
def nameInner : List (List Char) :=
  [scalarValue.toList, listOpen.toList ++ itemOpen.toList,
    listOpen.toList ++ (listEnd.toList ++ fieldOpen.toList)]

def nameEndings : List (List Char) :=
  [listOpen.toList ++ (listEnd.toList ++ messageEnd.toList)]

/-- What can stand behind a value. -/
def valueInner : List (List Char) := [valueEnd.toList ++ fieldOpen.toList]

def valueEndings : List (List Char) := [valueEnd.toList ++ messageEnd.toList]

/-- What can stand behind an item. -/
def itemInner : List (List Char) :=
  [valueEnd.toList ++ itemOpen.toList, valueEnd.toList ++ (listEnd.toList ++ fieldOpen.toList)]

def itemEndings : List (List Char) :=
  [valueEnd.toList ++ (listEnd.toList ++ messageEnd.toList)]

theorem separates_type : Separates keys typeInner [] := by
  decide +kernel

theorem separates_subtype : Separates keys subtypeInner subtypeEndings := by
  decide +kernel

theorem separates_name : Separates keys nameInner nameEndings := by
  decide +kernel

theorem separates_value : Separates keys valueInner valueEndings := by
  decide +kernel

theorem separates_item : Separates keys itemInner itemEndings := by
  decide +kernel

/-- The text from the items of a list on, with what follows the field. -/
def itemsTail (text : List Char) (items : List String) : List Char :=
  items.foldr (fun item rest => itemOpen.toList ++ (item.toList ++ (valueEnd.toList ++ rest)))
    (listEnd.toList ++ text)

/-- The text behind a name, with what follows the field. -/
def listTail (text : List Char) : MstringList → List Char
  | .mstring value => scalarValue.toList ++ (value.toList ++ (valueEnd.toList ++ text))
  | .mstringList items => listOpen.toList ++ itemsTail text items

/-- The text from the fields on. -/
def fieldsTail (entries : List (String × MstringList)) : List Char :=
  entries.foldr (fun entry rest =>
    fieldOpen.toList ++ (entry.1.toList ++ listTail rest entry.2)) messageEnd.toList

theorem toList_join_cons (text : String) (rest : List String) :
    (String.join (text :: rest)).toList = text.toList ++ (String.join rest).toList := by
  rw [String.join_cons, String.toList_append]

theorem toList_items (items : List String) (text : List Char) :
    (String.join (items.map fun item => itemOpen ++ item ++ valueEnd)).toList ++
      (listEnd.toList ++ text) = itemsTail text items := by
  induction items with
  | nil => rfl
  | cons item rest ih =>
      rw [List.map_cons, toList_join_cons, itemsTail, List.foldr_cons, ← itemsTail, ← ih]
      simp only [String.toList_append, List.append_assoc]

theorem toList_field (name : String) (list : MstringList) (text : List Char) :
    (list.xmlEncode name).toList ++ text =
      fieldOpen.toList ++ (name.toList ++ listTail text list) := by
  cases list with
  | mstring value =>
      change (fieldOpen ++ name ++ scalarValue ++ value ++ valueEnd).toList ++ text = _
      simp only [listTail, String.toList_append, List.append_assoc]
  | mstringList items =>
      change (fieldOpen ++ name ++ listOpen ++
        String.join (items.map fun item => itemOpen ++ item ++ valueEnd) ++ listEnd).toList ++
          text = _
      simp only [listTail, ← toList_items, String.toList_append, List.append_assoc]

theorem toList_fields (entries : List (String × MstringList)) :
    (String.join (entries.map fun entry => entry.2.xmlEncode entry.1)).toList ++
      messageEnd.toList = fieldsTail entries := by
  induction entries with
  | nil => rfl
  | cons entry rest ih =>
      rw [List.map_cons, toList_join_cons, List.append_assoc, ih, toList_field]
      rfl

theorem toList_xmlEncode (md : ℕ) (message : MMessage) :
    (message.xmlEncode md).toList =
      (messageOpen md).toList ++ (message.mtype.toList ++ (typeEnd.toList ++
        (message.msubtype.toList ++
          (subtypeEnd.toList ++ fieldsTail message.fields.entries)))) := by
  change (messageOpen md ++ message.mtype ++ typeEnd ++ message.msubtype ++ subtypeEnd ++
    String.join (message.fields.entries.map fun entry => entry.2.xmlEncode entry.1) ++
      messageEnd).toList = _
  simp only [← toList_fields, String.toList_append, List.append_assoc]

theorem prefix_append_append (front middle rest : List Char) :
    front ++ middle <+: front ++ (middle ++ rest) :=
  (List.prefix_append_right_inj _).mpr (List.prefix_append _ _)

theorem tail_type (text : List Char) : Tail typeInner [] (typeEnd.toList ++ text) :=
  Or.inl ⟨_, List.mem_cons_self, List.prefix_append _ _⟩

theorem tail_subtype (entries : List (String × MstringList)) :
    Tail subtypeInner subtypeEndings (subtypeEnd.toList ++ fieldsTail entries) := by
  cases entries with
  | nil => exact Or.inr List.mem_cons_self
  | cons entry rest =>
      refine Or.inl ⟨_, List.mem_cons_self, ?_⟩
      exact prefix_append_append _ _ _

theorem tail_value (entries : List (String × MstringList)) :
    Tail valueInner valueEndings (valueEnd.toList ++ fieldsTail entries) := by
  cases entries with
  | nil => exact Or.inr List.mem_cons_self
  | cons entry rest =>
      refine Or.inl ⟨_, List.mem_cons_self, ?_⟩
      exact prefix_append_append _ _ _

theorem tail_item (entries : List (String × MstringList)) (items : List String) :
    Tail itemInner itemEndings (valueEnd.toList ++ itemsTail (fieldsTail entries) items) := by
  cases items with
  | nil =>
      cases entries with
      | nil => exact Or.inr List.mem_cons_self
      | cons entry rest =>
          refine Or.inl ⟨_, List.mem_cons_of_mem _ List.mem_cons_self, ?_⟩
          exact (List.prefix_append_right_inj _).mpr
            ((List.prefix_append_right_inj _).mpr (List.prefix_append _ _))
  | cons item rest =>
      refine Or.inl ⟨_, List.mem_cons_self, ?_⟩
      exact prefix_append_append _ _ _

theorem tail_name (entries : List (String × MstringList)) (list : MstringList) :
    Tail nameInner nameEndings (listTail (fieldsTail entries) list) := by
  cases list with
  | mstring value => exact Or.inl ⟨_, List.mem_cons_self, List.prefix_append _ _⟩
  | mstringList items =>
      cases items with
      | nil =>
          cases entries with
          | nil => exact Or.inr List.mem_cons_self
          | cons entry rest =>
              refine Or.inl ⟨_, List.mem_cons_of_mem _ (List.mem_cons_of_mem _
                List.mem_cons_self), ?_⟩
              exact (List.prefix_append_right_inj _).mpr
                ((List.prefix_append_right_inj _).mpr (List.prefix_append _ _))
      | cons item rest =>
          refine Or.inl ⟨_, List.mem_cons_of_mem _ List.mem_cons_self, ?_⟩
          exact prefix_append_append _ _ _

/-! ## The text determines the message -/

section Determined

variable {letters : Set Char}

theorem itemsTail_injective (hlacks : Lacks letters keys) {items others : List String}
    (hitems : ∀ item ∈ items, Over letters item.toList)
    (hothers : ∀ item ∈ others, Over letters item.toList)
    {entries rest : List (String × MstringList)}
    (heq : itemsTail (fieldsTail entries) items = itemsTail (fieldsTail rest) others) :
    items = others ∧ fieldsTail entries = fieldsTail rest := by
  have hends : ¬ Comparable listEnd.toList itemOpen.toList := by
    simp [Comparable, listEnd, itemOpen]
  induction items generalizing others with
  | nil =>
      cases others with
      | nil => exact ⟨rfl, List.append_cancel_left heq⟩
      | cons other others => exact absurd heq (append_ne_append hends _ _)
  | cons item items ih =>
      cases others with
      | nil => exact absurd heq.symm (append_ne_append hends _ _)
      | cons other others =>
          obtain ⟨hitem, htail⟩ := cut separates_item hlacks (hitems item List.mem_cons_self)
            (hothers other List.mem_cons_self) (tail_item entries items)
            (tail_item rest others) (List.append_cancel_left heq)
          obtain ⟨hrest, hfields⟩ := ih
            (fun text htext => hitems text (List.mem_cons_of_mem item htext))
            (fun text htext => hothers text (List.mem_cons_of_mem other htext))
            (List.append_cancel_left htail)
          rw [String.toList_inj.mp hitem, hrest]
          exact ⟨rfl, hfields⟩

theorem listTail_injective (hlacks : Lacks letters keys) {list other : MstringList}
    (hlist : ∀ text ∈ list.texts, Over letters text.toList)
    (hother : ∀ text ∈ other.texts, Over letters text.toList)
    {entries rest : List (String × MstringList)}
    (heq : listTail (fieldsTail entries) list = listTail (fieldsTail rest) other) :
    list = other ∧ fieldsTail entries = fieldsTail rest := by
  have hkinds : ¬ Comparable scalarValue.toList listOpen.toList := by
    simp [Comparable, scalarValue, listOpen]
  cases list with
  | mstring value =>
      cases other with
      | mstring otherValue =>
          obtain ⟨hvalue, htail⟩ := cut separates_value hlacks (hlist value List.mem_cons_self)
            (hother otherValue List.mem_cons_self) (tail_value entries) (tail_value rest)
            (List.append_cancel_left heq)
          rw [String.toList_inj.mp hvalue]
          exact ⟨rfl, List.append_cancel_left htail⟩
      | mstringList items => exact absurd heq (append_ne_append hkinds _ _)
  | mstringList items =>
      cases other with
      | mstring value => exact absurd heq.symm (append_ne_append hkinds _ _)
      | mstringList others =>
          obtain ⟨hitems, htail⟩ := itemsTail_injective hlacks hlist hother
            (List.append_cancel_left heq)
          exact ⟨congrArg MstringList.mstringList hitems, htail⟩

/-- The names and the texts of the fields consist of the letters. -/
def FieldsOver (letters : Set Char) (entries : List (String × MstringList)) : Prop :=
  ∀ entry ∈ entries, Over letters entry.1.toList ∧
    ∀ text ∈ entry.2.texts, Over letters text.toList

instance [DecidablePred (· ∈ letters)] (entries : List (String × MstringList)) :
    Decidable (FieldsOver letters entries) :=
  inferInstanceAs (Decidable (∀ entry ∈ entries, Over letters entry.1.toList ∧
    ∀ text ∈ entry.2.texts, Over letters text.toList))

theorem fieldsTail_injective (hlacks : Lacks letters keys)
    {entries others : List (String × MstringList)} (hentries : FieldsOver letters entries)
    (hothers : FieldsOver letters others) (heq : fieldsTail entries = fieldsTail others) :
    entries = others := by
  have hends : ∀ text, messageEnd.toList ≠ fieldOpen.toList ++ text := by
    intro text htext
    have hkinds : ¬ Comparable messageEnd.toList fieldOpen.toList := by
      simp [Comparable, messageEnd, fieldOpen]
    exact append_ne_append hkinds [] text ((List.append_nil _).trans htext)
  induction entries generalizing others with
  | nil =>
      cases others with
      | nil => rfl
      | cons other others => exact absurd heq (hends _)
  | cons entry entries ih =>
      cases others with
      | nil => exact absurd heq.symm (hends _)
      | cons other others =>
          obtain ⟨hname, hlist⟩ := hentries entry List.mem_cons_self
          obtain ⟨hotherName, hotherList⟩ := hothers other List.mem_cons_self
          obtain ⟨hnames, htail⟩ := cut separates_name hlacks hname hotherName
            (tail_name entries entry.2) (tail_name others other.2) (List.append_cancel_left heq)
          obtain ⟨hlists, hrest⟩ := listTail_injective hlacks hlist hotherList htail
          rw [Prod.ext (String.toList_inj.mp hnames) hlists,
            ih (fun field hfield => hentries field (List.mem_cons_of_mem entry hfield))
              (fun field hfield => hothers field (List.mem_cons_of_mem other hfield)) hrest]

end Determined

end MessageText

open MessageText

namespace MMessage

/-- All texts of the message consist of the letters. -/
def Over (letters : Set Char) (message : MMessage) : Prop :=
  Delimited.Over letters message.mtype.toList ∧ Delimited.Over letters message.msubtype.toList ∧
    FieldsOver letters message.fields.entries

instance (letters : Set Char) [DecidablePred (· ∈ letters)] (message : MMessage) :
    Decidable (message.Over letters) :=
  inferInstanceAs (Decidable (Delimited.Over letters message.mtype.toList ∧
    Delimited.Over letters message.msubtype.toList ∧
      FieldsOver letters message.fields.entries))

/-- Messages of the letters are told apart by their texts, up to the priority, which is not
written. -/
def EncodesApart (letters : Set Char) (md : ℕ) : Prop :=
  ∀ message other : MMessage, message.Over letters → other.Over letters →
    message.xmlEncode md = other.xmlEncode md →
      message.mtype = other.mtype ∧ message.msubtype = other.msubtype ∧
        message.fields = other.fields

theorem encodesApart_of_lacks {letters : Set Char} (hlacks : Lacks letters keys) (md : ℕ) :
    EncodesApart letters md := by
  rintro message other ⟨htype, hsubtype, hfields⟩ ⟨hotherType, hotherSubtype, hotherFields⟩ heq
  have htexts := String.toList_inj.mpr heq
  rw [toList_xmlEncode, toList_xmlEncode] at htexts
  obtain ⟨htypes, hbehindType⟩ := cut separates_type hlacks htype hotherType (tail_type _)
    (tail_type _) (List.append_cancel_left htexts)
  obtain ⟨hsubtypes, hbehindSubtype⟩ := cut separates_subtype hlacks hsubtype hotherSubtype
    (tail_subtype _) (tail_subtype _) (List.append_cancel_left hbehindType)
  have hentries := fieldsTail_injective hlacks hfields hotherFields
    (List.append_cancel_left hbehindSubtype)
  exact ⟨String.toList_inj.mp htypes, String.toList_inj.mp hsubtypes,
    SortedMap.eq_of_entries hentries⟩

/-- A message with one field. -/
def single (msubtype name : String) (list : MstringList) : MMessage :=
  ⟨"", msubtype, 0, SortedMap.empty.insert name list⟩

theorem over_single {letters : Set Char} {msubtype name : String} {list : MstringList}
    (hsubtype : Delimited.Over letters msubtype.toList)
    (hname : Delimited.Over letters name.toList)
    (hlist : ∀ text ∈ list.texts, Delimited.Over letters text.toList) :
    (single msubtype name list).Over letters := by
  refine ⟨fun _ h => absurd h List.not_mem_nil, hsubtype, fun entry hentry => ?_⟩
  rw [List.mem_singleton.mp hentry]
  exact ⟨hname, hlist⟩

theorem toList_single (md : ℕ) (msubtype name : String) (list : MstringList) :
    ((single msubtype name list).xmlEncode md).toList =
      (messageOpen md).toList ++ (typeEnd.toList ++ (msubtype.toList ++ (subtypeEnd.toList ++
        (fieldOpen.toList ++ (name.toList ++ listTail messageEnd.toList list))))) := by
  rw [toList_xmlEncode]
  rfl

section Collisions

variable {letters : Set Char} {md : ℕ}

theorem over_empty : Delimited.Over letters ("" : String).toList :=
  fun _ h => absurd h List.not_mem_nil

/-- A delimiter can be the type or the subtype. -/
theorem not_over_typeEnd (h : EncodesApart letters md) :
    ¬ Delimited.Over letters typeEnd.toList := by
  intro hkey
  have hfields : FieldsOver letters (SortedMap.empty : SortedMap String MstringList).entries :=
    fun entry hentry => absurd hentry List.not_mem_nil
  have hsame := h ⟨typeEnd, "", 0, SortedMap.empty⟩ ⟨"", typeEnd, 0, SortedMap.empty⟩
    ⟨hkey, over_empty, hfields⟩ ⟨over_empty, hkey, hfields⟩ (by
      refine String.toList_inj.mp ?_
      rw [toList_xmlEncode, toList_xmlEncode]
      rfl)
  exact absurd hsame.1 (by decide)

/-- A delimiter can be the subtype or the first name. -/
theorem not_over_firstField (h : EncodesApart letters md) :
    ¬ Delimited.Over letters (subtypeEnd ++ fieldOpen).toList := by
  intro hkey
  have hsame := h (single (subtypeEnd ++ fieldOpen) "" (.mstring ""))
    (single "" (subtypeEnd ++ fieldOpen) (.mstring ""))
    (over_single hkey over_empty (by simpa [MstringList.texts] using over_empty))
    (over_single over_empty hkey (by simpa [MstringList.texts] using over_empty)) (by
      refine String.toList_inj.mp ?_
      rw [toList_single, toList_single]
      simp only [String.toList_append, String.toList_empty, List.append_assoc, List.nil_append])
  exact absurd hsame.2.1 (by decide)

/-- A delimiter can be a name or its value. -/
theorem not_over_scalarValue (h : EncodesApart letters md) :
    ¬ Delimited.Over letters scalarValue.toList := by
  intro hkey
  have hsame := h (single "" scalarValue (.mstring "")) (single "" "" (.mstring scalarValue))
    (over_single over_empty hkey (by simpa [MstringList.texts] using over_empty))
    (over_single over_empty over_empty (by simpa [MstringList.texts] using hkey)) (by
      refine String.toList_inj.mp ?_
      rw [toList_single, toList_single]
      simp only [listTail, String.toList_empty, List.nil_append])
  exact absurd hsame.2.2 (by decide)

/-- A delimiter can be one item or stand between two. -/
theorem not_over_nextItem (h : EncodesApart letters md) :
    ¬ Delimited.Over letters (valueEnd ++ itemOpen).toList := by
  intro hkey
  have hsame := h (single "" "" (.mstringList [valueEnd ++ itemOpen]))
    (single "" "" (.mstringList ["", ""]))
    (over_single over_empty over_empty (by simpa [MstringList.texts] using hkey))
    (over_single over_empty over_empty (by simpa [MstringList.texts] using over_empty)) (by
      refine String.toList_inj.mp ?_
      rw [toList_single, toList_single]
      simp only [listTail, itemsTail, List.foldr_cons, List.foldr_nil, String.toList_append,
        String.toList_empty, List.append_assoc, List.nil_append])
  exact absurd hsame.2.2 (by decide)

end Collisions

/-- The encoding is injective on the messages of some letters exactly when each of the four
delimiters has a letter that is not among them. -/
theorem encodesApart_iff (letters : Set Char) (md : ℕ) :
    EncodesApart letters md ↔ ∀ delimiter ∈ delimiters, ∃ c ∈ delimiter.toList, c ∉ letters := by
  have hkeys : Lacks letters keys ↔
      ∀ delimiter ∈ delimiters, ∃ c ∈ delimiter.toList, c ∉ letters := by
    simp only [Lacks, keys, List.mem_map, forall_exists_index, and_imp,
      forall_apply_eq_imp_iff₂]
  have hover : ∀ {delimiter : String}, ¬ Delimited.Over letters delimiter.toList →
      ∃ c ∈ delimiter.toList, c ∉ letters := by
    intro delimiter hnot
    simpa only [Delimited.Over, not_forall, exists_prop] using hnot
  constructor
  · intro hapart
    simp only [delimiters, List.forall_mem_cons]
    exact ⟨hover (not_over_typeEnd hapart), hover (not_over_firstField hapart),
      hover (not_over_scalarValue hapart), hover (not_over_nextItem hapart),
      fun _ h => absurd h List.not_mem_nil⟩
  · intro hlacks
    exact encodesApart_of_lacks (hkeys.mpr hlacks) md

/-- The characters that can be printed. -/
def printable : Set Char := {c | ' ' ≤ c ∧ c ≤ '~'}

instance : DecidablePred (· ∈ printable) :=
  fun c => inferInstanceAs (Decidable (' ' ≤ c ∧ c ≤ '~'))

/-- A value that brings a field of its own, and the message that has the two fields. -/
theorem not_encodesApart_printable : ¬ EncodesApart printable 1 := by
  intro hapart
  have hsame := hapart
    ⟨"command", "login", 0, SortedMap.empty.insert "name"
      (.mstring "guest\"/><field name=\"user\" type=\"Mstring\"  value=\"admin")⟩
    ⟨"command", "login", 0, (SortedMap.empty.insert "name" (.mstring "guest")).insert "user"
      (.mstring "admin")⟩
    (by decide) (by decide) (by decide +kernel)
  exact absurd hsame.2.2 (by decide)

end MMessage

end Hat
