import Hat.Minilibs.AgentInfo

/-!
# Messages as forms

Both message classes are posted as `name=value&name=value` and read by a loop over the
characters.  The loop stores a field at each `&` whatever its name and value; the field
that is left at the end it stores only when neither is empty.
-/

namespace Hat

/-- The older class of messages: a map of texts without a subtype. -/
structure Message where
  mtype : String
  priority : ℤ
  fields : SortedMap String String

section Form

variable {μ : Type*}

structure FormState (μ : Type*) where
  tname : String
  tvalue : String
  flag : Bool
  message : μ

def formStep (store : String → String → μ → μ) (state : FormState μ) (c : Char) : FormState μ :=
  if c = '=' then { state with flag := true }
  else if c = ' ' then state
  else if c = '&' then ⟨"", "", false, store state.tname state.tvalue state.message⟩
  else if state.flag then { state with tvalue := state.tvalue.push c }
  else { state with tname := state.tname.push c }

def formAppend (store storeLast : String → String → μ → μ) (text : String) (message : μ) : μ :=
  let state := text.toList.foldl (formStep store) ⟨"", "", false, message⟩
  storeLast state.tname state.tvalue state.message

/-- A name and a value as they are written, and the loop over them. -/
def formField (field : String × String) : String := field.1 ++ "=" ++ field.2

/-- A text that the loop takes as it is. -/
def NonReserved (text : String) : Prop :=
  ∀ c ∈ text.toList, c ≠ '&' ∧ c ≠ '=' ∧ c ≠ ' '

instance (text : String) : Decidable (NonReserved text) :=
  List.decidableBAll (fun c => c ≠ '&' ∧ c ≠ '=' ∧ c ≠ ' ') text.toList

theorem formStep_of_ne (store : String → String → μ → μ) (state : FormState μ) {c : Char}
    (hc : c ≠ '&' ∧ c ≠ '=' ∧ c ≠ ' ') :
    formStep store state c =
      if state.flag then { state with tvalue := state.tvalue.push c }
      else { state with tname := state.tname.push c } := by
  rw [formStep, if_neg hc.2.1, if_neg hc.2.2, if_neg hc.1]

theorem push_append (left : String) (c : Char) (rest : List Char) :
    left.push c ++ String.ofList rest = left ++ String.ofList (c :: rest) := by
  refine String.toList_inj.mp ?_
  rw [String.toList_append, String.toList_push, String.toList_append, String.toList_ofList,
    String.toList_ofList, List.append_assoc, List.singleton_append]

theorem foldl_formStep_name (store : String → String → μ → μ) {chars : List Char}
    (h : ∀ c ∈ chars, c ≠ '&' ∧ c ≠ '=' ∧ c ≠ ' ') (tname tvalue : String) (message : μ) :
    chars.foldl (formStep store) ⟨tname, tvalue, false, message⟩ =
      ⟨tname ++ String.ofList chars, tvalue, false, message⟩ := by
  induction chars generalizing tname with
  | nil => rw [List.foldl_nil, String.ofList_nil, String.append_empty]
  | cons c rest ih =>
      rw [List.foldl_cons, formStep_of_ne store _ (h c List.mem_cons_self)]
      simp only [Bool.false_eq_true, if_false]
      rw [ih fun other hother => h other (List.mem_cons_of_mem c hother), push_append]

theorem foldl_formStep_value (store : String → String → μ → μ) {chars : List Char}
    (h : ∀ c ∈ chars, c ≠ '&' ∧ c ≠ '=' ∧ c ≠ ' ') (tname tvalue : String) (message : μ) :
    chars.foldl (formStep store) ⟨tname, tvalue, true, message⟩ =
      ⟨tname, tvalue ++ String.ofList chars, true, message⟩ := by
  induction chars generalizing tvalue with
  | nil => rw [List.foldl_nil, String.ofList_nil, String.append_empty]
  | cons c rest ih =>
      rw [List.foldl_cons, formStep_of_ne store _ (h c List.mem_cons_self)]
      simp only [if_true]
      rw [ih fun other hother => h other (List.mem_cons_of_mem c hother), push_append]

/-- One field fills name and value. -/
theorem foldl_formStep_field (store : String → String → μ → μ) {field : String × String}
    (hname : NonReserved field.1) (hvalue : NonReserved field.2) (message : μ) :
    (formField field).toList.foldl (formStep store) ⟨"", "", false, message⟩ =
      ⟨field.1, field.2, true, message⟩ := by
  rw [formField, String.toList_append, String.toList_append, List.foldl_append,
    List.foldl_append, foldl_formStep_name store hname, String.ofList_toList, String.empty_append]
  change List.foldl (formStep store) ⟨field.1, "", true, message⟩ _ = _
  rw [foldl_formStep_value store hvalue, String.ofList_toList, String.empty_append]

/-- The fields before the last one are stored one by one. -/
theorem formAppend_fields (store storeLast : String → String → μ → μ)
    {front : List (String × String)} {last : String × String}
    (h : ∀ field ∈ front ++ [last], NonReserved field.1 ∧ NonReserved field.2) (message : μ) :
    formAppend store storeLast
        (String.intercalate "&" ((front ++ [last]).map formField)) message =
      storeLast last.1 last.2
        (front.foldl (fun stored field => store field.1 field.2 stored) message) := by
  induction front generalizing message with
  | nil =>
      obtain ⟨hname, hvalue⟩ := h last List.mem_cons_self
      rw [List.nil_append, List.map_singleton, String.intercalate_singleton, formAppend,
        foldl_formStep_field store hname hvalue]
      rfl
  | cons field rest ih =>
      obtain ⟨hname, hvalue⟩ := h field List.mem_cons_self
      have hrest := ih (fun other hother => h other (List.mem_cons_of_mem field hother))
        (store field.1 field.2 message)
      rw [List.foldl_cons, ← hrest, List.cons_append, List.map_cons,
        String.intercalate_cons_of_ne_nil (by simp), formAppend, formAppend,
        String.toList_append, String.toList_append, List.foldl_append, List.foldl_append,
        foldl_formStep_field store hname hvalue]
      rfl

end Form

namespace MstringList

/-- The comparison with a type that no list has sends scalars down the path of lists. -/
def htmlEncode (name : String) : MstringList → String
  | mstring value => name ++ "=\x7b" ++ value ++ "\x7d"
  | mstringList items => name ++ "=\x7b" ++ String.intercalate "," items ++ "\x7d"

/-- What stands between the braces. -/
def joined : MstringList → String
  | mstring value => value
  | mstringList items => String.intercalate "," items

end MstringList

namespace MMessage

def htmlPostEncode (message : MMessage) : String :=
  match message.fields.find? "body" with
  | some list => list.getString
  | none =>
      String.intercalate "&" (message.fields.entries.map fun entry => entry.2.htmlEncode entry.1)

def storeField (tname tvalue : String) (message : MMessage) : MMessage :=
  if tname = "type" then { message with mtype := tvalue }
  else if tname = "subtype" then { message with msubtype := tvalue }
  else { message with fields := message.fields.insert tname (.mstring tvalue) }

def storeLast (tname tvalue : String) (message : MMessage) : MMessage :=
  if tname = "type" then { message with mtype := tvalue }
  else if tname = "subtype" then { message with msubtype := tvalue }
  else if tname ≠ "" ∧ tvalue ≠ "" then
    { message with fields := message.fields.insert tname (.mstring tvalue) }
  else message

def htmlAppend (text : String) (message : MMessage) : MMessage :=
  formAppend storeField storeLast text { message with msubtype := "*" }

end MMessage

namespace Message

def blank : Message := ⟨"*", 0, SortedMap.empty⟩

def htmlPostEncode (message : Message) : String :=
  match message.fields.find? "body" with
  | some body => body
  | none => String.intercalate "&" (message.fields.entries.map formField)

def storeField (tname tvalue : String) (message : Message) : Message :=
  if tname = "type" then { message with mtype := tvalue }
  else { message with fields := message.fields.insert tname tvalue }

def storeLast (tname tvalue : String) (message : Message) : Message :=
  if tname = "type" then { message with mtype := tvalue }
  else if tname ≠ "" ∧ tvalue ≠ "" then
    { message with fields := message.fields.insert tname tvalue }
  else message

def htmlAppend (text : String) (message : Message) : Message :=
  formAppend storeField storeLast text message

end Message

/-- A name of a field that neither the writers nor the readers treat apart. -/
def FieldName (name : String) : Prop :=
  name ≠ "type" ∧ name ≠ "subtype" ∧ name ≠ "body" ∧ NonReserved name

instance (name : String) : Decidable (FieldName name) :=
  inferInstanceAs (Decidable (name ≠ "type" ∧ name ≠ "subtype" ∧ name ≠ "body" ∧
    NonReserved name))

namespace MstringList

/-- The value that the form holds for the list. -/
def braced (list : MstringList) : String := "\x7b" ++ list.joined ++ "\x7d"

theorem htmlEncode_eq (name : String) (list : MstringList) :
    list.htmlEncode name = formField (name, list.braced) := by
  have hbrace : ("=\x7b" : String) = "=" ++ "\x7b" := rfl
  cases list <;> simp only [htmlEncode, formField, braced, joined, hbrace, String.append_assoc]

/-- No value comes back as it was. -/
theorem mstring_braced_ne (list : MstringList) : mstring list.braced ≠ list := by
  cases list with
  | mstring value =>
      intro heq
      have hlength := congrArg String.length (MstringList.mstring.inj heq)
      simp only [braced, joined, String.length_append] at hlength
      have hone : ("\x7b" : String).length = 1 := rfl
      omega
  | mstringList items => exact MstringList.noConfusion

end MstringList

theorem NonReserved.append {left right : String} (hleft : NonReserved left)
    (hright : NonReserved right) : NonReserved (left ++ right) := by
  intro c hc
  rw [String.toList_append] at hc
  exact (List.mem_append.mp hc).elim (hleft c) (hright c)

theorem NonReserved.intercalate {items : List String} (h : ∀ item ∈ items, NonReserved item) :
    NonReserved (String.intercalate "," items) := by
  induction items with
  | nil => exact fun c hc => absurd hc List.not_mem_nil
  | cons item rest ih =>
      have hitem := h item List.mem_cons_self
      have hrest := ih fun other hother => h other (List.mem_cons_of_mem item hother)
      rcases List.eq_nil_or_concat' rest with rfl | ⟨front, last, rfl⟩
      · rw [String.intercalate_singleton]
        exact hitem
      · have hcomma : NonReserved "," := by decide
        rw [String.intercalate_cons_of_ne_nil (by simp)]
        exact (hitem.append hcomma).append hrest

theorem nonReserved_braced {list : MstringList} (h : ∀ text ∈ list.texts, NonReserved text) :
    NonReserved list.braced := by
  have hopen : NonReserved "\x7b" := by decide
  have hclose : NonReserved "\x7d" := by decide
  have hjoined : NonReserved list.joined := by
    cases list with
    | mstring value => exact h value List.mem_cons_self
    | mstringList items => exact NonReserved.intercalate h
  exact (hopen.append hjoined).append hclose

namespace MMessage

def FormFields (message : MMessage) : Prop :=
  ∀ entry ∈ message.fields.entries,
    FieldName entry.1 ∧ ∀ text ∈ entry.2.texts, NonReserved text

instance (message : MMessage) : Decidable message.FormFields :=
  inferInstanceAs (Decidable (∀ entry ∈ message.fields.entries,
    FieldName entry.1 ∧ ∀ text ∈ entry.2.texts, NonReserved text))

/-- A fresh message that reads the form has the fields. -/
def FormRestored (message : MMessage) : Prop :=
  (blank.htmlAppend message.htmlPostEncode).fields = message.fields

end MMessage

namespace Message

def FormFields (message : Message) : Prop :=
  ∀ entry ∈ message.fields.entries, FieldName entry.1 ∧ NonReserved entry.2

instance (message : Message) : Decidable message.FormFields :=
  inferInstanceAs (Decidable (∀ entry ∈ message.fields.entries,
    FieldName entry.1 ∧ NonReserved entry.2))

def FormRestored (message : Message) : Prop :=
  (blank.htmlAppend message.htmlPostEncode).fields = message.fields

/-- The last field has a name and a value. -/
def LastNonempty (message : Message) : Prop :=
  ∀ last ∈ message.fields.entries.getLast?, last.1 ≠ "" ∧ last.2 ≠ ""

end Message

/-! ## The round trip -/

namespace Message

theorem fields_foldl_storeField {front : List (String × String)}
    (h : ∀ field ∈ front, FieldName field.1) (message : Message) :
    (front.foldl (fun stored field => storeField field.1 field.2 stored) message).fields =
      front.foldl (fun built field => built.insert field.1 field.2) message.fields := by
  induction front generalizing message with
  | nil => rfl
  | cons field rest ih =>
      have hfield := h field List.mem_cons_self
      rw [List.foldl_cons, ih (fun other hother => h other (List.mem_cons_of_mem field hother)),
        storeField, if_neg hfield.1, List.foldl_cons]

/-- All fields but the last are stored, and the last when it has a name and a value. -/
theorem entries_htmlAppend {message : Message} (h : message.FormFields)
    {front : List (String × String)} {last : String × String}
    (hentries : message.fields.entries = front ++ [last]) :
    (blank.htmlAppend message.htmlPostEncode).fields.entries =
      if last.1 ≠ "" ∧ last.2 ≠ "" then front ++ [last] else front := by
  have hbody : message.fields.find? "body" = none :=
    SortedMap.find?_eq_none fun entry hentry => (h entry hentry).1.2.2.1
  have hsorted := message.fields.sorted
  rw [FormFields, hentries] at h
  rw [hentries] at hsorted
  have hstored := fields_foldl_storeField
    (fun field hfield => (h field (List.mem_append_left _ hfield)).1) blank
  have hfront := SortedMap.entries_foldl_insert front (SortedMap.empty)
    (hsorted.sublist (List.sublist_append_left front [last]))
  rw [SortedMap.empty, List.nil_append] at hfront
  rw [htmlPostEncode, hbody, hentries, htmlAppend, formAppend_fields storeField storeLast
    (fun field hfield => ⟨(h field hfield).1.2.2.2, (h field hfield).2⟩), storeLast,
    if_neg (h last (List.mem_append_right _ List.mem_cons_self)).1.1]
  split
  · simp only [hstored]
    rw [SortedMap.entries_insert_last]
    · exact congrArg (· ++ [last]) hfront
    · exact hfront.symm ▸ hsorted
  · rw [hstored]
    exact hfront

theorem formRestored_iff {message : Message} (h : message.FormFields) :
    message.FormRestored ↔ message.LastNonempty := by
  rcases List.eq_nil_or_concat' message.fields.entries with hnil | ⟨front, last, hentries⟩
  · have hempty : message.fields = SortedMap.empty := SortedMap.eq_of_entries hnil
    refine iff_of_true ?_ ?_
    · rw [FormRestored, htmlPostEncode, hempty]
      rfl
    · rw [LastNonempty, hnil]
      exact fun last hlast => absurd hlast (Option.not_mem_none last)
  · have hread := entries_htmlAppend h hentries
    have hlast : message.LastNonempty ↔ last.1 ≠ "" ∧ last.2 ≠ "" := by
      simp only [LastNonempty, hentries, List.getLast?_concat, Option.mem_def, Option.some.injEq,
        forall_eq']
    rw [hlast, FormRestored]
    constructor
    · intro hrestored
      by_contra hshort
      rw [hrestored, hentries, if_neg hshort] at hread
      simpa using congrArg List.length hread
    · intro hfull
      refine SortedMap.eq_of_entries ?_
      rw [hread, if_pos hfull, hentries]

end Message

namespace MMessage

/-- An entry as the reader of the form stores it. -/
def bracedEntry (entry : String × MstringList) : String × MstringList :=
  (entry.1, .mstring entry.2.braced)

theorem fields_foldl_storeField {front : List (String × MstringList)}
    (h : ∀ entry ∈ front, FieldName entry.1) (message : MMessage) :
    ((front.map fun entry => (entry.1, entry.2.braced)).foldl
        (fun stored field => storeField field.1 field.2 stored) message).fields =
      (front.map bracedEntry).foldl (fun built entry => built.insert entry.1 entry.2)
        message.fields := by
  induction front generalizing message with
  | nil => rfl
  | cons entry rest ih =>
      have hentry := h entry List.mem_cons_self
      rw [List.map_cons, List.foldl_cons,
        ih (fun other hother => h other (List.mem_cons_of_mem entry hother)), storeField,
        if_neg hentry.1, if_neg hentry.2.1, List.map_cons, List.foldl_cons]
      rfl

/-- Every field that comes back is a text in braces. -/
theorem entries_htmlAppend {message : MMessage} (h : message.FormFields)
    {front : List (String × MstringList)} {last : String × MstringList}
    (hentries : message.fields.entries = front ++ [last]) :
    (blank.htmlAppend message.htmlPostEncode).fields.entries =
      if last.1 ≠ "" then (front ++ [last]).map bracedEntry else front.map bracedEntry := by
  have hbody : message.fields.find? "body" = none :=
    SortedMap.find?_eq_none fun entry hentry => (h entry hentry).1.2.2.1
  have hsorted : ((front ++ [last]).map bracedEntry).Pairwise fun left right =>
      left.1 < right.1 :=
    List.pairwise_map.mpr (hentries ▸ message.fields.sorted)
  rw [FormFields, hentries] at h
  have hlast := (h last (List.mem_append_right _ List.mem_cons_self)).1
  have hbraced : last.2.braced ≠ "" := by
    refine ne_of_apply_ne String.length ?_
    rw [MstringList.braced, String.length_append, String.length_append]
    exact Nat.succ_ne_zero _
  have htext : (front ++ [last]).map (fun entry => entry.2.htmlEncode entry.1) =
      (front.map (fun entry => (entry.1, entry.2.braced)) ++
        [(last.1, last.2.braced)]).map formField := by
    simp only [MstringList.htmlEncode_eq, List.map_append, List.map_map, List.map_singleton,
      Function.comp_def]
  have hreserved : ∀ field ∈ front.map (fun entry => (entry.1, entry.2.braced)) ++
      [(last.1, last.2.braced)], NonReserved field.1 ∧ NonReserved field.2 := by
    intro field hfield
    rw [← List.map_singleton (f := fun entry : String × MstringList =>
      (entry.1, entry.2.braced)), ← List.map_append] at hfield
    obtain ⟨entry, hentry, rfl⟩ := List.mem_map.mp hfield
    exact ⟨(h entry hentry).1.2.2.2, nonReserved_braced (h entry hentry).2⟩
  have hstored := fields_foldl_storeField
    (fun entry hentry => (h entry (List.mem_append_left _ hentry)).1)
    ({ blank with msubtype := "*" } : MMessage)
  have hfront := SortedMap.entries_foldl_insert (front.map bracedEntry) (SortedMap.empty)
    (hsorted.sublist (List.Sublist.map _ (List.sublist_append_left front [last])))
  rw [SortedMap.empty, List.nil_append] at hfront
  rw [htmlPostEncode, hbody, hentries, htext, htmlAppend,
    formAppend_fields storeField storeLast hreserved, storeLast, if_neg hlast.1,
    if_neg hlast.2.1]
  simp only [hbraced, ne_eq, not_false_eq_true, and_true]
  split
  · simp only [hstored]
    rw [List.map_append, List.map_singleton] at hsorted ⊢
    have hinsert : (SortedMap.insert _ (bracedEntry last).1 (bracedEntry last).2).entries = _ :=
      SortedMap.entries_insert_last (hfront.symm ▸ hsorted)
    exact hinsert.trans (congrArg (· ++ [bracedEntry last]) hfront)
  · rw [hstored]
    exact hfront

/-- Only a message without fields comes back. -/
theorem formRestored_iff {message : MMessage} (h : message.FormFields) :
    message.FormRestored ↔ message.fields = SortedMap.empty := by
  constructor
  · intro hrestored
    rcases List.eq_nil_or_concat' message.fields.entries with hnil | ⟨front, last, hentries⟩
    · exact SortedMap.eq_of_entries hnil
    · have hread := entries_htmlAppend h hentries
      rw [hrestored, hentries] at hread
      split at hread
      · rw [List.map_append, List.map_singleton] at hread
        have hlast := List.singleton_inj.mp (List.append_inj_right' hread rfl)
        exact absurd (congrArg Prod.snd hlast).symm (MstringList.mstring_braced_ne last.2)
      · simpa using congrArg List.length hread
  · intro hempty
    rw [FormRestored, htmlPostEncode, hempty]
    rfl

end MMessage

/-- The round trip of both classes. -/
theorem formRestored_both_iff {message : MMessage} {older : Message}
    (hmessage : message.FormFields) (holder : older.FormFields) :
    (message.FormRestored ↔ message.fields = SortedMap.empty) ∧
      (older.FormRestored ↔ older.LastNonempty) :=
  ⟨MMessage.formRestored_iff hmessage, Message.formRestored_iff holder⟩

def lampForm : MMessage :=
  ⟨"*", "*", 0, SortedMap.empty.insert "name" (.mstring "lamp")⟩

/-- Two fields, the last of them without a value. -/
def noteForm : Message :=
  ⟨"*", 0, (SortedMap.empty.insert "name" "lamp").insert "note" ""⟩

/-- A scalar comes back in braces, and the empty value at the end is lost. -/
theorem not_formRestored_lamp_note :
    (lampForm.FormFields ∧ ¬ lampForm.FormRestored) ∧
      (noteForm.FormFields ∧ ¬ noteForm.FormRestored) := by
  unfold MMessage.FormRestored Message.FormRestored
  decide

theorem formRestored_both_lamp_note :
    (lampForm.FormRestored ↔ lampForm.fields = SortedMap.empty) ∧
      (noteForm.FormRestored ↔ noteForm.LastNonempty) :=
  formRestored_both_iff (by decide) (by decide)

end Hat
