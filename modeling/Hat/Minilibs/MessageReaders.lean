import Hat.Minilibs.AgentInfo

/-!
# The readers of messages

Three copies of one loop read a message document: from the text, from the parsed node, and
onto the fields that are there already.  They differ in the node that the list decoder is
given, in how type and subtype are set and in the type attributes they accept.
-/

namespace Hat

/-- A field of a document; `xmlEncode` writes the first two kinds, `xmlPrint` the third. -/
inductive FieldText
  | scalar (value : String)
  | list (items : List String)
  | untyped (value : String)
  deriving DecidableEq

/-- A message document, with the declaration in front of it or without. -/
structure MessageDocument where
  declared : Bool
  mtype : String
  msubtype : String
  fields : SortedMap String FieldText

namespace FieldText

def node (name : String) : FieldText → XmlNode
  | scalar value => .element [("name", name), ("type", "Mstring"), ("value", value)] []
  | list items =>
      .element [("name", name), ("type", "MstringList")]
        (items.map fun item => .element [("value", item)] [])
  | untyped value => .element [("name", name), ("value", value)] []

end FieldText

namespace MessageDocument

def node (document : MessageDocument) : XmlNode :=
  .element [("type", document.mtype), ("subtype", document.msubtype)]
    (document.fields.entries.map fun entry => entry.2.node entry.1)

/-- What the XML reader delivers for the text of a document. -/
def nodes (document : MessageDocument) : List XmlNode :=
  (if document.declared then [.other] else []) ++ [document.node]

end MessageDocument

namespace MstringList

/-- The list decoder, on the node that it is given. -/
def xmlDecode (desc : Option XmlNode) : List String :=
  match desc with
  | some desc => XmlNode.items desc.children
  | none => []

def encoded : MstringList → FieldText
  | mstring value => .scalar value
  | mstringList items => .list items

end MstringList

namespace MMessage

def xmlPrint (md : ℕ) (message : MMessage) : String :=
  (if md > 0 then "<?xml version=\"1.0\" ?>\n" else "") ++
    "<message type=\"" ++ message.mtype ++ "\" subtype=\"" ++ message.msubtype ++ "\">\n" ++
    String.join (message.fields.entries.map fun entry =>
      "<field name=\"" ++ entry.1 ++ "\" value=\"" ++ entry.2.getString ++ "\"/>\n") ++
    "</message>\n"

/-- The document that `xmlEncode` writes. -/
def encoded (md : ℕ) (message : MMessage) : MessageDocument :=
  ⟨decide (md > 0), message.mtype, message.msubtype,
    message.fields.filterMapValues fun list => some list.encoded⟩

/-- The document that `xmlPrint` writes. -/
def printed (md : ℕ) (message : MMessage) : MessageDocument :=
  ⟨decide (md > 0), message.mtype, message.msubtype,
    message.fields.filterMapValues fun list => some (.untyped list.getString)⟩

def decodeNodeField (fields : SortedMap String MstringList) (node : XmlNode) :
    SortedMap String MstringList :=
  let ndtype := node.getAttrbyName "type"
  let name := node.getAttrbyName "name"
  if ndtype = "Mstring" then fields.insert name (.mstring (node.getAttrbyName "value"))
  else if ndtype = "MstringList" then
    fields.insert name (.mstringList (MstringList.xmlDecode node.children.head?))
  else fields

/-- The reader of a parsed node. -/
def xmlDecodeNode (desc : XmlNode) (message : MMessage) : MMessage :=
  let subtype := desc.getAttrbyName "subtype"
  ⟨subtype, subtype, message.priority, desc.children.foldl decodeNodeField SortedMap.empty⟩

def appendField (fields : SortedMap String MstringList) (node : XmlNode) :
    SortedMap String MstringList :=
  let ndtype := node.getAttrbyName "type"
  let name := node.getAttrbyName "name"
  if ndtype = "Mstring" ∨ ndtype = "*" then
    fields.insert name (.mstring (node.getAttrbyName "value"))
  else if ndtype = "MstringList" then
    fields.insert name (.mstringList (MstringList.xmlDecode node.children.head?))
  else fields

def xmlAppend (parse : String → List XmlNode) (text : String) (message : MMessage) :
    Option MMessage :=
  match parse text with
  | [] => none
  | [_] => some message
  | _ :: desc :: _ =>
      some ⟨desc.getAttrbyName "type", desc.getAttrbyName "subtype", message.priority,
        desc.children.foldl appendField message.fields⟩

end MMessage

namespace FieldText

def decoded : FieldText → Option MstringList
  | scalar value => some (.mstring value)
  | list items => some (.mstringList items)
  | untyped _ => none

/-- The list decoder is given the first item, which has no items of its own. -/
def decodedNode : FieldText → Option MstringList
  | scalar value => some (.mstring value)
  | list _ => some (.mstringList [])
  | untyped _ => none

def appended : FieldText → Option MstringList
  | scalar value => some (.mstring value)
  | list _ => some (.mstringList [])
  | untyped value => some (.mstring value)

/-- The loops agree on scalars and on empty lists. -/
def Plain : FieldText → Prop
  | scalar _ => True
  | list items => items = []
  | untyped _ => False

end FieldText

namespace XmlNode

/-- The items of a list field are read back. -/
theorem items_map (values : List String) :
    items (values.map fun item => element [("value", item)] []) = values := by
  induction values with
  | nil => rfl
  | cons value rest ih =>
      rw [List.map_cons, items, ih]
      rfl

end XmlNode

namespace MMessage

theorem decodeField_node (fields : SortedMap String MstringList) (name : String)
    (field : FieldText) :
    decodeField fields (field.node name) = match field.decoded with
      | some list => fields.insert name list
      | none => fields := by
  cases field with
  | scalar value => rfl
  | list items =>
      have hread : XmlNode.items (FieldText.node name (.list items)).children = items :=
        XmlNode.items_map items
      change fields.insert name (.mstringList _) = fields.insert name (.mstringList _)
      rw [hread]
  | untyped value => rfl

/-- The first item of a list has no children. -/
theorem xmlDecode_firstItem (items : List String) :
    MstringList.xmlDecode
      (items.map fun item => XmlNode.element [("value", item)] []).head? = [] := by
  cases items <;> rfl

theorem decodeNodeField_node (fields : SortedMap String MstringList) (name : String)
    (field : FieldText) :
    decodeNodeField fields (field.node name) = match field.decodedNode with
      | some list => fields.insert name list
      | none => fields := by
  cases field with
  | scalar value => rfl
  | list items =>
      change fields.insert name (.mstringList (MstringList.xmlDecode _)) = _
      rw [FieldText.node, XmlNode.children, xmlDecode_firstItem]
      rfl
  | untyped value => rfl

theorem appendField_node (fields : SortedMap String MstringList) (name : String)
    (field : FieldText) :
    appendField fields (field.node name) = match field.appended with
      | some list => fields.insert name list
      | none => fields := by
  cases field with
  | scalar value => rfl
  | list items =>
      change fields.insert name (.mstringList (MstringList.xmlDecode _)) = _
      rw [FieldText.node, XmlNode.children, xmlDecode_firstItem]
      rfl
  | untyped value => rfl

end MMessage

namespace MessageDocument

/-- A loop over the fields of a document, from what it makes of one field. -/
theorem foldl_children {read : FieldText → Option MstringList}
    {step : SortedMap String MstringList → XmlNode → SortedMap String MstringList}
    (hstep : ∀ fields name field, step fields (field.node name) = match read field with
      | some list => fields.insert name list
      | none => fields) (document : MessageDocument) :
    document.node.children.foldl step SortedMap.empty = document.fields.filterMapValues read := by
  rw [node, XmlNode.children, List.foldl_map, ← SortedMap.foldl_filterMapValues]
  congr 1
  funext fields entry
  rw [hstep]
  cases read entry.2 <;> rfl

section Readers

variable {parse : String → List XmlNode} {text : String} {document : MessageDocument}

/-- Without a declaration in front the element is taken for it, and nothing is read. -/
theorem xmlDecode_text (hread : parse text = document.nodes) (message : MMessage) :
    message.xmlDecode parse text = some (if document.declared then
      ⟨document.msubtype, document.msubtype, message.priority,
        document.fields.filterMapValues FieldText.decoded⟩ else message) := by
  rw [MMessage.xmlDecode, hread, nodes]
  cases document.declared with
  | false => rfl
  | true =>
      change some (MMessage.mk _ _ _ (document.node.children.foldl _ _)) = _
      rw [foldl_children MMessage.decodeField_node]
      rfl

theorem xmlDecodeNode_node (document : MessageDocument) (message : MMessage) :
    message.xmlDecodeNode document.node = ⟨document.msubtype, document.msubtype,
      message.priority, document.fields.filterMapValues FieldText.decodedNode⟩ := by
  rw [MMessage.xmlDecodeNode, foldl_children MMessage.decodeNodeField_node]
  rfl

theorem xmlAppend_text (hread : parse text = document.nodes) {message : MMessage}
    (hempty : message.fields = SortedMap.empty) :
    message.xmlAppend parse text = some (if document.declared then
      ⟨document.mtype, document.msubtype, message.priority,
        document.fields.filterMapValues FieldText.appended⟩ else message) := by
  rw [MMessage.xmlAppend, hread, nodes]
  cases document.declared with
  | false => rfl
  | true =>
      change some (MMessage.mk _ _ _ (document.node.children.foldl _ _)) = _
      rw [hempty, foldl_children MMessage.appendField_node]
      rfl

end Readers

end MessageDocument

namespace MMessage

/-- The encoder and the decoder of a field are inverse. -/
theorem decoded_encoded (list : MstringList) : list.encoded.decoded = some list := by
  cases list <;> rfl

theorem filterMapValues_encoded (md : ℕ) (message : MMessage) :
    (message.encoded md).fields.filterMapValues FieldText.decoded = message.fields := by
  refine SortedMap.eq_of_find? fun key => ?_
  rw [encoded, SortedMap.find?_filterMapValues, SortedMap.find?_filterMapValues]
  cases message.fields.find? key with
  | none => rfl
  | some list => exact decoded_encoded list

theorem node_encoded (md : ℕ) (message : MMessage) : (message.encoded md).node = message.node := by
  have hentries : (message.encoded md).fields.entries =
      message.fields.entries.map fun entry => (entry.1, entry.2.encoded) :=
    congrFun List.filterMap_eq_map' _
  rw [MessageDocument.node, node, hentries, List.map_map]
  refine congrArg (XmlNode.element _) (List.map_congr_left ?_)
  rintro ⟨name, list⟩ -
  cases list <;> rfl

/-- Decoded into any message, the text gives the type, the subtype and the fields. -/
def Restored (parse : String → List XmlNode) (text : String) (message : MMessage) : Prop :=
  ∀ into : MMessage, ∃ read, into.xmlDecode parse text = some read ∧
    read.mtype = message.mtype ∧ read.msubtype = message.msubtype ∧ read.fields = message.fields

/-- The message is restored exactly when its type is its subtype: the decoder assigns the
subtype to both. -/
theorem restored_iff {parse : String → List XmlNode} {message : MMessage}
    (hread : parse (message.xmlEncode 1) = [.other, message.node]) :
    Restored parse (message.xmlEncode 1) message ↔ message.mtype = message.msubtype := by
  have hnodes : parse (message.xmlEncode 1) = (message.encoded 1).nodes := by
    rw [hread, MessageDocument.nodes, node_encoded]
    rfl
  have hdecode := MessageDocument.xmlDecode_text hnodes
  rw [filterMapValues_encoded] at hdecode
  constructor
  · intro hrestored
    obtain ⟨read, htext, htype, -⟩ := hrestored blank
    rw [hdecode] at htext
    cases htext
    exact htype.symm
  · intro htype into
    exact ⟨_, hdecode into, htype.symm, rfl, rfl⟩

/-- An event as a device agent sends it. -/
def buttonEvent : MMessage :=
  ⟨"event", "button", 0, SortedMap.empty.insert "name" (.mstring "on_1")⟩

/-- A parser of one text. -/
def readsOnly (text : String) (nodes : List XmlNode) : String → List XmlNode :=
  fun other => if other = text then nodes else []

/-- The event decodes to a message of type `button`. -/
theorem not_restored_buttonEvent :
    ¬ Restored (readsOnly (buttonEvent.xmlEncode 1) [.other, buttonEvent.node])
      (buttonEvent.xmlEncode 1) buttonEvent := by
  intro hrestored
  obtain ⟨read, htext, htype, -⟩ := hrestored blank
  simp only [xmlDecode, readsOnly, if_true, Option.some.injEq] at htext
  subst htext
  exact absurd htype (by decide)

/-- A message with a scalar and a list whose type is its subtype. -/
def statusList : MMessage :=
  ⟨"status", "status", 0,
    (SortedMap.empty.insert "name" (.mstring "on_1")).insert "values" (.mstringList ["0", "1"])⟩

theorem restored_statusList :
    Restored (readsOnly (statusList.xmlEncode 1) [.other, statusList.node])
      (statusList.xmlEncode 1) statusList :=
  (restored_iff (if_pos rfl)).mpr rfl

end MMessage

/-! ## The three readers -/

namespace MessageDocument

/-- The three readers make the same of a document, each onto a fresh message. -/
def ReadersAgree (parse : String → List XmlNode) (text : String)
    (document : MessageDocument) : Prop :=
  MMessage.blank.xmlDecode parse text = some (MMessage.blank.xmlDecodeNode document.node) ∧
    MMessage.blank.xmlAppend parse text = some (MMessage.blank.xmlDecodeNode document.node)

/-- All fields are scalars or empty lists. -/
def Plain (document : MessageDocument) : Prop :=
  ∀ entry ∈ document.fields.entries, entry.2.Plain

/-- No field has a type that the readers of texts and nodes know. -/
def Untyped (document : MessageDocument) : Prop :=
  ∀ entry ∈ document.fields.entries, entry.2.decoded = none

/-- With a declaration the readers agree on plain documents whose type is their subtype;
without one the readers of texts find nothing, and so must the reader of nodes. -/
def Agreed (document : MessageDocument) : Prop :=
  if document.declared then document.mtype = document.msubtype ∧ document.Plain
  else document.msubtype = "*" ∧ document.Untyped

end MessageDocument

namespace FieldText

theorem plain_iff (field : FieldText) :
    field.Plain ↔ field.decoded = field.decodedNode ∧ field.appended = field.decodedNode := by
  cases field with
  | scalar value => simp [Plain, decoded, decodedNode, appended]
  | list items => simp [Plain, decoded, decodedNode, appended]
  | untyped value => simp [Plain, decodedNode, appended]

theorem decodedNode_eq_none_iff (field : FieldText) :
    field.decodedNode = none ↔ field.decoded = none := by
  cases field <;> simp [decodedNode, decoded]

end FieldText

namespace MessageDocument

theorem plain_iff (document : MessageDocument) :
    document.Plain ↔
      document.fields.filterMapValues FieldText.decoded =
          document.fields.filterMapValues FieldText.decodedNode ∧
        document.fields.filterMapValues FieldText.appended =
          document.fields.filterMapValues FieldText.decodedNode := by
  simp only [Plain, SortedMap.filterMapValues_eq_iff, FieldText.plain_iff]
  exact ⟨fun h => ⟨fun entry hentry => (h entry hentry).1, fun entry hentry => (h entry hentry).2⟩,
    fun h entry hentry => ⟨h.1 entry hentry, h.2 entry hentry⟩⟩

theorem untyped_iff (document : MessageDocument) :
    document.Untyped ↔
      document.fields.filterMapValues FieldText.decodedNode = SortedMap.empty := by
  have hnone : (SortedMap.empty : SortedMap String MstringList) =
      document.fields.filterMapValues fun _ => none := by
    refine SortedMap.eq_of_find? fun key => ?_
    rw [SortedMap.find?_filterMapValues, SortedMap.find?_empty, Option.bind_fun_none]
  rw [hnone, SortedMap.filterMapValues_eq_iff, Untyped]
  simp only [FieldText.decodedNode_eq_none_iff]

/-- What `xmlEncode` writes is read alike when type and subtype are the same and there is
nothing in the lists. -/
theorem agreed_encoded_iff {md : ℕ} (hmd : 0 < md) (message : MMessage) :
    (message.encoded md).Agreed ↔ message.mtype = message.msubtype ∧
      ∀ field items, message.fields.find? field = some (.mstringList items) → items = [] := by
  have hdeclared : (message.encoded md).declared = true := decide_eq_true hmd
  rw [Agreed, if_pos hdeclared]
  refine and_congr_right fun _ => ?_
  constructor
  · intro hplain field items hfind
    refine hplain (field, .list items) ((SortedMap.mem_entries_iff _ _ _).mpr ?_)
    rw [MMessage.encoded, SortedMap.find?_filterMapValues, hfind]
    rfl
  · rintro hlists ⟨field, text⟩ hentry
    have hfind := (SortedMap.mem_entries_iff _ _ _).mp hentry
    rw [MMessage.encoded, SortedMap.find?_filterMapValues] at hfind
    obtain ⟨list, hlist, himage⟩ := Option.bind_eq_some_iff.mp hfind
    cases himage
    cases list with
    | mstring value => trivial
    | mstringList items => exact hlists field items hlist

/-- What `xmlPrint` writes is read alike only when it has no fields. -/
theorem agreed_printed_iff {md : ℕ} (hmd : 0 < md) (message : MMessage) :
    (message.printed md).Agreed ↔
      message.mtype = message.msubtype ∧ message.fields = SortedMap.empty := by
  have hdeclared : (message.printed md).declared = true := decide_eq_true hmd
  rw [Agreed, if_pos hdeclared]
  refine and_congr_right fun _ => ?_
  constructor
  · intro hplain
    refine SortedMap.eq_of_find? fun field => ?_
    cases hfind : message.fields.find? field with
    | none => rfl
    | some list =>
        refine (hplain (field, .untyped list.getString)
          ((SortedMap.mem_entries_iff _ _ _).mpr ?_)).elim
        rw [MMessage.printed, SortedMap.find?_filterMapValues, hfind]
        rfl
  · rintro hempty ⟨field, text⟩ hentry
    have hfind := (SortedMap.mem_entries_iff _ _ _).mp hentry
    rw [MMessage.printed, SortedMap.find?_filterMapValues, hempty] at hfind
    cases hfind

theorem readersAgree_iff {parse : String → List XmlNode} {text : String}
    {document : MessageDocument} (hread : parse text = document.nodes) :
    document.ReadersAgree parse text ↔ document.Agreed := by
  rw [ReadersAgree, xmlDecode_text hread, xmlAppend_text hread rfl, xmlDecodeNode_node, Agreed]
  cases document.declared with
  | true =>
      rw [plain_iff]
      simp only [if_true, Option.some.injEq, MMessage.mk.injEq, true_and]
      tauto
  | false =>
      rw [untyped_iff]
      simp only [Bool.false_eq_true, if_false, Option.some.injEq, and_self, MMessage.blank,
        MMessage.mk2, MMessage.mk.injEq, true_and, and_self_left, eq_comm]

/-- A message that consists of a scalar. -/
def statusScalar : MMessage :=
  ⟨"status", "status", 0, SortedMap.empty.insert "name" (.mstring "on_1")⟩

/-- A list comes out of the text only, a field that `xmlPrint` writes out of `xmlAppend`
only. -/
theorem not_readersAgree_statusList :
    ¬ ReadersAgree (MMessage.readsOnly (MMessage.statusList.xmlEncode 1)
        (MMessage.statusList.encoded 1).nodes)
      (MMessage.statusList.xmlEncode 1) (MMessage.statusList.encoded 1) ∧
    ¬ ReadersAgree (MMessage.readsOnly (statusScalar.xmlPrint 1) (statusScalar.printed 1).nodes)
      (statusScalar.xmlPrint 1) (statusScalar.printed 1) := by
  simp only [ReadersAgree, MMessage.xmlDecode, MMessage.xmlAppend, MMessage.readsOnly, if_true]
  decide

/-- Two scalars and a list without items. -/
def statusMixed : MMessage :=
  ⟨"status", "status", 0, ((SortedMap.empty.insert "name" (.mstring "on_1")).insert "value"
    (.mstring "")).insert "zones" (.mstringList [])⟩

theorem readersAgree_statusMixed :
    ReadersAgree (MMessage.readsOnly (statusMixed.xmlEncode 1) (statusMixed.encoded 1).nodes)
      (statusMixed.xmlEncode 1) (statusMixed.encoded 1) := by
  refine (readersAgree_iff (if_pos rfl)).mpr ⟨rfl, ?_⟩
  intro entry hentry
  have hfields : (statusMixed.encoded 1).fields.entries =
      [("name", .scalar "on_1"), ("value", .scalar ""), ("zones", .list [])] := rfl
  rw [hfields] at hentry
  simp only [List.mem_cons, List.not_mem_nil, or_false] at hentry
  rcases hentry with rfl | rfl | rfl
  · trivial
  · trivial
  · rfl

end MessageDocument

end Hat
