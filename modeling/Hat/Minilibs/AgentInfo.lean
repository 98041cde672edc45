import Hat.Minilibs.MMessage

/-!
# Announcements as text

A message is written as one XML element, with or without a declaration in front of it.
What the XML reader makes of a text is a parameter.  `xmlDecode` takes the second node
of the text for the message, so it finds nothing in a text without a declaration.
-/

namespace Hat

/-- A node that the XML reader delivers; texts, comments and declarations have no
attributes. -/
inductive XmlNode
  | element (attributes : List (String × String)) (children : List XmlNode)
  | other

namespace XmlNode

def getAttrbyName (name : String) : XmlNode → String
  | element attributes _ =>
      ((attributes.find? fun attr => attr.1 = name).map Prod.snd).getD "*"
  | other => "*"

def children : XmlNode → List XmlNode
  | element _ children => children
  | other => []

/-- The items of a list, up to the first node that is no element. -/
def items : List XmlNode → List String
  | element attributes nodes :: rest =>
      (element attributes nodes).getAttrbyName "value" :: items rest
  | _ => []

end XmlNode

namespace MstringList

def xmlEncode (name : String) : MstringList → String
  | mstring value => "<field name=\"" ++ name ++ "\" type=\"Mstring\"  value=\"" ++ value ++ "\"/>"
  | mstringList items =>
      "<field name=\"" ++ name ++ "\" type=\"MstringList\">" ++
        String.join (items.map fun item => "<item value=\"" ++ item ++ "\"/>") ++ "</field>"

end MstringList

namespace MMessage

def blank : MMessage := mk2 "*" "*"

def xmlEncode (md : ℕ) (message : MMessage) : String :=
  (if md > 0 then "<?xml version=\"1.0\" ?>" else "") ++
    "<message type=\"" ++ message.mtype ++ "\" subtype=\"" ++ message.msubtype ++ "\">" ++
    String.join (message.fields.entries.map fun entry => entry.2.xmlEncode entry.1) ++
    "</message>"

/-- The element that a message is written as. -/
def node (message : MMessage) : XmlNode :=
  .element [("type", message.mtype), ("subtype", message.msubtype)]
    (message.fields.entries.map fun entry => match entry.2 with
      | .mstring value =>
          .element [("name", entry.1), ("type", "Mstring"), ("value", value)] []
      | .mstringList items =>
          .element [("name", entry.1), ("type", "MstringList")]
            (items.map fun item => .element [("value", item)] []))

def decodeField (fields : SortedMap String MstringList) (node : XmlNode) :
    SortedMap String MstringList :=
  let ndtype := node.getAttrbyName "type"
  let name := node.getAttrbyName "name"
  if ndtype = "Mstring" then fields.insert name (.mstring (node.getAttrbyName "value"))
  else if ndtype = "MstringList" then
    fields.insert name (.mstringList (XmlNode.items node.children))
  else fields

/-- The subtype is assigned to the type, too.  A text without any node is not defined. -/
def xmlDecode (parse : String → List XmlNode) (text : String) (message : MMessage) :
    Option MMessage :=
  match parse text with
  | [] => none
  | [_] => some message
  | _ :: desc :: _ =>
      let subtype := desc.getAttrbyName "subtype"
      some ⟨subtype, subtype, message.priority, desc.children.foldl decodeField SortedMap.empty⟩

/-- A text added under the name is read back: there is no list that begins with
another one. -/
def Takes (field value : String) (message : MMessage) : Prop :=
  ∀ first rest, message.fields.find? field = some (.mstringList (first :: rest)) → first = value

/-- A list added under the name is read back: there is nothing else under it. -/
def TakesList (field : String) (message : MMessage) : Prop :=
  message.fields.find? field = none ∨ message.fields.find? field = some (.mstringList [])

theorem getString_add_iff (field value : String) (message : MMessage) :
    (message.add field value).getString field = value ↔ message.Takes field value := by
  simp only [getString, find?_add, if_true, Takes]
  cases hfield : message.fields.find? field with
  | none => simp [added, MstringList.getString]
  | some list =>
      cases list with
      | mstring _ => simp [added, MstringList.add, MstringList.getString]
      | mstringList items =>
          cases items with
          | nil => simp [added, MstringList.add, MstringList.getString]
          | cons first rest => simp [added, MstringList.add, MstringList.getString]

theorem getList_addList_iff {field : String} {values : List String} (hvalues : values ≠ [])
    (message : MMessage) :
    (message.addList field values).getList field = values ↔ message.TakesList field := by
  simp only [getList, addList, TakesList]
  cases hfield : message.fields.find? field with
  | none => simp
  | some list =>
      cases list with
      | mstring _ => simpa [hfield] using hvalues.symm
      | mstringList items => simp

theorem getList_addList_of_ne {field other : String} (values : List String)
    (message : MMessage) (hne : field ≠ other) :
    (message.addList field values).getList other = message.getList other := by
  simp only [getList, find?_addList_of_ne values message hne]

theorem takes_add_of_ne {field other : String} (value taken : String) (message : MMessage)
    (hne : field ≠ other) :
    (message.add field value).Takes other taken ↔ message.Takes other taken := by
  simp only [Takes, find?_add_of_ne value message hne]

theorem takesList_add_of_ne {field other : String} (value : String) (message : MMessage)
    (hne : field ≠ other) :
    (message.add field value).TakesList other ↔ message.TakesList other := by
  simp only [TakesList, find?_add_of_ne value message hne]

end MMessage

structure AgentInfo extends MMessage where
  timestamp : ℤ
  xmlformat : String

namespace AgentInfo

def blank : AgentInfo := ⟨MMessage.blank, 0, ""⟩

/-- The constructor from a text. -/
def ofXml (parse : String → List XmlNode) (text : String) : Option AgentInfo :=
  (MMessage.xmlDecode parse text MMessage.blank).map fun message => ⟨message, 0, text⟩

def add (field value : String) (info : AgentInfo) : AgentInfo :=
  { info with toMMessage := info.toMMessage.add field value }

def addList (field : String) (values : List String) (info : AgentInfo) : AgentInfo :=
  { info with toMMessage := info.toMMessage.addList field values }

end AgentInfo

end Hat
