import Hat.Minilibs.IndexPages
import Hat.Minilibs.MMessage
import Hat.Minilibs.NameListInit

/-!
# Messages from the broker

A command comes as a topic, `type/subtype` or `type/subtype/tag` with the domain in front, and
a payload `name=value`.  Both are taken apart at fixed places of their pieces.
-/

namespace Hat

namespace IndexPages

def xmlPage (index : Index) (name : String) : String :=
  match index.find? name with
  | none => "Not Found"
  | some description => xmlItem (name, description)

def jsonPage (index : Index) (name : String) : String :=
  match index.find? name with
  | none => "Not Found"
  | some description => "\x7b\"" ++ name ++ "\":" ++ jsonItem description ++ "\x7d\n"

def getDynamicPage (index : Index) (uri : String) : String :=
  match (NameList.init [] uri '/').getLast? with
  | none => "Forbidden"
  | some last =>
      match NameList.init [] last '.' with
      | stem :: ext :: _ =>
          if stem = "DynamicPage" ∧ ext = "xml" then xmlIndex index
          else if stem = "DynamicPage" ∧ ext = "json" then jsonIndex index
          else if stem ≠ "DynamicPage" ∧ ext = "xml" then xmlPage index stem
          else if stem ≠ "DynamicPage" ∧ ext = "json" then jsonPage index stem
          else "Not Found"
      | _ => "Not Found"

theorem append_ne_empty {front : String} (hfront : front ≠ "") (back : String) :
    front ++ back ≠ "" := by
  intro h
  have hchars := congrArg String.toList h
  rw [String.toList_append] at hchars
  exact hfront (String.toList_eq_nil_iff.mp (List.append_eq_nil_iff.mp hchars).1)

theorem xmlItem_ne_empty (entry : String × String) : xmlItem entry ≠ "" := by
  have hfront : "<item name=\"" ++ entry.1 ≠ "" := append_ne_empty (by decide) entry.1
  rw [xmlItem]
  by_cases hsign : '=' ∉ entry.2.toList
  · rw [if_pos hsign]
    exact append_ne_empty (append_ne_empty (append_ne_empty hfront _) _) _
  · rw [if_neg hsign]
    exact append_ne_empty (append_ne_empty (append_ne_empty hfront _) _) _

theorem xmlPage_ne_empty (index : Index) (name : String) : xmlPage index name ≠ "" := by
  rw [xmlPage]
  cases index.find? name with
  | none => exact (by decide : "Not Found" ≠ "")
  | some description => exact xmlItem_ne_empty (name, description)

theorem jsonPage_ne_empty (index : Index) (name : String) : jsonPage index name ≠ "" := by
  rw [jsonPage]
  cases index.find? name with
  | none => exact (by decide : "Not Found" ≠ "")
  | some description =>
      exact append_ne_empty
        (append_ne_empty (append_ne_empty (append_ne_empty (by decide) _) _) _) _

theorem getDynamicPage_ne_empty (index : Index) (uri : String) :
    getDynamicPage index uri ≠ "" := by
  rw [getDynamicPage]
  split
  · decide
  · split
    · split_ifs
      · exact append_ne_empty (append_ne_empty (by decide) _) _
      · exact append_ne_empty (append_ne_empty (append_ne_empty (by decide) _) _) _
      · exact xmlPage_ne_empty index _
      · exact jsonPage_ne_empty index _
      · decide
    · decide

end IndexPages

structure MqttClient where
  mqttDomain : String
  index : IndexPages.Index

namespace MqttClient

def maxBuf : ℕ := 16000

def isTag (name : String) : Bool :=
  decide (2 < name.toList.length) && name.toList[0]? == some 't' && name.toList[1]? == some '.'

/-- The place of the type: the domain is stepped over. -/
def cmdIndex (client : MqttClient) (names : NameList) : ℕ :=
  if names[0]? = some client.mqttDomain then 1 else 0

/-- The answer to a request for a page; a tag follows `wget`. -/
def wgetAnswer (client : MqttClient) (follower message : String) : MMessage :=
  let pubTopic := if client.mqttDomain ≠ "" then client.mqttDomain ++ "/wgetr" else "wgetr"
  let pubTopic := if isTag follower then pubTopic ++ "/" ++ follower else pubTopic
  ((MMessage.mk2 "mqtt" "mqtt_send").add "topic" pubTopic).add "value"
    (IndexPages.getDynamicPage client.index message)

/-- The tag of a command, if there is a third segment and it looks like one. -/
def readTag (names : NameList) (k : ℕ) : Option String := names[k + 2]?.filter isTag

def tagged (message : MMessage) : Option String → MMessage
  | none => message
  | some tag => message.add "mqtttag" tag

/-- What is notified, unless a segment that is missing is indexed. -/
def sendCmd (client : MqttClient) (topic message : String) : Option (List MMessage) :=
  let names := NameList.init [] topic '/'
  if names.length < 3 then some []
  else
    let k := client.cmdIndex names
    names[k]?.bind fun mtype =>
    if mtype = "wget" then
      (NameList.init [] message '/')[0]?.bind fun page =>
      if page = "DynamicPage" ∨ page = "DynamicPage.xml" ∨ page = "DynamicPage.json" then
        names[k + 1]?.map fun follower => [client.wgetAnswer follower message]
      else some []
    else
      names[k + 1]?.map fun msubtype =>
      let msg := tagged (MMessage.mk2 mtype msubtype) (readTag names k)
      match NameList.init [] message '=' with
      | name :: value :: _ => [msg.add name value]
      | _ => []

/-- The payload is copied up to its first null character into a buffer that it may overrun. -/
def onMessage (client : MqttClient) (topic payload : String) : Option (List MMessage) :=
  let text := payload.toList.takeWhile fun c => c ≠ '\x00'
  if text.length < maxBuf then client.sendCmd topic (String.ofList text) else none

/-- A command as a topic and a payload have it. -/
structure BrokerCommand (domain : String) where
  withDomain : Bool
  mtype : String
  msubtype : String
  tag : Option String
  name : String
  value : String
  domain_ne : withDomain = true → domain ≠ ""
  mtype_noSlash : '/' ∉ mtype.toList
  msubtype_noSlash : '/' ∉ msubtype.toList
  tag_isTag : ∀ t ∈ tag, isTag t = true ∧ '/' ∉ t.toList
  name_ne : name ≠ ""
  name_noSign : '=' ∉ name.toList
  value_ne : value ≠ ""

namespace BrokerCommand

variable {domain : String}

def segments (cmd : BrokerCommand domain) : List String :=
  (if cmd.withDomain then [domain] else []) ++ [cmd.mtype, cmd.msubtype] ++ cmd.tag.toList

def topic (cmd : BrokerCommand domain) : String := NameList.joined cmd.segments '/'

def payload (cmd : BrokerCommand domain) : String := cmd.name ++ "=" ++ cmd.value

/-- The message has the type, the subtype and the fields of the command, and no others. -/
structure Carries (cmd : BrokerCommand domain) (m : MMessage) : Prop where
  mtype : m.mtype = cmd.mtype
  msubtype : m.msubtype = cmd.msubtype
  tag : ∀ t ∈ cmd.tag, m.getString "mqtttag" = t
  value : m.getString cmd.name = cmd.value
  others : ∀ field, field ≠ cmd.name → (field = "mqtttag" → cmd.tag = none) →
    m.getString field = ""

end BrokerCommand

/-- The segments that are read are those of the command, and its value has no equal sign. -/
structure Placed (client : MqttClient) (cmd : BrokerCommand client.mqttDomain) : Prop where
  three : 3 ≤ (NameList.init [] cmd.topic '/').length
  mtype : (NameList.init [] cmd.topic '/')[client.cmdIndex (NameList.init [] cmd.topic '/')]? =
    some cmd.mtype
  ne_wget : cmd.mtype ≠ "wget"
  msubtype :
    (NameList.init [] cmd.topic '/')[client.cmdIndex (NameList.init [] cmd.topic '/') + 1]? =
      some cmd.msubtype
  tag : cmd.name ≠ "mqtttag" →
    readTag (NameList.init [] cmd.topic '/') (client.cmdIndex (NameList.init [] cmd.topic '/')) =
      cmd.tag
  own_tag : cmd.name = "mqtttag" → ∀ t ∈ cmd.tag, t = cmd.value
  sign : '=' ∉ cmd.value.toList

/-- The type is no keyword and the value has no equal sign; a third segment follows the domain, or
type and subtype have a tag and the type is no domain. -/
structure InPlace (client : MqttClient) (cmd : BrokerCommand client.mqttDomain) : Prop where
  ne_wget : cmd.mtype ≠ "wget"
  sign : '=' ∉ cmd.value.toList
  third : cmd.withDomain = true → cmd.msubtype = "" → cmd.tag ≠ none
  plain : cmd.withDomain = false → cmd.tag ≠ none ∧ cmd.mtype ≠ client.mqttDomain

/-- The payload is a text without null characters that the buffer has room for. -/
structure BrokerCommand.Buffered {domain : String} (cmd : BrokerCommand domain) : Prop where
  null : '\x00' ∉ cmd.payload.toList
  short : cmd.payload.toList.length < maxBuf

theorem find?_tagged (mtype msubtype field : String) (tag : Option String) :
    (tagged (MMessage.mk2 mtype msubtype) tag).fields.find? field =
      if field = "mqtttag" then tag.map MstringList.mstring else none := by
  cases tag with
  | none =>
      rw [tagged, Option.map_none, ite_self]
      exact SortedMap.find?_empty field
  | some t =>
      rw [tagged, MMessage.find?_add, Option.map_some]
      by_cases hfield : field = "mqtttag"
      · rw [if_pos hfield.symm, if_pos hfield]
        congr 1
      · rw [if_neg (Ne.symm hfield), if_neg hfield]
        exact SortedMap.find?_empty field

theorem getString_tagged_add (mtype msubtype name value field : String) (tag : Option String) :
    ((tagged (MMessage.mk2 mtype msubtype) tag).add name value).getString field =
      if field = name then value else if field = "mqtttag" then tag.getD "" else "" := by
  by_cases hfield : field = name
  · rw [if_pos hfield, hfield]
    refine MMessage.getString_add_self name value _ fun items hitems => ?_
    rw [find?_tagged] at hitems
    split_ifs at hitems
    obtain ⟨t, -, ht⟩ := Option.map_eq_some_iff.mp hitems
    exact MstringList.noConfusion ht
  · rw [if_neg hfield, MMessage.getString_add_of_ne value _ (Ne.symm hfield), MMessage.getString,
      find?_tagged]
    by_cases htag : field = "mqtttag"
    · rw [if_pos htag, if_pos htag]
      cases tag <;> rfl
    · rw [if_neg htag, if_neg htag]

@[simp]
theorem mtype_tagged (message : MMessage) (tag : Option String) :
    (tagged message tag).mtype = message.mtype := by
  cases tag with
  | none => rfl
  | some t => exact MMessage.mtype_add "mqtttag" t message

@[simp]
theorem msubtype_tagged (message : MMessage) (tag : Option String) :
    (tagged message tag).msubtype = message.msubtype := by
  cases tag with
  | none => rfl
  | some t => exact MMessage.msubtype_add "mqtttag" t message

section

variable {client : MqttClient} {topic message : String}

theorem cmdIndex_le (client : MqttClient) (names : NameList) : client.cmdIndex names ≤ 1 := by
  rw [cmdIndex]
  split_ifs <;> omega

/-- With three segments there is one for the type and one behind it. -/
theorem exists_places (client : MqttClient) {names : NameList} (hthree : 3 ≤ names.length) :
    ∃ mtype msubtype, names[client.cmdIndex names]? = some mtype ∧
      names[client.cmdIndex names + 1]? = some msubtype := by
  have hle := cmdIndex_le client names
  exact ⟨_, _, List.getElem?_eq_getElem (by omega), List.getElem?_eq_getElem (by omega)⟩

theorem sendCmd_of_short (hshort : ¬3 ≤ (NameList.init [] topic '/').length) :
    client.sendCmd topic message = some [] := by
  rw [sendCmd]
  exact if_pos (by omega)

theorem sendCmd_of_command (hthree : 3 ≤ (NameList.init [] topic '/').length)
    {mtype msubtype : String}
    (hmtype : (NameList.init [] topic '/')[client.cmdIndex (NameList.init [] topic '/')]? =
      some mtype) (hwget : mtype ≠ "wget")
    (hmsubtype : (NameList.init [] topic '/')[client.cmdIndex (NameList.init [] topic '/') + 1]? =
      some msubtype) :
    client.sendCmd topic message =
      some (match NameList.init [] message '=' with
        | name :: value :: _ =>
            [(tagged (MMessage.mk2 mtype msubtype)
              (readTag (NameList.init [] topic '/')
                (client.cmdIndex (NameList.init [] topic '/')))).add name value]
        | _ => []) := by
  rw [sendCmd]
  simp only [if_neg (not_lt.mpr hthree), hmtype, hmsubtype, Option.bind_some, if_neg hwget,
    Option.map_some]

theorem head?_init_eq_none_iff (text : String) (delim : Char) :
    (NameList.init [] text delim)[0]? = none ↔ text = "" := by
  rw [← List.head?_eq_getElem?]
  constructor
  · intro hnone
    by_contra htext
    rw [NameList.head?_init htext] at hnone
    exact Option.some_ne_none _ hnone
  · rintro rfl
    rfl

theorem sendCmd_of_wget (hthree : 3 ≤ (NameList.init [] topic '/').length)
    (hmtype : (NameList.init [] topic '/')[client.cmdIndex (NameList.init [] topic '/')]? =
      some "wget") :
    (client.sendCmd topic message = none ↔ message = "") ∧
      ∀ notified, client.sendCmd topic message = some notified →
        notified = [] ∨ ∃ follower, notified = [client.wgetAnswer follower message] := by
  obtain ⟨_, follower, -, hfollower⟩ := exists_places client hthree
  rw [sendCmd]
  simp only [if_neg (not_lt.mpr hthree), hmtype, Option.bind_some, if_true, hfollower,
    Option.map_some]
  rw [← head?_init_eq_none_iff message '/']
  cases (NameList.init [] message '/')[0]? with
  | none => exact ⟨iff_of_true rfl rfl, fun _ hnone => absurd hnone.symm (Option.some_ne_none _)⟩
  | some page =>
      rw [Option.bind_some]
      split_ifs with hpage
      · refine ⟨iff_of_false (by simp) (by simp), fun notified hnotified => ?_⟩
        exact Or.inr ⟨follower, (Option.some.inj hnotified).symm⟩
      · refine ⟨iff_of_false (by simp) (by simp), fun notified hnotified => ?_⟩
        exact Or.inl (Option.some.inj hnotified).symm

/-- The topic asks for a page. -/
def AsksForPage (client : MqttClient) (topic : String) : Prop :=
  3 ≤ (NameList.init [] topic '/').length ∧
    (NameList.init [] topic '/')[client.cmdIndex (NameList.init [] topic '/')]? = some "wget"

theorem sendCmd_eq_none_iff :
    client.sendCmd topic message = none ↔ client.AsksForPage topic ∧ message = "" := by
  by_cases hthree : 3 ≤ (NameList.init [] topic '/').length
  · obtain ⟨mtype, msubtype, hmtype, hmsubtype⟩ := exists_places client hthree
    by_cases hwget : mtype = "wget"
    · rw [hwget] at hmtype
      rw [(sendCmd_of_wget hthree hmtype).1]
      exact (and_iff_right ⟨hthree, hmtype⟩).symm
    · rw [sendCmd_of_command hthree hmtype hwget hmsubtype]
      refine iff_of_false (Option.some_ne_none _) fun h => hwget ?_
      rw [h.1.2, Option.some.injEq] at hmtype
      exact hmtype.symm
  · rw [sendCmd_of_short hthree]
    exact iff_of_false (Option.some_ne_none _) fun h => hthree h.1.1

end

/-! ## What is read of a payload -/

theorem splitOn_append_sign {name : List Char} (hname : '=' ∉ name) (value : List Char) :
    (name ++ '=' :: value).splitOn '=' = name :: value.splitOn '=' := by
  rw [List.splitOn_append_cons_self, List.splitOn_eq_singleton hname, List.singleton_append]

/-- A payload is its name, its value up to the next equal sign, and the rest. -/
theorem init_payload {name value : String} (hname : '=' ∉ name.toList) (hvalue : value ≠ "") :
    ∃ rest, NameList.init [] (name ++ "=" ++ value) '=' =
      name :: String.ofList (value.toList.takeWhile fun c => c ≠ '=') :: rest := by
  have hchars : (name ++ "=" ++ value).toList = name.toList ++ '=' :: value.toList := by
    simp
  have hne : name ++ "=" ++ value ≠ "" := by
    rw [ne_eq, ← String.toList_inj, hchars]
    simp
  have hpieces : NameList.init [] (name ++ "=" ++ value) '=' =
      name :: NameList.init [] value '=' := by
    rw [← NameList.initLoop_fst, ← NameList.initLoop_fst, NameList.initLoop, NameList.initLoop,
      if_neg hne, if_neg hvalue]
    simp only [NameList.pushPieces_eq, List.nil_append, hchars]
    rw [splitOn_append_sign hname, NameList.withoutEmptyLast_cons _ (List.splitOn_ne_nil _ _),
      List.map_cons, String.ofList_toList]
  have hhead := NameList.head?_init hvalue '='
  cases hlist : NameList.init [] value '=' with
  | nil =>
      rw [hlist] at hhead
      exact absurd hhead.symm (Option.some_ne_none _)
  | cons first rest =>
      rw [hlist, List.head?_cons, Option.some.injEq] at hhead
      rw [hpieces, hlist, hhead]
      exact ⟨rest, rfl⟩

theorem takeWhile_eq_iff {c : Char} (text : String) :
    String.ofList (text.toList.takeWhile fun d => d ≠ c) = text ↔ c ∉ text.toList := by
  rw [← String.toList_inj, String.toList_ofList, List.takeWhile_eq_self_iff]
  constructor
  · intro h hmem
    simpa using h c hmem
  · intro h d hd
    exact decide_eq_true fun heq => h (heq ▸ hd)

section

variable {client : MqttClient} {cmd : BrokerCommand client.mqttDomain}

/-- An answer to a request for a page is not the message of a command. -/
theorem not_carries_wgetAnswer (follower message : String) :
    ¬cmd.Carries (client.wgetAnswer follower message) := by
  intro h
  have hnew : ∀ items, (MMessage.mk2 "mqtt" "mqtt_send").fields.find? "topic" ≠
      some (.mstringList items) := fun items => by
    rw [MMessage.mk2, SortedMap.find?_empty]
    exact (Option.some_ne_none _).symm
  have hvalue : (client.wgetAnswer follower message).getString "value" ≠ "" := by
    rw [wgetAnswer, MMessage.getString_add_self]
    · exact IndexPages.getDynamicPage_ne_empty _ _
    · intro items
      rw [MMessage.find?_add_of_ne _ _ (by decide), MMessage.mk2, SortedMap.find?_empty]
      exact (Option.some_ne_none _).symm
  have htopic : (client.wgetAnswer follower message).getString "topic" ≠ "" := by
    rw [wgetAnswer, MMessage.getString_add_of_ne _ _ (by decide),
      MMessage.getString_add_self _ _ _ hnew]
    split_ifs
    · exact IndexPages.append_ne_empty
        (IndexPages.append_ne_empty (IndexPages.append_ne_empty ‹_› _) _) _
    · exact IndexPages.append_ne_empty (IndexPages.append_ne_empty (by decide) _) _
    · exact IndexPages.append_ne_empty ‹_› _
    · decide
  by_cases hname : cmd.name = "topic"
  · refine hvalue (h.others "value" ?_ fun htag => absurd htag (by decide))
    rw [hname]
    decide
  · exact htopic (h.others "topic" (Ne.symm hname) fun htag => absurd htag (by decide))

theorem sendCmd_payload (hthree : 3 ≤ (NameList.init [] cmd.topic '/').length)
    {mtype msubtype : String}
    (hmtype : (NameList.init [] cmd.topic '/')[client.cmdIndex (NameList.init [] cmd.topic '/')]? =
      some mtype) (hwget : mtype ≠ "wget")
    (hmsubtype :
      (NameList.init [] cmd.topic '/')[client.cmdIndex (NameList.init [] cmd.topic '/') + 1]? =
        some msubtype) :
    client.sendCmd cmd.topic cmd.payload =
      some [(tagged (MMessage.mk2 mtype msubtype)
        (readTag (NameList.init [] cmd.topic '/')
          (client.cmdIndex (NameList.init [] cmd.topic '/')))).add cmd.name
            (String.ofList (cmd.value.toList.takeWhile fun c => c ≠ '='))] := by
  obtain ⟨rest, hrest⟩ := init_payload cmd.name_noSign cmd.value_ne
  rw [sendCmd_of_command hthree hmtype hwget hmsubtype, BrokerCommand.payload, hrest]

theorem readTag_ne_empty {names : NameList} {k : ℕ} {t : String} (h : readTag names k = some t) :
    t ≠ "" := by
  rintro rfl
  obtain ⟨-, htag⟩ := Option.filter_eq_some_iff.mp h
  exact absurd htag (by decide)

/-- The message of a command that is read at the given places. -/
theorem carries_iff {mtype msubtype value : String} {read : Option String}
    (hread : ∀ t, read = some t → t ≠ "") :
    cmd.Carries ((tagged (MMessage.mk2 mtype msubtype) read).add cmd.name value) ↔
      mtype = cmd.mtype ∧ msubtype = cmd.msubtype ∧ value = cmd.value ∧
        (cmd.name ≠ "mqtttag" → read = cmd.tag) ∧
          (cmd.name = "mqtttag" → ∀ t ∈ cmd.tag, t = cmd.value) := by
  constructor
  · intro h
    have hvalue : value = cmd.value := by
      have hfield := h.value
      rwa [getString_tagged_add, if_pos rfl] at hfield
    have hmtype := h.mtype
    have hmsubtype := h.msubtype
    rw [MMessage.mtype_add, mtype_tagged] at hmtype
    rw [MMessage.msubtype_add, msubtype_tagged] at hmsubtype
    refine ⟨hmtype, hmsubtype, hvalue, fun hname => ?_, fun hname t ht => ?_⟩
    · cases htag : cmd.tag with
      | none =>
          have hempty := h.others "mqtttag" (Ne.symm hname) fun _ => htag
          rw [getString_tagged_add, if_neg (Ne.symm hname), if_pos rfl] at hempty
          cases hr : read with
          | none => rfl
          | some t =>
              rw [hr, Option.getD_some] at hempty
              exact absurd hempty (hread t hr)
      | some t =>
          have hfield := h.tag t htag
          rw [getString_tagged_add, if_neg (Ne.symm hname), if_pos rfl] at hfield
          cases hr : read with
          | none =>
              rw [hr, Option.getD_none] at hfield
              exact absurd (cmd.tag_isTag t htag).1 (hfield ▸ by decide)
          | some r => rw [← hfield, hr, Option.getD_some]
    · have hfield := h.tag t ht
      rw [getString_tagged_add, if_pos hname.symm] at hfield
      rw [← hfield, hvalue]
  · rintro ⟨rfl, rfl, rfl, htag, hown⟩
    refine ⟨?_, ?_, fun t ht => ?_, ?_, fun field hfield hno => ?_⟩
    · rw [MMessage.mtype_add, mtype_tagged]
      rfl
    · rw [MMessage.msubtype_add, msubtype_tagged]
      rfl
    · rw [getString_tagged_add]
      by_cases hname : "mqtttag" = cmd.name
      · rw [if_pos hname]
        exact (hown hname.symm t ht).symm
      · rw [if_neg hname, if_pos rfl, htag (Ne.symm hname), ht, Option.getD_some]
    · rw [getString_tagged_add, if_pos rfl]
    · rw [getString_tagged_add, if_neg hfield]
      split_ifs with hmark
      · rw [htag fun hname => hfield (hmark.trans hname.symm), hno hmark, Option.getD_none]
      · rfl

/-- What carries a command is the message of the branch for commands. -/
theorem exists_of_carries {text : String} {m : MMessage}
    (hsend : client.sendCmd cmd.topic text = some [m]) (hm : cmd.Carries m) :
    3 ≤ (NameList.init [] cmd.topic '/').length ∧
      ∃ mtype msubtype name value rest,
        (NameList.init [] cmd.topic '/')[client.cmdIndex (NameList.init [] cmd.topic '/')]? =
          some mtype ∧ mtype ≠ "wget" ∧
        (NameList.init [] cmd.topic '/')[client.cmdIndex (NameList.init [] cmd.topic '/') + 1]? =
          some msubtype ∧
        NameList.init [] text '=' = name :: value :: rest ∧
        m = (tagged (MMessage.mk2 mtype msubtype)
          (readTag (NameList.init [] cmd.topic '/')
            (client.cmdIndex (NameList.init [] cmd.topic '/')))).add name value := by
  by_cases hthree : 3 ≤ (NameList.init [] cmd.topic '/').length
  · obtain ⟨mtype, msubtype, hmtype, hmsubtype⟩ := exists_places client hthree
    refine ⟨hthree, mtype, msubtype, ?_⟩
    by_cases hwget : mtype = "wget"
    · rw [hwget] at hmtype
      rcases (sendCmd_of_wget hthree hmtype).2 [m] hsend with hnil | ⟨follower, hanswer⟩
      · exact absurd hnil (List.cons_ne_nil _ _)
      · rw [List.singleton_inj.mp hanswer] at hm
        exact absurd hm (not_carries_wgetAnswer follower text)
    · rw [sendCmd_of_command hthree hmtype hwget hmsubtype, Option.some.injEq] at hsend
      split at hsend
      · next name value rest hvalues =>
          exact ⟨name, value, rest, hmtype, hwget, hmsubtype, hvalues,
            (List.singleton_inj.mp hsend).symm⟩
      · exact absurd hsend.symm (List.cons_ne_nil _ _)
  · rw [sendCmd_of_short hthree, Option.some.injEq] at hsend
    exact absurd hsend.symm (List.cons_ne_nil _ _)

/-- With its own payload a command is notified exactly if it is read in its places. -/
theorem sendCmd_carries_iff :
    (∃ m, client.sendCmd cmd.topic cmd.payload = some [m] ∧ cmd.Carries m) ↔
      client.Placed cmd := by
  constructor
  · rintro ⟨m, hsend, hm⟩
    obtain ⟨hthree, mtype, msubtype, name, value, rest, hmtype, hwget, hmsubtype, hvalues, rfl⟩ :=
      exists_of_carries hsend hm
    obtain ⟨tail, hpayload⟩ := init_payload cmd.name_noSign cmd.value_ne
    rw [BrokerCommand.payload, hpayload, List.cons.injEq, List.cons.injEq] at hvalues
    obtain ⟨rfl, hvalue, -⟩ := hvalues
    obtain ⟨rfl, rfl, hwhole, htag, hown⟩ := (carries_iff fun _ => readTag_ne_empty).mp hm
    exact ⟨hthree, hmtype, hwget, hmsubtype, htag, hown,
      (takeWhile_eq_iff cmd.value).mp (hvalue.trans hwhole)⟩
  · intro h
    refine ⟨_, sendCmd_payload h.three h.mtype h.ne_wget h.msubtype, ?_⟩
    refine (carries_iff fun _ => readTag_ne_empty).mpr ⟨rfl, rfl, ?_, h.tag, h.own_tag⟩
    exact (takeWhile_eq_iff cmd.value).mpr h.sign

theorem length_init_of_notMem {text : String} {delim : Char} (h : delim ∉ text.toList) :
    (NameList.init [] text delim).length ≤ 1 := by
  rw [NameList.init]
  split_ifs
  · exact Nat.zero_le 1
  · simp only [List.splitOn_eq_singleton h, List.length_map]
    split_ifs <;> simp

theorem length_init_empty_value {name : String} (hname : '=' ∉ name.toList) :
    (NameList.init [] (name ++ "=") '=').length ≤ 1 := by
  have hchars : (name ++ "=").toList = name.toList ++ '=' :: [] := by
    simp
  rw [NameList.init]
  split_ifs
  · exact Nat.zero_le 1
  · simp [hchars, splitOn_append_sign hname]

/-- A text cut at a null character does not carry the command. -/
theorem not_carries_of_null (hnull : '\x00' ∈ cmd.payload.toList) {m : MMessage}
    (hsend : client.sendCmd cmd.topic
      (String.ofList (cmd.payload.toList.takeWhile fun c => c ≠ '\x00')) = some [m]) :
    ¬cmd.Carries m := by
  intro hm
  obtain ⟨-, mtype, msubtype, name, value, rest, -, -, -, hvalues, rfl⟩ :=
    exists_of_carries hsend hm
  have hchars : cmd.payload.toList = cmd.name.toList ++ '=' :: cmd.value.toList := by
    simp [BrokerCommand.payload]
  have htwo : ¬(NameList.init [] (String.ofList
      (cmd.payload.toList.takeWhile fun c => c ≠ '\x00')) '=').length ≤ 1 := by
    rw [hvalues]
    simp
  rw [hchars] at hnull hvalues htwo
  by_cases hinname : '\x00' ∈ cmd.name.toList
  · -- what is left of the name has no equal sign
    have hcut : (cmd.name.toList ++ '=' :: cmd.value.toList).takeWhile (fun c => c ≠ '\x00') =
        cmd.name.toList.takeWhile fun c => c ≠ '\x00' := by
      rw [List.takeWhile_append, if_neg]
      intro hlength
      have hkept := ((List.takeWhile_prefix _).eq_of_length hlength).symm ▸ hinname
      simpa using List.mem_takeWhile_imp hkept
    refine htwo (length_init_of_notMem fun hsign => cmd.name_noSign ?_)
    rw [hcut, String.toList_ofList] at hsign
    exact (List.takeWhile_subset _) hsign
  · have hall : ∀ c ∈ cmd.name.toList, decide (c ≠ '\x00') = true :=
      fun c hc => decide_eq_true fun heq => hinname (heq ▸ hc)
    have hcut : String.ofList ((cmd.name.toList ++ '=' :: cmd.value.toList).takeWhile
        fun c => c ≠ '\x00') =
        cmd.name ++ "=" ++ String.ofList (cmd.value.toList.takeWhile fun c => c ≠ '\x00') := by
      rw [List.takeWhile_append_of_pos hall, ← String.toList_inj]
      simp
    have hinvalue : '\x00' ∈ cmd.value.toList := by
      simpa [hinname] using hnull
    rw [hcut] at hvalues htwo
    by_cases hempty : String.ofList (cmd.value.toList.takeWhile fun c => c ≠ '\x00') = ""
    · rw [hempty, String.append_empty] at htwo
      exact htwo (length_init_empty_value cmd.name_noSign)
    · obtain ⟨tail, hpayload⟩ := init_payload cmd.name_noSign hempty
      rw [hpayload, List.cons.injEq, List.cons.injEq] at hvalues
      obtain ⟨rfl, rfl, -⟩ := hvalues
      have hwhole := ((carries_iff fun _ => readTag_ne_empty).mp hm).2.2.1
      rw [← hwhole, String.toList_ofList, String.toList_ofList] at hinvalue
      have hkept := List.takeWhile_subset _ hinvalue
      simpa using List.mem_takeWhile_imp hkept

end

/-! ## Topics with a domain of one segment -/

theorem init_joined_segments {segs : NameList} {delim : Char} (hsegs : segs ≠ [])
    (hlack : ∀ name ∈ segs, delim ∉ name.toList) :
    NameList.init [] (NameList.joined segs delim) delim =
      if segs.getLast? = some "" then segs.dropLast else segs := by
  have hmap : segs.map String.toList ≠ [] := mt List.map_eq_nil_iff.mp hsegs
  have hpieces : ∀ piece ∈ segs.map String.toList, delim ∉ piece := by
    intro piece hpiece
    obtain ⟨name, hname, rfl⟩ := List.mem_map.mp hpiece
    exact hlack name hname
  have hsplit : (NameList.joined segs delim).toList.splitOn delim = segs.map String.toList := by
    rw [NameList.joined, String.toList_ofList]
    exact List.splitOn_intercalate delim hpieces hmap
  have hlast : (segs.map String.toList).getLast? = some [] ↔ segs.getLast? = some "" := by
    rw [List.getLast?_map, Option.map_eq_some_iff]
    simp only [String.toList_eq_nil_iff, exists_eq_right]
  have hback : ∀ names : NameList, (names.map String.toList).map String.ofList = names := by
    intro names
    rw [List.map_map]
    exact (List.map_congr_left fun name _ => String.ofList_toList).trans (List.map_id names)
  rw [NameList.init]
  by_cases hempty : NameList.joined segs delim = ""
  · -- the only segment is empty
    rw [hempty, String.toList_empty, List.splitOn_nil] at hsplit
    have hsingle : segs = [""] := by
      rw [← hback segs, ← hsplit]
      rfl
    rw [if_pos hempty, hsingle]
    rfl
  · simp only [if_neg hempty, hsplit, hlast]
    split_ifs with hlastEmpty
    · rw [← List.map_dropLast, hback]
    · exact hback segs

/-- With a domain of one segment it shows in the command whether it is read in its places. -/
theorem placed_iff {client : MqttClient} {cmd : BrokerCommand client.mqttDomain}
    (hdomain : '/' ∉ client.mqttDomain.toList) (hname : cmd.name ≠ "mqtttag") :
    client.Placed cmd ↔ client.InPlace cmd := by
  have hlack : ∀ name ∈ cmd.segments, '/' ∉ name.toList := by
    intro name hmem
    rw [BrokerCommand.segments, List.mem_append, List.mem_append, List.mem_cons,
      List.mem_singleton, Option.mem_toList] at hmem
    rcases hmem with (hmem | rfl | rfl) | hmem
    · split_ifs at hmem
      · rwa [List.mem_singleton.mp hmem]
      · exact absurd hmem List.not_mem_nil
    · exact cmd.mtype_noSlash
    · exact cmd.msubtype_noSlash
    · exact (cmd.tag_isTag name hmem).2
  have hne : cmd.segments ≠ [] := by
    simp [BrokerCommand.segments]
  have hnames := init_joined_segments hne hlack
  have htagged : ∀ t, cmd.tag = some t → t ≠ "" := by
    rintro _ ht rfl
    exact absurd (cmd.tag_isTag _ ht).1 (by decide)
  have hplaced : client.Placed cmd ↔ 3 ≤ (NameList.init [] cmd.topic '/').length ∧
      (NameList.init [] cmd.topic '/')[client.cmdIndex (NameList.init [] cmd.topic '/')]? =
        some cmd.mtype ∧ cmd.mtype ≠ "wget" ∧
      (NameList.init [] cmd.topic '/')[client.cmdIndex (NameList.init [] cmd.topic '/') + 1]? =
        some cmd.msubtype ∧
      readTag (NameList.init [] cmd.topic '/')
        (client.cmdIndex (NameList.init [] cmd.topic '/')) = cmd.tag ∧ '=' ∉ cmd.value.toList :=
    ⟨fun h => ⟨h.three, h.mtype, h.ne_wget, h.msubtype, h.tag hname, h.sign⟩,
      fun ⟨hthree, hmtype, hwget, hmsubtype, htag, hsign⟩ =>
        ⟨hthree, hmtype, hwget, hmsubtype, fun _ => htag, fun h => absurd h hname, hsign⟩⟩
  have hinPlace : client.InPlace cmd ↔ cmd.mtype ≠ "wget" ∧ '=' ∉ cmd.value.toList ∧
      (cmd.withDomain = true → cmd.msubtype = "" → cmd.tag ≠ none) ∧
        (cmd.withDomain = false → cmd.tag ≠ none ∧ cmd.mtype ≠ client.mqttDomain) :=
    ⟨fun h => ⟨h.ne_wget, h.sign, h.third, h.plain⟩, fun ⟨hwget, hsign, hthird, hplain⟩ =>
      ⟨hwget, hsign, hthird, hplain⟩⟩
  rw [hplaced, hinPlace, BrokerCommand.topic, hnames, BrokerCommand.segments]
  cases hdom : cmd.withDomain with
  | true =>
      cases htag : cmd.tag with
      | none =>
          by_cases hempty : cmd.msubtype = ""
          · simp [hempty]
          · simp [hempty, cmdIndex, readTag]
      | some t =>
          have hisTag := (cmd.tag_isTag t htag).1
          simp [htagged t htag, cmdIndex, readTag, hisTag]
  | false =>
      cases htag : cmd.tag with
      | none =>
          by_cases hempty : cmd.msubtype = ""
          · simp [hempty]
          · simp [hempty]
      | some t =>
          have hisTag := (cmd.tag_isTag t htag).1
          by_cases hown : cmd.mtype = client.mqttDomain
          · simp [htagged t htag, cmdIndex, readTag, hown]
          · simp [htagged t htag, cmdIndex, readTag, hown, hisTag]

/-- A command from the broker is notified with its fields exactly if it is read in its places from
a text that the buffer has room for. -/
theorem exists_onMessage_iff (client : MqttClient) (cmd : BrokerCommand client.mqttDomain) :
    (∃ m, client.onMessage cmd.topic cmd.payload = some [m] ∧ cmd.Carries m) ↔
      client.Placed cmd ∧ cmd.Buffered := by
  by_cases hnull : '\x00' ∈ cmd.payload.toList
  · refine iff_of_false ?_ fun h => h.2.null hnull
    rintro ⟨m, hsend, hm⟩
    rw [onMessage] at hsend
    split_ifs at hsend
    exact not_carries_of_null hnull hsend hm
  · have htext : (cmd.payload.toList.takeWhile fun c => c ≠ '\x00') = cmd.payload.toList :=
      List.takeWhile_eq_self_iff.mpr fun c hc => decide_eq_true fun heq => hnull (heq ▸ hc)
    rw [onMessage]
    simp only [htext, String.ofList_toList]
    by_cases hshort : cmd.payload.toList.length < maxBuf
    · rw [if_pos hshort, sendCmd_carries_iff]
      exact (and_iff_left ⟨hnull, hshort⟩).symm
    · rw [if_neg hshort]
      refine iff_of_false ?_ fun h => hshort h.2.short
      rintro ⟨m, hsend, -⟩
      exact Option.some_ne_none _ hsend.symm

/-- A page can be asked for with any message but an empty one, and a command from the broker is
notified with its fields exactly if it is read in its places from a text that the buffer has room
for, which with a domain of one segment shows in the command. -/
theorem onMessage_iff (client : MqttClient) (topic message : String)
    (cmd : BrokerCommand client.mqttDomain) :
    ((client.sendCmd topic message).isSome ↔ ¬(client.AsksForPage topic ∧ message = "")) ∧
      ((∃ m, client.onMessage cmd.topic cmd.payload = some [m] ∧ cmd.Carries m) ↔
        client.Placed cmd ∧ cmd.Buffered) ∧
      ('/' ∉ client.mqttDomain.toList → cmd.name ≠ "mqtttag" →
        ((∃ m, client.onMessage cmd.topic cmd.payload = some [m] ∧ cmd.Carries m) ↔
          client.InPlace cmd ∧ cmd.Buffered)) := by
  refine ⟨?_, exists_onMessage_iff client cmd, fun hdomain hname => ?_⟩
  · rw [← sendCmd_eq_none_iff, Option.isSome_iff_ne_none]
  · rw [exists_onMessage_iff, placed_iff hdomain hname]

/-- A command behind the domain, with a tag. -/
def lampTagged : BrokerCommand "local" where
  withDomain := true
  mtype := "cmd"
  msubtype := "LI_hall"
  tag := some "t.12"
  name := "value"
  value := "ON"
  domain_ne := by decide
  mtype_noSlash := by simp
  msubtype_noSlash := by simp
  tag_isTag := by decide +kernel
  name_ne := by decide
  name_noSign := by simp
  value_ne := by decide

theorem onMessage_lampTagged :
    ∃ m, onMessage ⟨"local", SortedMap.empty⟩ lampTagged.topic lampTagged.payload = some [m] ∧
      lampTagged.Carries m :=
  ((onMessage_iff ⟨"local", SortedMap.empty⟩ "local/wget/t.1" "" lampTagged).2.2 (by decide)
    (by decide)).mpr ⟨⟨by decide, by decide, by decide, by decide⟩, ⟨by decide, by decide⟩⟩

/-- A command without a domain, and one with an equal sign in its value. -/
def lampOn : BrokerCommand "" where
  withDomain := false
  mtype := "cmd"
  msubtype := "LI_hall"
  tag := none
  name := "value"
  value := "ON"
  domain_ne := by decide
  mtype_noSlash := by simp
  msubtype_noSlash := by simp
  tag_isTag := by simp
  name_ne := by decide
  name_noSign := by simp
  value_ne := by decide

def formula : BrokerCommand "local" where
  withDomain := true
  mtype := "cmd"
  msubtype := "DI_hall"
  tag := none
  name := "value"
  value := "a=b"
  domain_ne := by decide
  mtype_noSlash := by simp
  msubtype_noSlash := by simp
  tag_isTag := by simp
  name_ne := by decide
  name_noSign := by simp
  value_ne := by decide

/-- An empty request for a page indexes a missing segment, a topic without a domain is dropped,
and a value ends at its first equal sign. -/
theorem not_sendCmd_carries :
    sendCmd ⟨"local", SortedMap.empty⟩ "local/wget/t.1" "" = none ∧
      (¬∃ m, sendCmd ⟨"", SortedMap.empty⟩ lampOn.topic lampOn.payload = some [m] ∧
        lampOn.Carries m) ∧
      ¬∃ m, sendCmd ⟨"local", SortedMap.empty⟩ formula.topic formula.payload = some [m] ∧
        formula.Carries m := by
  refine ⟨?_, ?_, ?_⟩
  · rw [sendCmd_eq_none_iff]
    exact ⟨⟨by decide +kernel, by decide +kernel⟩, rfl⟩
  · rw [sendCmd_carries_iff]
    exact fun h => absurd h.three (by decide +kernel)
  · rw [sendCmd_carries_iff]
    exact fun h => absurd h.sign (by simp [formula])

end MqttClient

end Hat
