import Hat.Minilibs.MMessage
import Hat.Minilibs.MParams
import Mathlib.Data.List.Induction
import Mathlib.Data.List.Nodup

/-!
# The name table of the server

Agents announce themselves with name, port and address.  The table keeps a descriptor for
each new name, port and address, at the end of a vector, and a lookup from names of agents
and devices to places in it.  What the agents' pages hold is a parameter: the text that
`getPage` returns for a url and a descriptor.  The files of the device categories are left
out.
-/

namespace Hat

/-- What agents are told apart by. -/
structure AgentId where
  name : String
  port : String
  address : String
  deriving DecidableEq

structure AgentDesc extends AgentId where
  time : String
  command : List String
  event : List String
  deriving DecidableEq

/-- Where the agent is reached. -/
def AgentId.endpoint (ag : AgentId) : String × String := (ag.port, ag.address)

theorem AgentId.ext_endpoint {left right : AgentId} (hname : left.name = right.name)
    (hendpoint : left.endpoint = right.endpoint) : left = right := by
  cases left
  cases right
  simp only [AgentId.endpoint, Prod.mk.injEq] at hname hendpoint
  simp only [hname, hendpoint]

namespace AgentDesc

def ofMessage (m : MMessage) : AgentDesc where
  name := m.getString "agentname"
  port := m.getString "port"
  address := m.getString "address"
  time := m.getString "time"
  command := []
  event := []

def extend (command event : List String) (ag : AgentDesc) : AgentDesc :=
  { ag with command := ag.command ++ command, event := ag.event ++ event }

@[simp]
theorem toAgentId_extend (command event : List String) (ag : AgentDesc) :
    (ag.extend command event).toAgentId = ag.toAgentId := rfl

end AgentDesc

/-- The text of a page, by url and agent. -/
abbrev AgentPages := String → AgentId → String

/-- A message of an agent, and what the pages hold while it is handled. -/
structure Announcement where
  message : MMessage
  pages : AgentPages

namespace Announcement

def id (announcement : Announcement) : AgentId :=
  (AgentDesc.ofMessage announcement.message).toAgentId

end Announcement

namespace NameTable

/-- The text behind the first occurrence of the word. -/
def afterFirst (word : List Char) : List Char → Option (List Char)
  | [] => if word = [] then some [] else none
  | c :: rest =>
      if word.isPrefixOf (c :: rest) then some ((c :: rest).drop word.length)
      else afterFirst word rest

def contains (body word : String) : Bool := (afterFirst word.toList body.toList).isSome

/-- The text between the quotes that follow the word, and what is left from the closing
quote on; nothing is left when the word does not occur. -/
def getWord (word body : List Char) : List Char × Option (List Char) :=
  match afterFirst word body with
  | none => ([], none)
  | some [] => ([], some [])
  | some rest =>
      let quoted := (rest.dropWhile (· ≠ '\x22')).drop 1
      (quoted.takeWhile (· ≠ '\x22'), some (quoted.dropWhile (· ≠ '\x22')))

/-- The loop over the words behind `name`, up to the first empty one. -/
def wordsUpTo : ℕ → List Char → List String
  | 0, _ => []
  | fuel + 1, body =>
      match getWord "name".toList body with
      | (_, none) => []
      | (word, some rest) =>
          if word = [] then [] else String.ofList word :: wordsUpTo fuel rest

def words (body : List Char) : List String := wordsUpTo body.length body

theorem length_afterFirst {word body rest : List Char} (h : afterFirst word body = some rest) :
    rest.length + word.length ≤ body.length := by
  induction body with
  | nil =>
      rw [afterFirst] at h
      split at h
      · rename_i hword
        cases h
        rw [hword]
        exact le_refl _
      · cases h
  | cons c body ih =>
      rw [afterFirst] at h
      split at h
      · rename_i hprefix
        cases h
        have hle := (List.isPrefixOf_iff_prefix.mp hprefix).length_le
        rw [List.length_drop]
        omega
      · exact (ih h).trans (Nat.le_succ _)

/-- A word takes at least one character of the text. -/
theorem length_getWord {word body found rest : List Char} (hword : word ≠ [])
    (h : getWord word body = (found, some rest)) : rest.length < body.length := by
  have hpos : 0 < word.length := List.length_pos_iff.mpr hword
  rw [getWord] at h
  split at h
  · cases h
  · rename_i hafter
    cases h
    have hlength := length_afterFirst hafter
    omega
  · rename_i behind _ hafter
    cases h
    have hlength := length_afterFirst hafter
    refine lt_of_le_of_lt (List.Sublist.length_le ?_) (show behind.length < body.length by omega)
    exact (List.dropWhile_sublist _).trans ((List.drop_sublist _ _).trans
      (List.dropWhile_sublist _))

theorem wordsUpTo_eq {fuel other : ℕ} {body : List Char} (hfuel : body.length ≤ fuel)
    (hother : body.length ≤ other) : wordsUpTo fuel body = wordsUpTo other body := by
  induction fuel generalizing other body with
  | zero =>
      rw [List.length_eq_zero_iff.mp (Nat.le_zero.mp hfuel)]
      cases other <;> rfl
  | succ fuel ih =>
      cases other with
      | zero =>
          rw [List.length_eq_zero_iff.mp (Nat.le_zero.mp hother)]
          rfl
      | succ other =>
          rw [wordsUpTo, wordsUpTo]
          split
          · rfl
          · rename_i word rest hword
            have hlt := length_getWord (by decide) hword
            have hfuel : rest.length ≤ fuel := by omega
            have hrest : rest.length ≤ other := by omega
            rw [ih hfuel hrest]

/-- The loop of the source, whatever the length of the text. -/
theorem words_eq (body : List Char) :
    words body = match getWord "name".toList body with
      | (_, none) => []
      | (word, some rest) => if word = [] then [] else String.ofList word :: words rest := by
  have hsucc : words body = wordsUpTo (body.length + 1) body :=
    wordsUpTo_eq (le_refl _) (Nat.le_succ _)
  rw [hsucc, wordsUpTo]
  split
  · rfl
  · rename_i word rest hword
    have hlt := length_getWord (by decide) hword
    have hfuel : rest.length ≤ body.length := by omega
    rw [words, wordsUpTo_eq hfuel (le_refl rest.length)]

/-- The names of the given types among the words `name.type`. -/
def extract (types : List String) (body : String) : List String :=
  (words body.toList).filterMap fun word =>
    match NameList.init [] word '.' with
    | [subtype, type] => if type ∈ types then some subtype else none
    | _ => none

def extractCommand (body : String) : List String := extract ["cmd"] body

def extractEvent (body : String) : List String := extract ["event", "program"] body

def getCategory (name : String) : String :=
  if name.length > 3 ∧ name.toList[2]? = some '_' then String.ofList (name.toList.take 2) else ""

def isDeviceAgent (ag : AgentId) : Bool := contains ag.name "device"

def cleanUp (page : String) : List Char :=
  page.toList.filter fun c => c ≠ '\x00' ∧ c ≠ '\r' ∧ c ≠ '\n'

/-- The devices on the page of an agent, whose first word is the agent itself. -/
def deviceNames (page : String) : List String :=
  match getWord "name".toList (cleanUp page) with
  | (_, none) => []
  | (_, some rest) => (words rest).filter fun name => getCategory name ≠ ""

/-- The devices that an agent lists. -/
def listed (pages : AgentPages) (ag : AgentId) : List String :=
  if isDeviceAgent ag then deviceNames (pages "/DynamicPage.xml" ag) else []

/-- The names that the lookup maps to an agent. -/
def entered (pages : AgentPages) (ag : AgentId) : List String := ag.name :: listed pages ag

def enter (pages : AgentPages) (lookup : SortedMap String ℕ) (place : AgentId × ℕ) :
    SortedMap String ℕ :=
  (entered pages place.1).foldl (fun lookup name => lookup.insert name place.2) lookup

/-- The lookup is made anew from the whole vector. -/
def mkLookup (pages : AgentPages) (agents : List AgentId) : SortedMap String ℕ :=
  agents.zipIdx.foldl (enter pages) SortedMap.empty

theorem find?_foldl_insert (names : List String) (place : ℕ) (lookup : SortedMap String ℕ)
    (name : String) :
    (names.foldl (fun lookup name => lookup.insert name place) lookup).find? name =
      if name ∈ names then some place else lookup.find? name := by
  induction names generalizing lookup with
  | nil => rfl
  | cons head rest ih =>
      rw [List.foldl_cons, ih, SortedMap.find?_insert]
      by_cases hrest : name ∈ rest
      · rw [if_pos hrest, if_pos (List.mem_cons_of_mem head hrest)]
      · by_cases hhead : head = name
        · rw [if_neg hrest, if_pos hhead, if_pos (List.mem_cons.mpr (Or.inl hhead.symm))]
        · have hnot : name ∉ head :: rest :=
            List.not_mem_cons_of_ne_of_not_mem (Ne.symm hhead) hrest
          rw [if_neg hrest, if_neg hhead, if_neg hnot]

theorem mkLookup_concat (pages : AgentPages) (front : List AgentId) (ag : AgentId) :
    mkLookup pages (front ++ [ag]) = enter pages (mkLookup pages front) (ag, front.length) := by
  rw [mkLookup, List.zipIdx_append, List.foldl_append, Nat.zero_add]
  rfl

/-- The last agent that enters a name has it. -/
theorem find?_mkLookup_concat (pages : AgentPages) (front : List AgentId) (ag : AgentId)
    (name : String) :
    (mkLookup pages (front ++ [ag])).find? name =
      if name ∈ entered pages ag then some front.length
      else (mkLookup pages front).find? name := by
  rw [mkLookup_concat]
  exact find?_foldl_insert _ _ _ _

theorem mkLookup_lt (pages : AgentPages) (agents : List AgentId) :
    ∀ entry ∈ (mkLookup pages agents).entries, entry.2 < agents.length := by
  rintro ⟨name, place⟩ hentry
  have hfind := (SortedMap.mem_entries_iff _ _ _).mp hentry
  clear hentry
  induction agents using List.reverseRecOn with
  | nil => cases hfind
  | append_singleton front ag ih =>
      rw [find?_mkLookup_concat] at hfind
      rw [List.length_append]
      split at hfind
      · cases hfind
        exact Nat.lt_succ_self _
      · exact Nat.lt_succ_of_lt (ih hfind)

end NameTable

/-- Descriptors are of distinct agents, and the lookup points into the vector. -/
structure NameTable where
  agent : List AgentDesc
  namelookup : SortedMap String ℕ
  distinct : (agent.map AgentDesc.toAgentId).Nodup
  inRange : ∀ entry ∈ namelookup.entries, entry.2 < agent.length

namespace NameTable

def empty : NameTable := ⟨[], SortedMap.empty, List.nodup_nil, fun _ h => absurd h List.not_mem_nil⟩

/-- The agents of the descriptors, in their order. -/
def ids (table : NameTable) : List AgentId := table.agent.map AgentDesc.toAgentId

def Knows (table : NameTable) (ag : AgentId) : Prop := ag ∈ table.ids

instance (table : NameTable) (ag : AgentId) : Decidable (table.Knows ag) :=
  inferInstanceAs (Decidable (ag ∈ table.ids))

def addifnew (ag : AgentDesc) (table : NameTable) : NameTable :=
  if h : table.Knows ag.toAgentId then table
  else
    { table with
      agent := table.agent ++ [ag]
      distinct := by
        rw [List.map_append, List.map_singleton]
        exact List.nodup_append.mpr ⟨table.distinct, List.nodup_singleton _,
          fun left hleft right hright heq => by
            rw [heq, List.mem_singleton.mp hright] at hleft
            exact h hleft⟩
      inRange := fun entry hentry => by
        rw [List.length_append]
        exact Nat.lt_succ_of_lt (table.inRange entry hentry) }

/-- Change the last descriptor. -/
def mapLast (f : AgentDesc → AgentDesc) (agents : List AgentDesc) : List AgentDesc :=
  agents.dropLast ++ agents.getLast?.toList.map f

@[simp]
theorem mapLast_concat (f : AgentDesc → AgentDesc) (front : List AgentDesc) (ag : AgentDesc) :
    mapLast f (front ++ [ag]) = front ++ [f ag] := by
  rw [mapLast, List.dropLast_concat, List.getLast?_concat]
  rfl

/-- What the change keeps of a descriptor is kept of all. -/
theorem map_mapLast {α : Type} {g : AgentDesc → α} {f : AgentDesc → AgentDesc}
    (hf : ∀ ag, g (f ag) = g ag) (agents : List AgentDesc) :
    (mapLast f agents).map g = agents.map g := by
  rcases List.eq_nil_or_concat' agents with rfl | ⟨front, ag, rfl⟩
  · rfl
  · rw [mapLast_concat, List.map_append, List.map_append, List.map_singleton,
      List.map_singleton, hf]

theorem length_mapLast (f : AgentDesc → AgentDesc) (agents : List AgentDesc) :
    (mapLast f agents).length = agents.length := by
  rcases List.eq_nil_or_concat' agents with rfl | ⟨front, ag, rfl⟩
  · rfl
  · rw [mapLast_concat, List.length_append, List.length_append]
    rfl

/-- What the pages list is added to the descriptor at the end of the vector. -/
def extendLast (command event : List String) (table : NameTable) : NameTable :=
  { table with
    agent := mapLast (AgentDesc.extend command event) table.agent
    distinct := (map_mapLast (AgentDesc.toAgentId_extend command event) _).symm ▸ table.distinct
    inRange := (length_mapLast (AgentDesc.extend command event) table.agent).symm ▸ table.inRange }

def mkTable (pages : AgentPages) (table : NameTable) : NameTable :=
  { table with
    namelookup := mkLookup pages table.ids
    inRange := fun entry hentry =>
      (mkLookup_lt pages table.ids entry hentry).trans_eq (List.length_map _) }

def firstAnnounce (m : MMessage) : Bool :=
  m.getString "first_announce" = "TRUE" || m.getString "first_announce" = "true"

/-- An agent that does not wait for another one. -/
def Active (m : MMessage) : Prop := m.getString "status" ≠ "waiting"

/-- An announcement after which the pages are fetched. -/
def Refreshes (m : MMessage) (table : NameTable) : Prop :=
  ¬ table.Knows (AgentDesc.ofMessage m).toAgentId ∨ firstAnnounce m

/-- The page cannot be fetched. -/
def Fails (pages : AgentPages) (url : String) (ag : AgentId) : Prop :=
  contains (pages url ag) "unknown"

instance (m : MMessage) : Decidable (Active m) :=
  inferInstanceAs (Decidable (m.getString "status" ≠ "waiting"))

instance (m : MMessage) (table : NameTable) : Decidable (Refreshes m table) :=
  inferInstanceAs (Decidable (_ ∨ _))

instance (pages : AgentPages) (url : String) (ag : AgentId) : Decidable (Fails pages url ag) :=
  inferInstanceAs (Decidable (_ = _))

def update (pages : AgentPages) (m : MMessage) (table : NameTable) : Bool × NameTable :=
  if Active m then
    let tmp := AgentDesc.ofMessage m
    let added := table.addifnew tmp
    if Refreshes m table then
      if Fails pages "/subjects/imported" tmp.toAgentId then (false, added)
      else
        let commanded := added.extendLast
          (extractCommand (pages "/subjects/imported" tmp.toAgentId)) []
        if Fails pages "/subjects/exported" tmp.toAgentId then (false, commanded)
        else (true, (commanded.extendLast []
          (extractEvent (pages "/subjects/exported" tmp.toAgentId))).mkTable pages)
    else (false, added)
  else (false, table)

/-- Port and address that `forward`, `notify` and `getstatus` connect to. -/
def rpcTarget (name : String) (table : NameTable) : Option (String × String) :=
  (table.namelookup.find? name).bind fun place => (table.ids[place]?).map AgentId.endpoint

/-- The answer of the agent to a message, which depends on where it is sent. -/
def forward (send : String × String → String → String) (message ag : String)
    (table : NameTable) : String :=
  match table.rpcTarget ag with
  | some target => send target message
  | none => "Not Found"

/-- The answer that describes an agent. -/
def description (ag : AgentId) : MMessage :=
  (((MMessage.mk2 "*" "*").add "name" ag.name).add "port" ag.port).add "address" ag.address

def getAgentDescription (ag : String) (table : NameTable) : MMessage :=
  match table.agent.find? fun desc => desc.name = ag with
  | some desc => description desc.toAgentId
  | none => (MMessage.mk2 "*" "*").add "name" "none"

theorem getString_port_description (ag : AgentId) :
    (description ag).getString "port" = ag.port := by
  rw [description, MMessage.getString_add_of_ne _ _ (by decide)]
  refine MMessage.getString_add_self _ _ _ fun items => ?_
  rw [MMessage.find?_add_of_ne _ _ (by decide)]
  exact (Option.some_ne_none _).symm

theorem getString_address_description (ag : AgentId) :
    (description ag).getString "address" = ag.address := by
  refine MMessage.getString_add_self _ _ _ fun items => ?_
  rw [MMessage.find?_add_of_ne _ _ (by decide), MMessage.find?_add_of_ne _ _ (by decide)]
  exact (Option.some_ne_none _).symm

/-! ## What an announcement changes -/

@[simp]
theorem ids_extendLast (command event : List String) (table : NameTable) :
    (table.extendLast command event).ids = table.ids :=
  map_mapLast (AgentDesc.toAgentId_extend command event) table.agent

@[simp]
theorem namelookup_extendLast (command event : List String) (table : NameTable) :
    (table.extendLast command event).namelookup = table.namelookup := rfl

@[simp]
theorem ids_mkTable (pages : AgentPages) (table : NameTable) :
    (table.mkTable pages).ids = table.ids :=
  rfl

@[simp]
theorem namelookup_mkTable (pages : AgentPages) (table : NameTable) :
    (table.mkTable pages).namelookup = mkLookup pages table.ids := rfl

@[simp]
theorem namelookup_addifnew (ag : AgentDesc) (table : NameTable) :
    (table.addifnew ag).namelookup = table.namelookup := by
  rw [addifnew]
  split <;> rfl

theorem ids_addifnew (ag : AgentDesc) (table : NameTable) :
    (table.addifnew ag).ids =
      if table.Knows ag.toAgentId then table.ids else table.ids ++ [ag.toAgentId] := by
  rw [addifnew]
  split
  · rfl
  · rw [ids, List.map_append]
    rfl

theorem update_of_not_active {m : MMessage} (h : ¬ Active m) (pages : AgentPages)
    (table : NameTable) : table.update pages m = (false, table) :=
  if_neg h

/-- The agents after an announcement do not depend on the pages. -/
theorem ids_update {m : MMessage} (h : Active m) (pages : AgentPages) (table : NameTable) :
    (table.update pages m).2.ids = (table.addifnew (AgentDesc.ofMessage m)).ids := by
  rw [update, if_pos h]
  simp only
  split
  · split
    · rfl
    · split
      · simp only [ids_extendLast]
      · simp only [ids_mkTable, ids_extendLast]
  · rfl

/-- The lookup is made when the pages are fetched and none of them fails. -/
theorem namelookup_update {m : MMessage} (h : Active m) (pages : AgentPages) (table : NameTable) :
    (table.update pages m).2.namelookup =
      if Refreshes m table ∧ ¬ Fails pages "/subjects/imported" (AgentDesc.ofMessage m).toAgentId ∧
          ¬ Fails pages "/subjects/exported" (AgentDesc.ofMessage m).toAgentId then
        mkLookup pages (table.addifnew (AgentDesc.ofMessage m)).ids
      else table.namelookup := by
  rw [update, if_pos h]
  simp only
  by_cases hrefresh : Refreshes m table
  · by_cases himported : Fails pages "/subjects/imported" (AgentDesc.ofMessage m).toAgentId
    · simp [hrefresh, himported]
    · by_cases hexported : Fails pages "/subjects/exported" (AgentDesc.ofMessage m).toAgentId
      · simp [hrefresh, himported, hexported]
      · simp [hrefresh, himported, hexported]
  · simp [hrefresh]

/-- The lookup of a name is the place of the last agent that enters it. -/
theorem find?_mkLookup_eq_some {pages : AgentPages} {agents : List AgentId} {name : String}
    {place : ℕ} :
    (mkLookup pages agents).find? name = some place ↔
      ∃ front ag rest, agents = front ++ ag :: rest ∧ front.length = place ∧
        name ∈ entered pages ag ∧ ∀ later ∈ rest, name ∉ entered pages later := by
  induction agents using List.reverseRecOn with
  | nil =>
      refine iff_of_false (fun h => Option.some_ne_none place (Eq.symm h)) ?_
      rintro ⟨front, ag, rest, hagents, -⟩
      exact List.append_ne_nil_of_right_ne_nil front (List.cons_ne_nil ag rest) hagents.symm
  | append_singleton agents last ih =>
      rw [find?_mkLookup_concat]
      split
      · rename_i hlast
        constructor
        · intro hplace
          cases hplace
          exact ⟨agents, last, [], rfl, rfl, hlast, fun _ h => absurd h List.not_mem_nil⟩
        · rintro ⟨front, ag, rest, hagents, hplace, -, hlater⟩
          rcases List.eq_nil_or_concat' rest with rfl | ⟨init, end_, rfl⟩
          · rw [(List.append_inj' hagents rfl).1, hplace]
          · rw [← List.cons_append, ← List.append_assoc] at hagents
            have hend := List.singleton_inj.mp (List.append_inj' hagents rfl).2
            exact absurd (hend ▸ hlast) (hlater end_ (List.mem_append_right _ List.mem_cons_self))
      · rename_i hlast
        rw [ih]
        constructor
        · rintro ⟨front, ag, rest, rfl, hplace, hag, hlater⟩
          refine ⟨front, ag, rest ++ [last], by simp, hplace, hag, fun later hmem => ?_⟩
          rcases List.mem_append.mp hmem with hrest | hsingle
          · exact hlater later hrest
          · exact List.mem_singleton.mp hsingle ▸ hlast
        · rintro ⟨front, ag, rest, hagents, hplace, hag, hlater⟩
          rcases List.eq_nil_or_concat' rest with rfl | ⟨init, end_, rfl⟩
          · have hend := List.singleton_inj.mp (List.append_inj' hagents rfl).2
            exact absurd (hend ▸ hag) hlast
          · rw [← List.cons_append, ← List.append_assoc] at hagents
            exact ⟨front, ag, init, (List.append_inj' hagents rfl).1, hplace, hag,
              fun later hmem => hlater later (List.mem_append_left _ hmem)⟩

/-- An agent that enters a name gives it a place. -/
theorem exists_place {pages : AgentPages} {agents : List AgentId} {ag : AgentId} {name : String}
    (hag : ag ∈ agents) (hname : name ∈ entered pages ag) :
    ∃ place, (mkLookup pages agents).find? name = some place := by
  induction agents using List.reverseRecOn with
  | nil => exact absurd hag List.not_mem_nil
  | append_singleton front last ih =>
      rw [find?_mkLookup_concat]
      split
      · exact ⟨_, rfl⟩
      · rename_i hlast
        rcases List.mem_append.mp hag with hfront | hsingle
        · exact ih hfront
        · exact absurd (List.mem_singleton.mp hsingle ▸ hname) hlast

end NameTable

end Hat
