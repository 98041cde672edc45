import Hat.WSServer.GuiPage

/-!
# The lists of the page hold every pair

If the loop over the upload begins with the first pair, every area has its devices in the order of
the upload, and the lists made from the map have each of them once.
-/

namespace Hat

open Hat.Hsrv

/-- Each area once with its devices in the order of the upload. -/
structure Arranges (rows : List StringPair) (groups : List (String × List String)) : Prop where
  once : (groups.map Prod.fst).Nodup
  areas : ∀ area, area ∈ groups.map Prod.fst ↔ ∃ row ∈ rows, row.second = area
  devices : ∀ group ∈ groups,
    group.2 = (rows.filter fun row => row.second = group.1).map StringPair.first

def buttonList (areas : List String) : String :=
  String.join (areas.map fun area => "<button id=\"show_" ++ area ++ "\">" ++ area ++ "</button>")

def showFunctions (areas : List String) : String :=
  String.join (areas.map fun area => "$(\"#show_" ++ area ++ "\").click(function()\x7bshowOnly(\"" ++
    area ++ "\");\x7d);\n")

/-- The items in quotes with a separator between them. -/
def quotedList (separator : String) : List String → String
  | [] => ""
  | item :: rest =>
      "\"" ++ item ++ "\"" ++ String.join (rest.map fun other => separator ++ "\"" ++ other ++ "\"")

/-- The areas of a map with the devices in their holders. -/
def groupsOf (holders : Holders) : List (String × List String) :=
  holders.entries.map fun it => (it.1, it.2.devices.map DeviceHolder.device)

namespace GuiFiles

variable (gui : GuiFiles)

/-- A device with its area and what it consists of. -/
def deviceItem (area device : String) : String :=
  devDescription area device ((gui.getComponentOf device).getD "")

def deviceItems (groups : List (String × List String)) : List String :=
  groups.flatMap fun group => group.2.map (gui.deviceItem group.1)

/-- The places of the page with what is filled in, one after the other. -/
def fillings (holders : Holders) : List (String × String) :=
  [("$AREAS", String.join (holders.entries.map fun it => it.2.describeHTML)),
    ("$HBUTTONS", buttonList ((groupsOf holders).map Prod.fst)),
    ("$SHOWFUNCTION", showFunctions ((groupsOf holders).map Prod.fst)),
    ("$DEVDESCRIPTION", quotedList "," (gui.deviceItems (groupsOf holders))),
    ("$AREALIST", quotedList ", " ((groupsOf holders).map Prod.fst))]

def marks : List (List Char) :=
  ["$AREAS".toList, "$HBUTTONS".toList, "$SHOWFUNCTION".toList, "$DEVDESCRIPTION".toList,
    "$AREALIST".toList]

def pageProto : String := gui.getProto (gui.configdir ++ "/guitemplates" ++ "/gui-proto.html")

/-- The template of the page with the first place of each mark. -/
def pagePieces : List (Placeholders.Piece Char) :=
  Placeholders.template marks gui.pageProto.toList

/-- The template has a place for each list that is to be shown. -/
def HasPlaces : Prop :=
  ∀ mark ∈ ["$HBUTTONS", "$DEVDESCRIPTION", "$AREALIST"], mark.toList <:+: gui.pageProto.toList

instance : Decidable gui.HasPlaces := inferInstanceAs (Decidable (∀ mark ∈ _, _))

/-- The page is made from holders that arrange the upload: it is the template with the lists of
their areas and devices, each in its own place. -/
structure Shows (rows : List StringPair) (update : GuiUpdate) : Prop where
  arranges : Arranges rows (groupsOf update.holders)
  places : rows ≠ [] → gui.HasPlaces
  page : rows ≠ [] → update.page.toList = Placeholders.filled
    (fun mark => ((byLettersOf (gui.fillings update.holders)).lookup mark).getD mark) gui.pagePieces

end GuiFiles

/-- A loop that fills in a name ends if its mark is not in the text.  Otherwise the mark must not
be in the name; if the name moreover begins with an end of the mark and ends with a beginning of
it, then the loop must be one that ends all the same. -/
def LoopEnds (mark name text : String) : Prop :=
  mark.toList <:+: text.toList → ¬mark.toList <:+: name.toList ∧
    (Placeholders.Meets mark.toList name.toList →
      ∃ turns, (replaceLoop turns mark name text).isSome)

namespace GuiFiles

variable (gui : GuiFiles)

/-- A device has a category, and the loops that fill in its name end. -/
def DeviceEnds (name : String) : Prop :=
  ∃ category parts, NameList.init [] name '_' = category :: parts ∧
    let proto := gui.getProto (gui.configdir ++ "/guitemplates/" ++ category ++ "_bholder.html")
    LoopEnds "$CAT" category proto ∧ ∀ turns description,
      replaceLoop turns "$CAT" category proto = some description →
        LoopEnds "$NAME" (devname parts) description

/-- The loop over the upload leaves nothing out, the loops over the names end, and the manifests
can be read. -/
structure Complete (start : ℕ) (rows : List StringPair) : Prop where
  start : start = 0 ∨ rows = []
  areas : ∀ row ∈ rows,
    LoopEnds "$AREA" row.second (gui.getProto (gui.configdir ++ "/guitemplates/barholder.html"))
  devices : ∀ row ∈ rows, gui.DeviceEnds row.first
  components : ∀ row ∈ rows, (gui.getComponentOf row.first).isSome

/-- The holders of an upload. -/
def Leads (rows : List StringPair) (holders : Holders) : Prop :=
  ∃ turns, rows.foldlM (gui.addPair turns) SortedMap.empty = some holders

/-- The template has its places, and when a mark is replaced it does not stand in front of its
own place, within what is already filled in. -/
structure Fillable (rows : List StringPair) : Prop where
  places : gui.HasPlaces
  placed : ∀ holders, gui.Leads rows holders →
    Placeholders.Placed (byLettersOf (gui.fillings holders)) gui.pagePieces

end GuiFiles

theorem mkButtons_eq (areas : Holders) :
    mkButtons areas = buttonList ((groupsOf areas).map Prod.fst) := by
  rw [mkButtons, buttonList, groupsOf, List.map_map, List.map_map, String.join, List.foldl_map]
  rfl

theorem mkShowfun_eq (areas : Holders) :
    mkShowfun areas = showFunctions ((groupsOf areas).map Prod.fst) := by
  rw [mkShowfun, showFunctions, groupsOf, List.map_map, List.map_map, String.join, List.foldl_map]
  rfl

theorem foldl_appendQuoted (separator : String) (items : List String) {list : String}
    (hlist : list ≠ "") :
    items.foldl (appendQuoted separator) list =
      list ++ String.join (items.map fun other => separator ++ "\"" ++ other ++ "\"") := by
  induction items generalizing list with
  | nil => simp [String.join]
  | cons item rest ih =>
      have hnext : list ++ (separator ++ "\"" ++ item ++ "\"") ≠ "" := by
        simp [hlist]
      rw [List.foldl_cons, appendQuoted, if_neg hlist, ih hnext, List.map_cons, String.join_cons,
        String.append_assoc]

/-- The loop over the items makes their list. -/
theorem foldl_appendQuoted_empty (separator : String) (items : List String) :
    items.foldl (appendQuoted separator) "" = quotedList separator items := by
  cases items with
  | nil => rfl
  | cons item rest =>
      have hfirst : "\"" ++ item ++ "\"" ≠ "" := by
        simp
      rw [List.foldl_cons, appendQuoted, if_pos rfl, String.empty_append,
        foldl_appendQuoted separator rest hfirst, quotedList]

theorem mkAreaList_eq (areas : Holders) :
    mkAreaList areas = quotedList ", " ((groupsOf areas).map Prod.fst) := by
  rw [mkAreaList, ← foldl_appendQuoted_empty, groupsOf, List.map_map, List.foldl_map]
  rfl

/-- A fold in which each item is looked up first is a fold over what was found. -/
theorem foldlM_map_eq {α β γ : Type*} (f : β → Option γ) (g : α → β → γ → α) {items : List β}
    (h : ∀ item ∈ items, (f item).isSome) (d : γ) (start : α) :
    items.foldlM (fun state item => (f item).map (g state item)) start =
      some (items.foldl (fun state item => g state item ((f item).getD d)) start) := by
  induction items generalizing start with
  | nil => rfl
  | cons item rest ih =>
      obtain ⟨hitem, hrest⟩ := List.forall_mem_cons.mp h
      obtain ⟨found, hfound⟩ := Option.isSome_iff_exists.mp hitem
      rw [List.foldlM_cons, hfound, Option.map_some, List.foldl_cons, hfound, Option.getD_some]
      exact ih hrest (g start item found)

theorem isSome_of_foldlM_map {α β γ : Type*} (f : β → Option γ) (g : α → β → γ → α)
    {items : List β} {start last : α}
    (h : items.foldlM (fun state item => (f item).map (g state item)) start = some last) :
    ∀ item ∈ items, (f item).isSome := by
  induction items generalizing start with
  | nil => exact fun item hitem => absurd hitem List.not_mem_nil
  | cons item rest ih =>
      rw [List.foldlM_cons, Option.bind_eq_bind, Option.bind_eq_some_iff] at h
      obtain ⟨next, hnext, hrest⟩ := h
      obtain ⟨found, hfound, -⟩ := Option.map_eq_some_iff.mp hnext
      exact List.forall_mem_cons.mpr ⟨Option.isSome_iff_exists.mpr ⟨found, hfound⟩, ih hrest⟩

namespace GuiFiles

variable (gui : GuiFiles)

/-- The devices with their areas. -/
def devicesOf (groups : List (String × List String)) : List (String × String) :=
  groups.flatMap fun group => group.2.map fun device => (group.1, device)

/-- The two loops are one over the devices with their areas. -/
theorem mkDevList_eq (areas : Holders) :
    gui.mkDevList areas = (devicesOf (groupsOf areas)).foldlM
      (fun devlist it => (gui.getComponentOf it.2).map fun components =>
        appendQuoted "," devlist (devDescription it.1 it.2 components)) "" := by
  rw [mkDevList, devicesOf, groupsOf]
  generalize areas.entries = entries
  generalize "" = devlist
  induction entries generalizing devlist with
  | nil => rfl
  | cons entry rest ih =>
      rw [List.map_cons, List.flatMap_cons, List.foldlM_append, List.foldlM_cons, List.map_map,
        List.foldlM_map]
      refine congrArg (fun next => _ >>= next) (funext fun next => ?_)
      exact ih next

theorem mkDevList_eq_some {areas : Holders}
    (hcomponents : ∀ it ∈ devicesOf (groupsOf areas), (gui.getComponentOf it.2).isSome) :
    gui.mkDevList areas = some (quotedList "," (gui.deviceItems (groupsOf areas))) := by
  rw [gui.mkDevList_eq, foldlM_map_eq (fun it : String × String => gui.getComponentOf it.2)
    (fun devlist it components => appendQuoted "," devlist (devDescription it.1 it.2 components))
    hcomponents "", ← foldl_appendQuoted_empty, deviceItems, devicesOf, ← List.foldl_map]
  refine congrArg (fun items : List String => some (items.foldl (appendQuoted ",") "")) ?_
  rw [List.map_flatMap]
  refine congrArg (fun f => (groupsOf areas).flatMap f) (funext fun group => ?_)
  rw [List.map_map]
  rfl

/-! ## The map -/

/-- The devices in the holder of an area. -/
def devicesIn (holders : Holders) (area : String) : List String :=
  ((holders.find? area).map fun bar => bar.devices.map DeviceHolder.device).getD []

variable {gui : GuiFiles} {turns : ℕ} {holders next : Holders} {row : StringPair}

theorem device_deviceHolder {name : String} {holder : DeviceHolder}
    (hholder : gui.deviceHolder turns name = some holder) : holder.device = name := by
  rw [deviceHolder] at hholder
  cases hparts : NameList.init [] name '_' with
  | nil =>
      rw [hparts] at hholder
      cases hholder
  | cons category parts =>
      rw [hparts] at hholder
      obtain ⟨description, -, hholder⟩ := Option.bind_eq_some_iff.mp hholder
      obtain ⟨last, -, rfl⟩ := Option.map_eq_some_iff.mp hholder
      rfl

theorem devices_newBarHolder {area : String} {bar : BarHolder}
    (hbar : gui.newBarHolder turns area = some bar) : bar.devices = [] := by
  obtain ⟨description, -, rfl⟩ := Option.map_eq_some_iff.mp hbar
  rfl

/-- A turn adds the device to its area, which is new if it has no holder. -/
theorem addPair_eq_some (hnext : gui.addPair turns holders row = some next) :
    (∀ area, next.contains area = true ↔ holders.contains area = true ∨ row.second = area) ∧
      ∀ area, devicesIn next area =
        devicesIn holders area ++ if row.second = area then [row.first] else [] := by
  rw [addPair] at hnext
  obtain ⟨bar, hbar, hnext⟩ := Option.bind_eq_some_iff.mp hnext
  obtain ⟨holder, hholder, rfl⟩ := Option.map_eq_some_iff.mp hnext
  refine ⟨fun area => ?_, fun area => ?_⟩
  · rw [SortedMap.contains_insert, or_comm, eq_comm]
  · have hold : devicesIn holders row.second = bar.devices.map DeviceHolder.device := by
      rw [devicesIn]
      cases hfind : holders.find? row.second with
      | some own =>
          simp only [hfind, Option.some.injEq] at hbar
          rw [hbar]
          rfl
      | none =>
          simp only [hfind] at hbar
          rw [devices_newBarHolder hbar]
          rfl
    by_cases harea : row.second = area
    · subst harea
      rw [devicesIn, SortedMap.find?_insert_self, if_pos rfl, hold]
      simp [device_deviceHolder hholder]
    · rw [devicesIn, SortedMap.find?_insert_of_ne _ _ harea, if_neg harea, List.append_nil,
        devicesIn]

/-- After the loop the areas are those of the pairs, with their devices one after the other. -/
theorem foldlM_addPair_eq_some {rows : List StringPair} {last : Holders}
    (hlast : rows.foldlM (gui.addPair turns) holders = some last) :
    (∀ area, last.contains area = true ↔
        holders.contains area = true ∨ ∃ row ∈ rows, row.second = area) ∧
      ∀ area, devicesIn last area = devicesIn holders area ++
        (rows.filter fun row => row.second = area).map StringPair.first := by
  induction rows generalizing holders with
  | nil =>
      obtain rfl := Option.some.inj hlast
      simp
  | cons row rest ih =>
      rw [List.foldlM_cons, Option.bind_eq_bind, Option.bind_eq_some_iff] at hlast
      obtain ⟨next, hnext, hrest⟩ := hlast
      obtain ⟨hareas, hdevices⟩ := addPair_eq_some hnext
      obtain ⟨hlastAreas, hlastDevices⟩ := ih hrest
      refine ⟨fun area => ?_, fun area => ?_⟩
      · rw [hlastAreas, hareas, or_assoc, List.exists_mem_cons_iff]
      · rw [hlastDevices, hdevices, List.append_assoc]
        by_cases harea : row.second = area
        · rw [if_pos harea, List.filter_cons_of_pos (by simpa using harea), List.map_cons,
            List.singleton_append]
        · rw [if_neg harea, List.filter_cons_of_neg (by simpa using harea), List.nil_append]

theorem isSome_addPair :
    (gui.addPair turns holders row).isSome ↔
      (holders.contains row.second = true ∨ (gui.newBarHolder turns row.second).isSome) ∧
        (gui.deviceHolder turns row.first).isSome := by
  rw [addPair, SortedMap.contains]
  cases hfind : holders.find? row.second with
  | some bar => simp
  | none =>
      cases gui.newBarHolder turns row.second with
      | none => simp
      | some bar => simp

/-- The loop comes to an end if each holder that it makes can be made. -/
theorem isSome_foldlM_addPair (rows : List StringPair) (holders : Holders) :
    (rows.foldlM (gui.addPair turns) holders).isSome ↔ ∀ row ∈ rows,
      (holders.contains row.second = true ∨ (gui.newBarHolder turns row.second).isSome) ∧
        (gui.deviceHolder turns row.first).isSome := by
  induction rows generalizing holders with
  | nil => simp
  | cons row rest ih =>
      rw [List.foldlM_cons, List.forall_mem_cons, ← isSome_addPair]
      cases hnext : gui.addPair turns holders row with
      | none => simp
      | some next =>
          have hareas := (addPair_eq_some hnext).1
          have hrow := isSome_addPair.mp (Option.isSome_iff_exists.mpr ⟨next, hnext⟩)
          rw [Option.bind_eq_bind, Option.bind_some, ih, Option.isSome_some,
            and_iff_right rfl]
          refine forall₂_congr fun other _ => and_congr_left fun _ => ?_
          rw [hareas]
          constructor
          · rintro ((hcontains | harea) | hbar)
            · exact Or.inl hcontains
            · exact harea ▸ hrow.1
            · exact Or.inr hbar
          · rintro (hcontains | hbar)
            · exact Or.inl (Or.inl hcontains)
            · exact Or.inr hbar

theorem mem_groupsOf {group : String × List String} (hgroup : group ∈ groupsOf holders) :
    holders.contains group.1 = true ∧ group.2 = devicesIn holders group.1 := by
  obtain ⟨⟨area, bar⟩, hentry, rfl⟩ := List.mem_map.mp hgroup
  have hfind := (holders.mem_entries_iff area bar).mp hentry
  rw [SortedMap.contains, devicesIn, hfind]
  exact ⟨rfl, rfl⟩

theorem mem_areas_iff (area : String) :
    area ∈ (groupsOf holders).map Prod.fst ↔ holders.contains area = true := by
  rw [← SortedMap.mem_keys_iff_contains, groupsOf, SortedMap.keys, List.map_map]
  rfl

/-- The map arranges the upload exactly if the loop begins with its first pair. -/
theorem arranges_iff {start : ℕ} {rows : List StringPair}
    (hholders : (rows.drop start).foldlM (gui.addPair turns) SortedMap.empty = some holders) :
    Arranges rows (groupsOf holders) ↔ start = 0 ∨ rows = [] := by
  obtain ⟨hareas, hdevices⟩ := foldlM_addPair_eq_some hholders
  constructor
  · intro h
    cases rows with
    | nil => exact Or.inr rfl
    | cons row rest =>
        left
        cases start with
        | zero => rfl
        | succ n =>
            -- the holder of the first pair's area is one device short
            obtain ⟨group, hgroup, harea⟩ :=
              List.mem_map.mp ((h.areas row.second).mpr ⟨row, List.mem_cons_self, rfl⟩)
            have hall := h.devices group hgroup
            rw [(mem_groupsOf hgroup).2, hdevices, List.drop_succ_cons, harea,
              List.filter_cons_of_pos (by simp)] at hall
            have hlength := congrArg List.length hall
            have hless := ((List.drop_sublist n rest).filter
              fun other => decide (other.second = row.second)).length_le
            simp only [List.length_append, List.length_map, List.length_cons, devicesIn,
              SortedMap.find?_empty, Option.map_none, Option.getD_none, List.length_nil] at hlength
            omega
  · intro hstart
    have hrows : rows.drop start = rows := by
      rcases hstart with rfl | rfl
      · rfl
      · exact List.drop_nil
    rw [hrows] at hareas hdevices
    refine ⟨?_, fun area => ?_, fun group hgroup => ?_⟩
    · have hkeys := holders.nodup_keys
      rw [groupsOf, List.map_map]
      exact hkeys
    · rw [mem_areas_iff, hareas]
      simp [SortedMap.contains]
    · rw [(mem_groupsOf hgroup).2, hdevices]
      rfl

end GuiFiles

end Hat
