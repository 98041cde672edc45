import Hat.WSServer.GuiLists

/-!
# The page shows every pair of the upload

The loops over the names end where their texts let them, and the map then has every pair.  The
lists made from it get to their own places in the template where no mark comes up in front of
its place.
-/

namespace Hat

open Hat.Hsrv

theorem replaceLoop_mono {turns more : ℕ} {mark name text last : String}
    (hlast : replaceLoop turns mark name text = some last) (hle : turns ≤ more) :
    replaceLoop more mark name text = some last :=
  WhileLoop.run_mono hlast hle

theorem isSome_replaceLoop (turns : ℕ) (mark name text : String) :
    (replaceLoop turns mark name text).isSome =
      (WhileLoop.run (Placeholders.turn mark.toList name.toList) turns text.toList).isSome := by
  rw [← map_replaceLoop, Option.isSome_map]

theorem exists_replaceLoop_iff {mark : String} (rest : List Char)
    (hmark : mark.toList = '$' :: rest) (hsign : '$' ∉ rest) (name text : String) :
    (∃ turns, (replaceLoop turns mark name text).isSome) ↔ LoopEnds mark name text := by
  have hends := Placeholders.exists_run_iff hsign name.toList text.toList
  rw [LoopEnds]
  simp only [isSome_replaceLoop, hmark]
  exact hends

namespace GuiFiles

variable {gui : GuiFiles} {turns more start : ℕ} {rows : List StringPair}

theorem newBarHolder_mono {area : String} {bar : BarHolder}
    (hbar : gui.newBarHolder turns area = some bar) (hle : turns ≤ more) :
    gui.newBarHolder more area = some bar := by
  obtain ⟨description, hdescription, rfl⟩ := Option.map_eq_some_iff.mp hbar
  rw [newBarHolder, replaceLoop_mono hdescription hle, Option.map_some]

theorem deviceHolder_mono {name : String} {holder : DeviceHolder}
    (hholder : gui.deviceHolder turns name = some holder) (hle : turns ≤ more) :
    gui.deviceHolder more name = some holder := by
  rw [deviceHolder] at hholder ⊢
  cases hparts : NameList.init [] name '_' with
  | nil =>
      rw [hparts] at hholder
      cases hholder
  | cons category parts =>
      rw [hparts] at hholder
      obtain ⟨description, hdescription, hholder⟩ := Option.bind_eq_some_iff.mp hholder
      obtain ⟨last, hlast, rfl⟩ := Option.map_eq_some_iff.mp hholder
      simp only [replaceLoop_mono hdescription hle, Option.bind_some,
        replaceLoop_mono hlast hle, Option.map_some]

theorem addPair_mono {holders next : Holders} {row : StringPair}
    (hnext : gui.addPair turns holders row = some next) (hle : turns ≤ more) :
    gui.addPair more holders row = some next := by
  rw [addPair] at hnext ⊢
  obtain ⟨bar, hbar, hnext⟩ := Option.bind_eq_some_iff.mp hnext
  obtain ⟨holder, hholder, rfl⟩ := Option.map_eq_some_iff.mp hnext
  refine Option.bind_eq_some_iff.mpr ⟨bar, ?_, ?_⟩
  · cases hfind : holders.find? row.second with
    | some own => rwa [hfind] at hbar
    | none =>
        rw [hfind] at hbar
        exact newBarHolder_mono hbar hle
  · rw [deviceHolder_mono hholder hle, Option.map_some]

theorem foldlM_addPair_mono {holders last : Holders}
    (hlast : rows.foldlM (gui.addPair turns) holders = some last) (hle : turns ≤ more) :
    rows.foldlM (gui.addPair more) holders = some last := by
  induction rows generalizing holders with
  | nil => exact hlast
  | cons row rest ih =>
      rw [List.foldlM_cons, Option.bind_eq_bind, Option.bind_eq_some_iff] at hlast
      obtain ⟨next, hnext, hrest⟩ := hlast
      rw [List.foldlM_cons, addPair_mono hnext hle]
      exact ih hrest

/-- An upload leads to one map only. -/
theorem Leads.unique {first second : Holders} (hfirst : gui.Leads rows first)
    (hsecond : gui.Leads rows second) : first = second := by
  obtain ⟨n, hn⟩ := hfirst
  obtain ⟨m, hm⟩ := hsecond
  have hleft := foldlM_addPair_mono hn (le_max_left n m)
  have hright := foldlM_addPair_mono hm (le_max_right n m)
  exact Option.some.inj (hleft.symm.trans hright)

theorem exists_newBarHolder_iff (area : String) :
    (∃ turns, (gui.newBarHolder turns area).isSome) ↔
      LoopEnds "$AREA" area (gui.getProto (gui.configdir ++ "/guitemplates/barholder.html")) := by
  rw [← exists_replaceLoop_iff "AREA".toList rfl (by decide)]
  refine exists_congr fun turns => ?_
  rw [newBarHolder, Option.isSome_map]

theorem exists_deviceHolder_iff (name : String) :
    (∃ turns, (gui.deviceHolder turns name).isSome) ↔ gui.DeviceEnds name := by
  constructor
  · rintro ⟨turns, hturns⟩
    obtain ⟨holder, hholder⟩ := Option.isSome_iff_exists.mp hturns
    rw [deviceHolder] at hholder
    cases hparts : NameList.init [] name '_' with
    | nil =>
        rw [hparts] at hholder
        cases hholder
    | cons category parts =>
        rw [hparts] at hholder
        obtain ⟨description, hdescription, hholder⟩ := Option.bind_eq_some_iff.mp hholder
        obtain ⟨last, hlast, -⟩ := Option.map_eq_some_iff.mp hholder
        refine ⟨category, parts, hparts, ?_, fun more text htext => ?_⟩
        · rw [← exists_replaceLoop_iff "CAT".toList rfl (by decide)]
          exact ⟨turns, Option.isSome_iff_exists.mpr ⟨description, hdescription⟩⟩
        · have hleft := replaceLoop_mono hdescription (le_max_left turns more)
          have hright := replaceLoop_mono htext (le_max_right turns more)
          obtain rfl := Option.some.inj (hleft.symm.trans hright)
          rw [← exists_replaceLoop_iff "NAME".toList rfl (by decide)]
          exact ⟨turns, Option.isSome_iff_exists.mpr ⟨last, hlast⟩⟩
  · rintro ⟨category, parts, hparts, hcategory, hname⟩
    rw [← exists_replaceLoop_iff "CAT".toList rfl (by decide)] at hcategory
    obtain ⟨n, hn⟩ := hcategory
    obtain ⟨description, hdescription⟩ := Option.isSome_iff_exists.mp hn
    have hrest := hname n description hdescription
    rw [← exists_replaceLoop_iff "NAME".toList rfl (by decide)] at hrest
    obtain ⟨m, hm⟩ := hrest
    obtain ⟨last, hlast⟩ := Option.isSome_iff_exists.mp hm
    refine ⟨max n m, ?_⟩
    rw [deviceHolder, hparts]
    simp only [replaceLoop_mono hdescription (le_max_left n m), Option.bind_some,
      replaceLoop_mono hlast (le_max_right n m), Option.map_some, Option.isSome_some]

theorem mem_devicesOf {groups : List (String × List String)} {it : String × String}
    (harranges : Arranges rows groups) (hit : it ∈ devicesOf groups) :
    ∃ row ∈ rows, row.first = it.2 := by
  obtain ⟨group, hgroup, hit⟩ := List.mem_flatMap.mp hit
  obtain ⟨device, hdevice, rfl⟩ := List.mem_map.mp hit
  rw [harranges.devices group hgroup] at hdevice
  obtain ⟨row, hrow, hfirst⟩ := List.mem_map.mp hdevice
  exact ⟨row, List.mem_of_mem_filter hrow, hfirst⟩

/-- Each pair has its device in the group of its area. -/
theorem mem_devicesOf_of_mem {groups : List (String × List String)} {row : StringPair}
    (harranges : Arranges rows groups) (hrow : row ∈ rows) :
    (row.second, row.first) ∈ devicesOf groups := by
  obtain ⟨group, hgroup, harea⟩ :=
    List.mem_map.mp ((harranges.areas row.second).mpr ⟨row, hrow, rfl⟩)
  have hdevice : row.first ∈ group.2 := by
    rw [harranges.devices group hgroup]
    exact List.mem_map_of_mem (List.mem_filter.mpr ⟨hrow, by simp [harea]⟩)
  exact List.mem_flatMap.mpr ⟨group, hgroup, List.mem_map.mpr ⟨row.first, hdevice, by rw [harea]⟩⟩

theorem drop_start (hstart : start = 0 ∨ rows = []) : rows.drop start = rows := by
  rcases hstart with rfl | rfl
  · rfl
  · exact List.drop_nil

/-- If each loop over a name ends, some number of turns is enough for all of them. -/
theorem Complete.exists_turns (h : gui.Complete start rows) : ∃ turns, ∀ row ∈ rows,
    (gui.newBarHolder turns row.second).isSome ∧ (gui.deviceHolder turns row.first).isSome := by
  refine WhileLoop.exists_forall_mem (fun n m row hle hrow => ?_) fun row hrow => ?_
  · obtain ⟨bar, hbar⟩ := Option.isSome_iff_exists.mp hrow.1
    obtain ⟨holder, hholder⟩ := Option.isSome_iff_exists.mp hrow.2
    exact ⟨Option.isSome_iff_exists.mpr ⟨bar, newBarHolder_mono hbar hle⟩,
      Option.isSome_iff_exists.mpr ⟨holder, deviceHolder_mono hholder hle⟩⟩
  · obtain ⟨n, hn⟩ := (exists_newBarHolder_iff row.second).mpr (h.areas row hrow)
    obtain ⟨m, hm⟩ := (exists_deviceHolder_iff row.first).mpr (h.devices row hrow)
    obtain ⟨bar, hbar⟩ := Option.isSome_iff_exists.mp hn
    obtain ⟨holder, hholder⟩ := Option.isSome_iff_exists.mp hm
    refine ⟨max n m, ?_, ?_⟩
    · rw [newBarHolder_mono hbar (le_max_left n m), Option.isSome_some]
    · rw [deviceHolder_mono hholder (le_max_right n m), Option.isSome_some]

/-- The loop makes a map of the whole upload, and its devices have their components, exactly if
nothing is left out and the loops over the names end. -/
theorem complete_iff : gui.Complete start rows ↔ ∃ turns holders,
    (rows.drop start).foldlM (gui.addPair turns) SortedMap.empty = some holders ∧
      Arranges rows (groupsOf holders) ∧ (gui.mkDevList holders).isSome := by
  constructor
  · intro h
    obtain ⟨turns, hturns⟩ := h.exists_turns
    have hloop : ((rows.drop start).foldlM (gui.addPair turns) SortedMap.empty).isSome := by
      rw [isSome_foldlM_addPair]
      intro row hrow
      obtain ⟨hbar, hholder⟩ := hturns row (List.mem_of_mem_drop hrow)
      exact ⟨Or.inr hbar, hholder⟩
    obtain ⟨holders, hholders⟩ := Option.isSome_iff_exists.mp hloop
    have harranges := (arranges_iff hholders).mpr h.start
    refine ⟨turns, holders, hholders, harranges, ?_⟩
    rw [gui.mkDevList_eq_some, Option.isSome_some]
    intro it hit
    obtain ⟨row, hrow, hfirst⟩ := mem_devicesOf harranges hit
    exact hfirst ▸ h.components row hrow
  · rintro ⟨turns, holders, hholders, harranges, hdevlist⟩
    have hstart := (arranges_iff hholders).mp harranges
    have hloop := Option.isSome_iff_exists.mpr ⟨holders, hholders⟩
    rw [isSome_foldlM_addPair, drop_start hstart] at hloop
    refine ⟨hstart, fun row hrow => ?_, fun row hrow => ?_, fun row hrow => ?_⟩
    · refine (exists_newBarHolder_iff row.second).mp ⟨turns, (hloop row hrow).1.resolve_left ?_⟩
      simp [SortedMap.contains]
    · exact (exists_deviceHolder_iff row.first).mp ⟨turns, (hloop row hrow).2⟩
    · obtain ⟨devlist, hdevlist⟩ := Option.isSome_iff_exists.mp hdevlist
      rw [gui.mkDevList_eq] at hdevlist
      have hcomponents :=
        isSome_of_foldlM_map _ _ hdevlist _ (mem_devicesOf_of_mem harranges hrow)
      exact hcomponents

/-! ## Lists in their places -/

theorem signed_marks : Placeholders.Signed '$' marks := by
  have hheads : ∀ mark ∈ marks, mark.head? = some '$' ∧ '$' ∉ mark.tail := by decide
  refine ⟨fun mark hmark => ?_, by decide⟩
  obtain ⟨hhead, htail⟩ := hheads mark hmark
  obtain ⟨rest, rfl⟩ := List.head?_eq_some_iff.mp hhead
  exact ⟨rest, rfl, htail⟩

theorem tells_of_head {mark text : List Char} {c : Char} (hmark : mark ∈ marks)
    (hhead : text.head? = some c) (hc : ∀ other ∈ marks, c ∉ other) :
    Placeholders.Tells marks mark text := by
  obtain ⟨rest, rfl⟩ := List.head?_eq_some_iff.mp hhead
  obtain ⟨tail, rfl, -⟩ := signed_marks.head mark hmark
  exact ⟨0, Nat.succ_pos _, c, rest, rfl, hc⟩

theorem tells_buttonList {mark : List Char} (hmark : mark ∈ marks) {areas : List String}
    (hareas : areas ≠ []) : Placeholders.Tells marks mark (buttonList areas).toList := by
  obtain ⟨area, rest, rfl⟩ := List.exists_cons_of_ne_nil hareas
  refine tells_of_head hmark (c := '<') ?_ (by decide)
  simp [buttonList, String.join_cons]

theorem tells_quotedList {mark : List Char} (hmark : mark ∈ marks) (separator : String)
    {items : List String} (hitems : items ≠ []) :
    Placeholders.Tells marks mark (quotedList separator items).toList := by
  obtain ⟨item, rest, rfl⟩ := List.exists_cons_of_ne_nil hitems
  refine tells_of_head hmark (c := '\x22') ?_ (by decide)
  simp [quotedList]

/-- The functions begin with the sign of the marks. -/
theorem tells_showFunctions {mark : List Char} (hmark : mark ∈ marks) {areas : List String}
    (hareas : areas ≠ []) : Placeholders.Tells marks mark (showFunctions areas).toList := by
  obtain ⟨area, rest, rfl⟩ := List.exists_cons_of_ne_nil hareas
  have hlong : 1 < mark.length := by
    revert mark
    decide
  obtain ⟨tail, rfl, -⟩ := signed_marks.head mark hmark
  refine ⟨1, hlong, '(', ("\"#show_" ++ area ++ "\").click(function()\x7bshowOnly(\"" ++ area ++
    "\");\x7d);\n" ++ showFunctions rest).toList, ?_, by decide⟩
  simp [showFunctions, String.join_cons]

/-- The page is the template with all lists in their places exactly if the marks are free. -/
theorem page_eq_iff {holders : Holders} (hholders : (groupsOf holders).map Prod.fst ≠ [])
    (hitems : gui.deviceItems (groupsOf holders) ≠ []) :
    ((gui.fillings holders).foldl (fun page filling => strReplace page filling.1 filling.2)
        gui.pageProto).toList = Placeholders.filled
          (fun mark => ((byLettersOf (gui.fillings holders)).lookup mark).getD mark)
          gui.pagePieces ↔
      Placeholders.Placed (byLettersOf (gui.fillings holders)) gui.pagePieces := by
  have hpage : ((gui.fillings holders).foldl
      (fun page filling => strReplace page filling.1 filling.2) gui.pageProto).toList =
      Placeholders.fillFirsts (byLettersOf (gui.fillings holders)) gui.pageProto.toList := by
    simp only [fillings, byLettersOf, List.map_cons, List.map_nil, List.foldl_cons,
      List.foldl_nil, Placeholders.fillFirsts, toList_strReplace]
  rw [hpage]
  have hnodup : ((byLettersOf (gui.fillings holders).tail).map Prod.fst).Nodup := by
    simp only [fillings, byLettersOf, List.tail_cons, List.map_cons, List.map_nil]
    decide
  have hareas : "$AREAS".toList ∈ marks := by decide
  refine signed_marks.fillFirsts_template_iff hareas hnodup ?_ gui.pageProto.toList
  simp only [fillings, byLettersOf, List.tail_cons, List.map_cons, List.map_nil,
    List.forall_mem_cons]
  exact ⟨⟨by decide, tells_buttonList (by decide) hholders⟩,
    ⟨by decide, tells_showFunctions (by decide) hholders⟩,
    ⟨by decide, tells_quotedList (by decide) "," hitems⟩,
    ⟨by decide, tells_quotedList (by decide) ", " hholders⟩, by simp⟩

variable {body : String}

/-- What the upload leads to. -/
theorem execPut_eq_some_iff (huploaded : gui.uploaded body = some rows) {update : GuiUpdate} :
    gui.execPut turns start body = some update ↔ ∃ holders,
      (rows.drop start).foldlM (gui.addPair turns) SortedMap.empty = some holders ∧
        (gui.mkDevList holders).isSome ∧ update = ⟨holders, gui.configdir ++ "/doc/gui.html",
          (gui.fillings holders).foldl (fun page filling => strReplace page filling.1 filling.2)
            gui.pageProto, (MMessage.mk2 "" "").add "body" (gui.par.get "mkgui_answer")⟩ := by
  rw [execPut, huploaded, Option.bind_eq_bind, Option.bind_some, Option.bind_eq_bind,
    Option.bind_eq_some_iff]
  refine exists_congr fun holders => and_congr_right fun _ => ?_
  cases hdevlist : gui.mkDevList holders with
  | none => simp
  | some devlist =>
      have hcomponents : ∀ it ∈ devicesOf (groupsOf holders), (gui.getComponentOf it.2).isSome := by
        rw [gui.mkDevList_eq] at hdevlist
        exact isSome_of_foldlM_map _ _ hdevlist
      have hitems := gui.mkDevList_eq_some hcomponents
      rw [hdevlist, Option.some.injEq] at hitems
      simp only [hitems, mkButtons_eq, mkAreaList_eq, mkShowfun_eq, Option.bind_eq_bind,
        Option.bind_some, Option.isSome_some, true_and]
      exact ⟨fun h => (Option.some.inj h).symm, fun h => congrArg some h.symm⟩

theorem lists_ne_nil {groups : List (String × List String)} (harranges : Arranges rows groups)
    (hrows : rows ≠ []) : groups.map Prod.fst ≠ [] ∧ gui.deviceItems groups ≠ [] := by
  obtain ⟨row, rest, rfl⟩ := List.exists_cons_of_ne_nil hrows
  have harea := (harranges.areas row.second).mpr ⟨row, List.mem_cons_self, rfl⟩
  refine ⟨List.ne_nil_of_mem harea, ?_⟩
  obtain ⟨group, hgroup, hdevice⟩ :=
    List.mem_flatMap.mp (mem_devicesOf_of_mem harranges List.mem_cons_self)
  obtain ⟨device, hdevice, -⟩ := List.mem_map.mp hdevice
  exact List.ne_nil_of_mem (List.mem_flatMap.mpr ⟨group, hgroup, List.mem_map_of_mem hdevice⟩)

/-- The page shows the upload exactly if the index of the loop happens to begin with zero, the
loops over the names end, and the marks of the template come up in their own places. -/
theorem exists_shows_iff (huploaded : gui.uploaded body = some rows) :
    (∃ turns update, gui.execPut turns start body = some update ∧ gui.Shows rows update) ↔
      gui.Complete start rows ∧ (rows ≠ [] → gui.Fillable rows) := by
  constructor
  · rintro ⟨turns, update, hupdate, hshows⟩
    obtain ⟨holders, hholders, hdevlist, rfl⟩ := (execPut_eq_some_iff huploaded).mp hupdate
    have hcomplete : gui.Complete start rows :=
      complete_iff.mpr ⟨turns, holders, hholders, hshows.arranges, hdevlist⟩
    rw [drop_start hcomplete.start] at hholders
    refine ⟨hcomplete, fun hrows => ⟨hshows.places hrows, fun other hother => ?_⟩⟩
    obtain rfl := hother.unique ⟨turns, hholders⟩
    obtain ⟨hareas, hitems⟩ := lists_ne_nil hshows.arranges hrows
    exact (page_eq_iff hareas hitems).mp (hshows.page hrows)
  · rintro ⟨hcomplete, hfillable⟩
    obtain ⟨turns, holders, hholders, harranges, hdevlist⟩ := complete_iff.mp hcomplete
    refine ⟨turns, _, (execPut_eq_some_iff huploaded).mpr ⟨holders, hholders, hdevlist, rfl⟩,
      harranges, fun hrows => (hfillable hrows).places, fun hrows => ?_⟩
    rw [drop_start hcomplete.start] at hholders
    obtain ⟨hareas, hitems⟩ := lists_ne_nil harranges hrows
    exact (page_eq_iff hareas hitems).mpr ((hfillable hrows).placed holders ⟨turns, hholders⟩)

def lightBody : String :=
  "\x7b\"areas\":[\x7b\"name\":\"LI_hall\",\"area\":\"x$SHOWFUNCTION\"\x7d," ++
    "\x7b\"name\":\"LI_bath\",\"area\":\"ground\"\x7d]\x7d"

/-- The files of a house with two lights, and what is read from its upload. -/
def lightGui : GuiFiles where
  par := ⟨"", [], none, none⟩
  configdir := "conf"
  file name :=
    if name = "conf/guitemplates/gui-proto.html" then
      some "$SHOWFUNCTION[$DEVDESCRIPTION][$AREALIST]$HBUTTONS$AREAS"
    else if name = "conf/guitemplates/barholder.html" then some "<div id=\"$AREA\">$DEVICES</div>"
    else if name = "conf/guitemplates/LI_bholder.html" then some "<div id=\"$CAT_$NAME\"></div>"
    else none
  readJson body :=
    if body = lightBody then
      some (.node "" [("areas", .node "" [
        ("", .node "" [("name", .node "LI_hall" []), ("area", .node "x$SHOWFUNCTION" [])]),
        ("", .node "" [("name", .node "LI_bath" []), ("area", .node "ground" [])])])])
    else none
  forward _ := ""

def lightRows : List StringPair :=
  [⟨"LI_hall", "x$SHOWFUNCTION", "", ""⟩, ⟨"LI_bath", "ground", "", ""⟩]

theorem uploaded_light : lightGui.uploaded lightBody = some lightRows := by
  decide +kernel

theorem loopEnds_of_apart {mark name text : String} (hname : ¬mark.toList <:+: name.toList)
    (hmeets : ¬Placeholders.Meets mark.toList name.toList) : LoopEnds mark name text :=
  fun _ => ⟨hname, fun h => absurd h hmeets⟩

/-- An area may have the text of a mark that stands in front of the place of its button. -/
theorem exists_shows_light : ∃ turns update,
    lightGui.execPut turns 0 lightBody = some update ∧ lightGui.Shows lightRows update := by
  have hcomplete : lightGui.Complete 0 lightRows := by
    refine ⟨Or.inl rfl, ?_, ?_, by decide +kernel⟩
    · simp only [lightRows, List.forall_mem_cons]
      exact ⟨loopEnds_of_apart (by decide) (by decide),
        loopEnds_of_apart (by decide) (by decide), by simp⟩
    · simp only [lightRows, List.forall_mem_cons]
      exact ⟨⟨"LI", ["hall"], by decide +kernel, loopEnds_of_apart (by decide) (by decide),
          fun _ _ _ => loopEnds_of_apart (by decide +kernel) (by decide +kernel)⟩,
        ⟨"LI", ["bath"], by decide +kernel, loopEnds_of_apart (by decide) (by decide),
          fun _ _ _ => loopEnds_of_apart (by decide +kernel) (by decide +kernel)⟩, by simp⟩
  have hfillable : lightGui.Fillable lightRows := by
    have hplaced : (lightRows.foldlM (lightGui.addPair 2) SortedMap.empty).any (fun holders =>
        decide (Placeholders.Placed (byLettersOf (lightGui.fillings holders))
          lightGui.pagePieces)) = true := by
      decide +kernel
    rw [Option.any_eq_true] at hplaced
    obtain ⟨holders, hholders, hplaced⟩ := hplaced
    refine ⟨by decide +kernel, fun other hother => ?_⟩
    rw [hother.unique ⟨2, hholders⟩]
    exact of_decide_eq_true hplaced
  exact (exists_shows_iff uploaded_light).mpr ⟨hcomplete, fun _ => hfillable⟩

/-- A loop that begins behind the first pair leaves it out. -/
theorem not_shows_light : ¬∃ turns update,
    lightGui.execPut turns 1 lightBody = some update ∧ lightGui.Shows lightRows update := by
  rintro ⟨turns, update, hupdate, hshows⟩
  obtain ⟨holders, hholders, hdevlist, rfl⟩ := (execPut_eq_some_iff uploaded_light).mp hupdate
  rcases (arranges_iff hholders).mp hshows.arranges with h | h
  · exact Nat.one_ne_zero h
  · exact List.cons_ne_nil _ _ h

end GuiFiles

end Hat
