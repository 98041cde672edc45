import Hat.WSServer.ZoneUpdate

/-!
# The list of zones over many updates

A zone that is added is found by its name from then on, and the list ends at the same bracket.  So
it is enough that the file tells of every name that is given whether it is listed, and that a
zone fits into it once.
-/

namespace Hat

open Hat.Hsrv Hat.Json AlarmManager

namespace ZonesFile

/-- The names can be written as they are, the text tells which of them are listed, and if one is
not, the list ends at the first closing bracket and is not empty with much space in it. -/
structure Suits (file : ZonesFile) (names : List String) : Prop where
  plain : ∀ newz ∈ names, PlainText standard (FileManager.getStem newz)
  tells : ∀ newz ∈ names,
    (newname newz).toList <:+: file.chars ↔ FileManager.getStem newz ∈ zoneNames file.zones
  once : ∀ newz ∈ names, (zoneNames file.zones).count (FileManager.getStem newz) ≤ 1
  fits : (∀ newz ∈ names, FileManager.getStem newz ∈ zoneNames file.zones) ∨
    (']' ∉ file.front ++ file.inner ∧ (file.zones = [] → file.inner.length ≤ 1))

variable {file : ZonesFile} {newz : String}

theorem finds_iff (file : ZonesFile) (newz : String) :
    finds file.text (newname newz) = true ↔ (newname newz).toList <:+: file.chars := by
  rw [finds, findsChars_eq_isSome, isSome_firstPlace_iff, text, String.toList_ofList]

theorem text_ne (file : ZonesFile) : file.text ≠ "Not Found" := by
  intro htext
  have hbracket : '[' ∈ file.text.toList := by
    rw [text, String.toList_ofList, chars]
    simp
  rw [htext] at hbracket
  exact absurd hbracket (by decide)

theorem zoneUpdate_of_found (hfound : (newname newz).toList <:+: file.chars) :
    zoneUpdate (some file.text) newz = (true, some file.text) := by
  have hfinds := (file.finds_iff newz).mpr hfound
  simp only [zoneUpdate, Option.getD_some]
  rw [if_neg file.text_ne, if_pos hfinds]

/-- What is written if the name is not found and the list ends at the first bracket. -/
theorem zoneUpdate_of_absent (hfound : ¬(newname newz).toList <:+: file.chars)
    (hbracket : ']' ∉ file.front ++ file.inner) {comma : List Char}
    (hcomma : commaBehind (file.front ++ '[' :: file.inner) = String.ofList comma) :
    zoneUpdate (some file.text) newz = (true, some (String.ofList
      (file.front ++ '[' :: file.inner ++ (comma ++ (newzone newz).toList) ++
        ']' :: (file.back ++ ['\n'])))) := by
  have hchars : file.text.toList = file.front ++ '[' :: file.inner ++ ']' :: file.back := by
    rw [text, String.toList_ofList, chars]
    simp
  have hbefore : ∀ c ∈ file.front ++ '[' :: file.inner, decide (c ≠ ']') = true := by
    intro c hc
    refine decide_eq_true ?_
    rintro rfl
    rw [List.mem_append, List.mem_cons] at hc
    rw [List.mem_append] at hbracket
    exact hbracket (hc.imp_right fun h => h.resolve_left (by decide))
  have htake : file.text.toList.takeWhile (· ≠ ']') = file.front ++ '[' :: file.inner := by
    rw [hchars, List.takeWhile_append_of_pos hbefore, List.takeWhile_cons_of_neg (by decide),
      List.append_nil]
  have hdrop : file.text.toList.dropWhile (· ≠ ']') = ']' :: file.back := by
    rw [hchars, List.dropWhile_append_of_pos hbefore, List.dropWhile_cons_of_neg (by decide)]
  have hfinds : finds file.text (newname newz) ≠ true :=
    fun h => hfound ((file.finds_iff newz).mp h)
  simp only [zoneUpdate, Option.getD_some]
  rw [if_neg file.text_ne, if_neg hfinds, htake, hdrop, hcomma, mkResource]
  refine congrArg (fun written => (true, some written)) (String.toList_injective ?_)
  simp

/-- A further zone fits behind the comma that is set. -/
theorem exists_comma (hplain : PlainText standard (FileManager.getStem newz))
    (hempty : file.zones = [] → file.inner.length ≤ 1) :
    ∃ comma : List Char, (comma = [] ∨ comma = [',']) ∧
      commaBehind (file.front ++ '[' :: file.inner) = String.ofList comma ∧
      ∀ other, Items standard (file.inner ++ (comma ++ (newzone newz).toList) ++ ']' :: other)
        (file.zones ++ [zoneEntry (FileManager.getStem newz)]) other := by
  by_cases hzones : file.zones = []
  · refine ⟨[], Or.inl rfl, file.commaBehind_of_nil hzones (hempty hzones), fun other => ?_⟩
    have hitems := file.items
    rw [hzones] at hitems
    have hitem := Items.last (blank_append hitems.blank_of_nil _)
      (reads_newzone hplain (']' :: other)) (.none _)
    rw [hzones]
    simpa [zoneEntry] using hitem
  · refine ⟨[','], Or.inr rfl, file.commaBehind_of_ne_nil hzones, fun other => ?_⟩
    have hitem := file.items.append hzones (reads_newzone hplain) other
    simpa [zoneEntry] using hitem

/-- A step keeps the file well formed and suits the same names. -/
theorem exists_zoneUpdate {names : List String}
    (hnames : ∀ newz ∈ names, ']' ∉ (FileManager.getStem newz).toList)
    (hsuits : file.Suits names) (hnewz : newz ∈ names) :
    ∃ next : ZonesFile, zoneUpdate (some file.text) newz = (true, some next.text) ∧
      next.Suits names ∧ next.zones = withZone file.zones (FileManager.getStem newz) := by
  by_cases hlisted : FileManager.getStem newz ∈ zoneNames file.zones
  · exact ⟨file, zoneUpdate_of_found ((hsuits.tells newz hnewz).mpr hlisted), hsuits,
      (if_pos hlisted).symm⟩
  · have hfound : ¬(newname newz).toList <:+: file.chars :=
      fun h => hlisted ((hsuits.tells newz hnewz).mp h)
    obtain ⟨hbracket, hempty⟩ := hsuits.fits.resolve_left fun hall => hlisted (hall newz hnewz)
    obtain ⟨comma, hcomma, hset, hitems⟩ := exists_comma (hsuits.plain newz hnewz) hempty
    have hobjects : ∀ zone ∈ file.zones ++ [zoneEntry (FileManager.getStem newz)],
        (zone.2.get "name").isSome ∧ (zone.2.get "enable_status").isSome := by
      rw [List.forall_mem_append, List.forall_mem_singleton]
      exact ⟨file.objects, rfl, rfl⟩
    obtain ⟨next, hfront, hinner, hback, hzones⟩ := file.exists_place hitems hobjects
    have hchars : next.chars = file.front ++ '[' :: file.inner ++
        (comma ++ (newzone newz).toList) ++ ']' :: (file.back ++ ['\n']) := by
      rw [chars, hfront, hinner, hback]
      simp
    have hnames' : zoneNames next.zones = zoneNames file.zones ++ [FileManager.getStem newz] := by
      rw [hzones, zoneNames, List.map_append]
      rfl
    refine ⟨next, ?_, ⟨hsuits.plain, fun given hgiven => ?_, fun given hgiven => ?_, ?_⟩, ?_⟩
    · rw [zoneUpdate_of_absent hfound hbracket hset, text, hchars]
    · rw [hchars, infix_newname_iff file.outside_inner hcomma (hsuits.plain newz hnewz)
        (hsuits.plain given hgiven) (hnames given hgiven), hnames', List.mem_append,
        List.mem_singleton, ← hsuits.tells given hgiven, chars]
      simp
    · rw [hnames', List.count_append]
      by_cases hsame : FileManager.getStem newz = FileManager.getStem given
      · rw [← hsame, List.count_eq_zero_of_not_mem hlisted, List.count_singleton_self]
      · rw [List.count_singleton, if_neg (by simpa using hsame)]
        exact hsuits.once given hgiven
    · right
      rw [hfront, hinner, hzones]
      refine ⟨?_, fun hnil => absurd hnil (by simp)⟩
      have hbehind : ']' ∉ comma ++ (newzone newz).toList := by
        rw [List.mem_append, not_or]
        refine ⟨?_, notMem_newzone (hnames newz hnewz) (by decide)⟩
        rcases hcomma with rfl | rfl <;> decide
      rw [← List.append_assoc, List.mem_append, not_or]
      exact ⟨hbracket, hbehind⟩
    · rw [hzones, withZone, if_neg hlisted]

/-! ## Many updates -/

/-- What holds of the file after some updates: it is well formed, has every name that was given
once, and the zones that were there before in front, and a name that is given again changes
nothing. -/
structure Keeps (file last : ZonesFile) (given : List String) : Prop where
  document : ∃ tree, Document standard last.chars tree
  once : ∀ newz ∈ given, (zoneNames last.zones).count (FileManager.getStem newz) = 1
  zones : file.zones <+: last.zones
  again : ∀ newz ∈ given, zoneUpdate (some last.text) newz = (true, some last.text)

def withZones (zones : List (String × PTree)) (given : List String) : List (String × PTree) :=
  given.foldl (fun zones newz => withZone zones (FileManager.getStem newz)) zones

theorem prefix_withZone (zones : List (String × PTree)) (name : String) :
    zones <+: withZone zones name := by
  rw [withZone]
  split_ifs
  · exact List.prefix_refl zones
  · exact List.prefix_append zones _

theorem mem_withZone (zones : List (String × PTree)) (name : String) :
    name ∈ zoneNames (withZone zones name) := by
  rw [withZone]
  split_ifs with hlisted
  · exact hlisted
  · rw [zoneNames, List.map_append, List.mem_append]
    exact Or.inr (List.mem_singleton.mpr rfl)

theorem prefix_withZones (zones : List (String × PTree)) (given : List String) :
    zones <+: withZones zones given := by
  induction given generalizing zones with
  | nil => exact List.prefix_refl zones
  | cons newz rest ih => exact (prefix_withZone zones _).trans (ih _)

theorem mem_withZones (zones : List (String × PTree)) {given : List String} (hnewz : newz ∈ given) :
    FileManager.getStem newz ∈ zoneNames (withZones zones given) := by
  induction given generalizing zones with
  | nil => exact absurd hnewz List.not_mem_nil
  | cons first rest ih =>
      rcases List.mem_cons.mp hnewz with rfl | hrest
      · have hstarts := prefix_withZones (withZone zones (FileManager.getStem newz)) rest
        exact (hstarts.map _).subset (mem_withZone zones _)
      · exact ih _ hrest

variable {names given : List String}

/-- The updates of a file that suits their names are those of its list. -/
theorem exists_updates (hnames : ∀ newz ∈ names, ']' ∉ (FileManager.getStem newz).toList)
    (hsuits : file.Suits names) (hgiven : given ⊆ names) :
    ∃ last : ZonesFile, updates (some file.text) given = some last.text ∧ last.Suits names ∧
      last.zones = withZones file.zones given := by
  induction given generalizing file with
  | nil => exact ⟨file, rfl, hsuits, rfl⟩
  | cons newz rest ih =>
      obtain ⟨hnewz, hrest⟩ := List.cons_subset.mp hgiven
      obtain ⟨next, hupdate, hnext, hzones⟩ := exists_zoneUpdate hnames hsuits hnewz
      obtain ⟨last, hlast, hlastSuits, hlastZones⟩ := ih hnext hrest
      refine ⟨last, ?_, hlastSuits, ?_⟩
      · rw [updates, List.foldl_cons, hupdate]
        exact hlast
      · rw [hlastZones, hzones]
        rfl

/-- A file that suits the names that are given is kept in every state of the run. -/
theorem exists_keeps (file : ZonesFile) (names : List String)
    (hnames : ∀ newz ∈ names, ']' ∉ (FileManager.getStem newz).toList)
    (hsuits : file.Suits names) :
    ∀ given, given <+: names →
      ∃ last : ZonesFile, updates (some file.text) given = some last.text ∧
        file.Keeps last given := by
  intro given hgiven
  obtain ⟨last, hlast, hlastSuits, hzones⟩ := exists_updates hnames hsuits hgiven.subset
  have hlisted : ∀ newz ∈ given, FileManager.getStem newz ∈ zoneNames last.zones := by
    intro newz hnewz
    rw [hzones]
    exact mem_withZones file.zones hnewz
  refine ⟨last, hlast, last.exists_document, fun newz hnewz => ?_, ?_, fun newz hnewz => ?_⟩
  · have hpos := List.count_pos_iff.mpr (hlisted newz hnewz)
    have hle := hlastSuits.once newz (hgiven.subset hnewz)
    omega
  · rw [hzones]
    exact prefix_withZones file.zones given
  · exact zoneUpdate_of_found ((hlastSuits.tells newz (hgiven.subset hnewz)).mpr
      (hlisted newz hnewz))

theorem plain_zones : PlainText standard "zones" := by
  decide

theorem isBlank_blanks : ∀ c ∈ [' ', ' '], IsBlank c := by
  simp [IsBlank]

/-- The file that is made at first, with white space in its empty list. -/
def emptyZones (inner : List Char) (hinner : ∀ c ∈ inner, IsBlank c) : ZonesFile where
  front := openBrace :: quote :: ("zones".toList ++ [quote, ':', ' '])
  inner := inner
  back := [closeBrace]
  zones := []
  first := openBrace :: quote :: ("zones".toList ++ [quote, ':', ' ']) ++
    '[' :: (inner ++ [']', closeBrace])
  after := []
  opens := .none _
  around := by
    have hname : Literal standard ("zones".toList ++ quote :: (':' :: ' ' :: '[' ::
        (inner ++ [']', closeBrace]))) "zones".toList _ :=
      literal_of_plain plain_zones _
    have hlead := Leading.value (.none _) hname (.none _) (.skip (Or.inl rfl) (.none _))
    have haround := Around.inside hlead (.here _ [closeBrace]) (.close (.none _))
    simpa using haround
  closes := .none _
  items := .nil (blank_append hinner _)
  objects := fun zone hzone => absurd hzone List.not_mem_nil

theorem exists_keeps_hall : ∃ last : ZonesFile,
    updates (some (emptyZones [] (List.forall_mem_nil _)).text) ["hall", "garden", "hall"] =
        some last.text ∧
      (emptyZones [] (List.forall_mem_nil _)).Keeps last ["hall", "garden", "hall"] :=
  exists_keeps _ _ (by decide) ⟨by decide, by decide, by decide, Or.inr ⟨by decide, by decide⟩⟩ _
    (List.prefix_refl _)

/-- What is written behind two blanks in an empty list. -/
def blankList : List Char :=
  openBrace :: quote :: ("zones".toList ++ [quote, ':', ' ', '[', ' ', ' ', ','] ++
    (newzone "hall").toList ++ [']', closeBrace, '\n'])

theorem not_items_comma {blanks text rest : List Char} {items : List (String × PTree)}
    (hblanks : ∀ c ∈ blanks, IsBlank c) : ¬Items standard (blanks ++ ',' :: text) items rest := by
  intro h
  have hcomma := blank_append hblanks (',' :: text)
  have hreads : ∀ {first tree after}, Blank (blanks ++ ',' :: text) first →
      ¬Reads standard first tree after := by
    intro first tree after hblank hread
    obtain ⟨c, behind, rfl, hc, hne, -⟩ := hread.exists_cons
    exact hne (List.cons.inj (hblank.unique hcomma hc (by decide))).1
  cases h with
  | nil hblank =>
      have hbracket := hblank.unique hcomma (by decide) (by decide)
      exact absurd (List.cons.inj hbracket).1 (by decide)
  | last hblank hread _ => exact hreads hblank hread
  | more hblank hread _ _ => exact hreads hblank hread

/-- A list that begins with a comma is none. -/
theorem not_document_blankList : ¬∃ tree, Document standard blankList tree := by
  rintro ⟨tree, first, after, hblank, hread, -⟩
  rw [blankList] at hblank
  rw [hblank.eq_of_not (by decide)] at hread
  obtain ⟨members, -, hmembers⟩ := hread.members
  obtain ⟨text, htext⟩ : ∃ text, "zones".toList ++ [quote, ':', ' ', '[', ' ', ' ', ','] ++
      (newzone "hall").toList ++ [']', closeBrace, '\n'] =
        "zones".toList ++ quote :: (':' :: ' ' :: '[' :: ([' ', ' '] ++ ',' :: text)) :=
    ⟨(newzone "hall").toList ++ [']', closeBrace, '\n'], by simp⟩
  rw [htext] at hmembers
  have hmember : ∃ member behind, Member standard (quote :: ("zones".toList ++
      quote :: (':' :: ' ' :: '[' :: ([' ', ' '] ++ ',' :: text)))) member behind := by
    generalize hfull : quote :: ("zones".toList ++ quote :: (':' :: ' ' :: '[' ::
      ([' ', ' '] ++ ',' :: text))) = full at hmembers
    cases hmembers with
    | nil hend =>
        rw [← hfull] at hend
        exact absurd (List.cons.inj (hend.eq_of_not (by decide))).1 (by decide)
    | last h => exact ⟨_, _, h⟩
    | more h _ => exact ⟨_, _, h⟩
  obtain ⟨member, behind, hmember⟩ := hmember
  cases hmember with
  | mk hopen hname hcolon hvalue htree _ =>
      rw [(List.cons.inj (hopen.eq_of_not (by decide))).2] at hname
      obtain ⟨-, rfl⟩ := hname.eq_of_plain plain_zones
      rw [(List.cons.inj (hcolon.eq_of_not (by decide))).2] at hvalue
      obtain ⟨c, rest, rfl, hc, -⟩ := htree.exists_cons
      have hbracket := hvalue.unique (.skip (Or.inl rfl) (.none ('[' :: _))) hc (by decide)
      rw [hbracket] at htree
      obtain ⟨items, -, hitems⟩ := htree.items
      exact not_items_comma isBlank_blanks hitems

theorem not_keeps_blanks : ¬∃ last : ZonesFile,
    updates (some (emptyZones [' ', ' '] isBlank_blanks).text) ["hall"] = some last.text ∧
      (emptyZones [' ', ' '] isBlank_blanks).Keeps last ["hall"] := by
  rintro ⟨last, hlast, hkeeps⟩
  have hwritten : updates (some (emptyZones [' ', ' '] isBlank_blanks).text) ["hall"] =
      some (String.ofList blankList) := by
    decide
  rw [hwritten, text, Option.some.injEq, String.ofList_inj] at hlast
  have hdocument := hkeeps.document
  rw [← hlast] at hdocument
  exact not_document_blankList hdocument

end ZonesFile

end Hat
