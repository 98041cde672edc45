import Hat.WSServer.IndexPieces

/-!
# The index in two views

Devices and rules publish a text or a list of attributes.  The XML page copies the attributes of an
entry, and the JSON page splits them at spaces and at equal signs.  This module determines for
which entries the JSON page is a text of JSON that shows the same.
-/

namespace Hat.IndexPages

open Hat.Json

structure Attributes where
  list : List (String × String)
  nonempty : list ≠ []
  proper : Proper list

/-- What is published under a name. -/
inductive Description
  | text (value : String) (hvalue : '=' ∉ value.toList)
  | attributes (attributes : Attributes)

def Description.toText : Description → String
  | text value _ => value
  | attributes as => NameList.joined (as.list.map attributeText) ' '

/-- The attributes that an item of the XML page has besides its name. -/
def Description.shown : Description → List (String × String)
  | text value _ => [("value", value)]
  | attributes as => as.list

abbrev Published := SortedMap String Description

def Published.toIndex (published : Published) : Index where
  entries := published.entries.map fun entry => (entry.1, entry.2.toText)
  sorted := List.pairwise_map.mpr published.sorted

/-- What the JSON page shows of a description: the value of a text, or the attributes. -/
def Description.tree : Description → PTree
  | text value _ => .node value []
  | attributes as => flatTree as.list

def entryTree (entry : String × Description) : PTree := .node "" [(entry.1, entry.2.tree)]

def indexTree (entries : List (String × Description)) : PTree :=
  .node "" [("list", .node "" (entries.map fun entry => ("", entryTree entry)))]

/-- An item of the XML page with its name and its other attributes. -/
def shownItem (name : String) (attrs : List (String × String)) : String :=
  "<item name=\"" ++ name ++ "\"" ++
    String.join (attrs.map fun attr => " " ++ attributeText attr) ++ "/>\n"

/-- The JSON page is a text of JSON for the names and attributes of the entries. -/
def ShowsSame (published : Published) : Prop :=
  Document standard (jsonIndex published.toIndex).toList (indexTree published.entries)

def Description.Fits : Description → Prop
  | text value _ => PlainText standard value
  | attributes as => ∀ attr ∈ as.list, Unsplit attr.2

def Fits (entry : String × Description) : Prop := PlainText standard entry.1 ∧ entry.2.Fits

theorem toList_jsonPair (i : ℕ) (piece : List Char) (rest : List Char) :
    (jsonPair i (String.ofList piece)).toList ++ rest =
      match pairOf piece with
      | some pair => (if i = 0 then openBrace else ',') :: pairText pair rest
      | none => rest := by
  rw [jsonPair, pairOf]
  by_cases hpiece : piece = []
  · subst hpiece
    rfl
  · have htext : String.ofList piece ≠ "" := by simpa using hpiece
    have hinit : NameList.init [] (String.ofList piece) '=' = (fields piece).map String.ofList := by
      rw [NameList.init, if_neg htext, fields, String.toList_ofList]
    rw [if_neg htext, hinit]
    cases fields piece with
    | nil => rfl
    | cons key parts =>
        cases parts with
        | nil => rfl
        | cons value parts =>
            cases parts with
            | nil =>
                simp only [List.map_cons, List.map_nil]
                by_cases hi : i = 0 <;> simp [hi, pairText, quote, openBrace]
            | cons third parts => rfl

theorem toList_join_jsonPair (pieces : List (List Char)) (i : ℕ) (rest : List Char) :
    (String.join ((pieces.map String.ofList).mapIdx fun k => jsonPair (k + i + 1))).toList ++ rest =
      printed pieces rest := by
  induction pieces generalizing i with
  | nil => rfl
  | cons piece pieces ih =>
      have hindex : (fun k => jsonPair (k + 1 + i + 1)) = fun k => jsonPair (k + (i + 1) + 1) := by
        funext k
        rw [Nat.add_right_comm k 1 i, Nat.add_assoc k i 1]
      rw [List.map_cons, List.mapIdx_cons, String.join_cons, String.toList_append,
        List.append_assoc, hindex, ih, toList_jsonPair, if_neg (Nat.succ_ne_zero _)]
      rfl

theorem splitOn_intercalate_eq_flatMap {delim : Char} {texts : List (List Char)}
    (htexts : texts ≠ []) :
    ([delim].intercalate texts).splitOn delim = texts.flatMap fun text => text.splitOn delim := by
  induction texts with
  | nil => exact absurd rfl htexts
  | cons text texts ih =>
      by_cases hrest : texts = []
      · subst hrest
        simp
      · rw [List.intercalate_cons_of_ne_nil hrest, List.append_assoc, List.singleton_append,
          List.splitOn_append_cons_self, ih hrest, List.flatMap_cons]

theorem getLast?_splitOn_append {delim c : Char} (hc : c ≠ delim) (text : List Char) :
    ((text ++ [c]).splitOn delim).getLast? ≠ some [] := by
  induction text with
  | nil =>
      have hmem : delim ∉ [] ++ [c] := by simpa using Ne.symm hc
      rw [List.splitOn_eq_singleton hmem]
      simp
  | cons d text ih =>
      rw [List.cons_append, List.splitOn_cons_eq_if_modifyHead]
      cases hpieces : (text ++ [c]).splitOn delim with
      | nil => exact absurd hpieces (List.splitOn_ne_nil _ _)
      | cons piece pieces =>
          rw [hpieces] at ih
          split
          · rwa [List.getLast?_cons_cons]
          · cases pieces with
            | nil => simp
            | cons other pieces =>
                rw [List.modifyHead_cons, List.getLast?_cons_cons]
                rwa [List.getLast?_cons_cons] at ih

theorem toList_attributeText (attr : String × String) :
    (attributeText attr).toList = attributeChars attr := by
  simp [attributeText, attributeChars, quote]

theorem joined_attributes {list : List (String × String)} (hlist : list ≠ []) :
    " " ++ NameList.joined (list.map attributeText) ' ' =
      String.join (list.map fun attr => " " ++ attributeText attr) := by
  induction list with
  | nil => exact absurd rfl hlist
  | cons attr list ih =>
      rw [List.map_cons, List.map_cons, String.join_cons]
      by_cases hrest : list = []
      · simp [hrest, NameList.joined_singleton]
      · have hmap : list.map attributeText ≠ [] := by simpa using hrest
        rw [NameList.joined_cons _ hmap, ← ih hrest]
        simp only [String.append_assoc]
        rfl

theorem mem_joined_attributes {list : List (String × String)} (hlist : list ≠ []) :
    '=' ∈ (NameList.joined (list.map attributeText) ' ').toList := by
  obtain ⟨attr, rest, rfl⟩ := List.exists_cons_of_ne_nil hlist
  have hattr : '=' ∈ (attributeText attr).toList := by
    simp [attributeText]
  rw [List.map_cons]
  by_cases hempty : rest.map attributeText = []
  · rwa [hempty, NameList.joined_singleton]
  · rw [NameList.joined_cons _ hempty, String.append_assoc, String.toList_append]
    exact List.mem_append_left _ hattr

/-- The XML page shows what was published. -/
theorem xmlItem_toText (name : String) (description : Description) :
    xmlItem (name, description.toText) = shownItem name description.shown := by
  cases description with
  | text value hvalue =>
      rw [Description.toText, xmlItem, if_pos hvalue, Description.shown, shownItem]
      simp [attributeText, String.append_assoc, ← String.toList_inj]
  | attributes as =>
      have hsign := mem_joined_attributes as.nonempty
      rw [Description.toText, xmlItem, if_neg (not_not.mpr hsign), Description.shown, shownItem,
        ← joined_attributes as.nonempty]
      simp [← String.toList_inj]

theorem init_attributes {list : List (String × String)} (hlist : list ≠ []) :
    NameList.init [] (NameList.joined (list.map attributeText) ' ') ' ' =
      (list.flatMap piecesOf).map String.ofList := by
  have hchars : (NameList.joined (list.map attributeText) ' ').toList.splitOn ' ' =
      list.flatMap piecesOf := by
    rw [NameList.joined, String.toList_ofList,
      splitOn_intercalate_eq_flatMap (by simpa using hlist), List.flatMap_map, List.flatMap_map]
    simp only [toList_attributeText]
    rfl
  -- The last piece ends with a quote.
  have hlast : (list.flatMap piecesOf).getLast? ≠ some [] := by
    have hpieces : ∀ attr, (piecesOf attr).getLast? ≠ some [] := by
      intro attr
      have hattr : attributeChars attr =
          (attr.1.toList ++ '=' :: quote :: attr.2.toList) ++ [quote] := by
        simp [attributeChars]
      rw [piecesOf, hattr]
      exact getLast?_splitOn_append (by decide) _
    have hne : piecesOf (list.getLast hlist) ≠ [] := List.splitOn_ne_nil _ _
    rw [← List.dropLast_append_getLast hlist, List.flatMap_append, List.flatMap_singleton,
      List.getLast?_append_of_ne_nil _ hne]
    exact hpieces _
  have htext : NameList.joined (list.map attributeText) ' ' ≠ "" := by
    intro hempty
    rw [hempty, String.toList_empty, List.splitOn_nil] at hchars
    rw [← hchars] at hlast
    exact hlast rfl
  rw [NameList.init, if_neg htext]
  simp only [hchars, if_neg hlast]

/-- What is written for a description. -/
def itemChars : Description → List Char
  | .text value _ => quote :: (value.toList ++ [quote])
  | .attributes as =>
      match as.list.flatMap piecesOf with
      | [] => [closeBrace]
      | first :: pieces =>
          match pairOf first with
          | some pair => openBrace :: pairText pair (printed pieces [closeBrace])
          | none => printed pieces [closeBrace]

theorem toList_jsonItem (description : Description) :
    (jsonItem description.toText).toList = itemChars description := by
  cases description with
  | text value hvalue =>
      rw [Description.toText, jsonItem, if_pos hvalue]
      simp [itemChars, quote]
  | attributes as =>
      have hsign := mem_joined_attributes as.nonempty
      rw [Description.toText, jsonItem, if_neg (not_not.mpr hsign), init_attributes as.nonempty,
        itemChars]
      cases as.list.flatMap piecesOf with
      | nil => rfl
      | cons first pieces =>
          have hrest := toList_join_jsonPair pieces 0 [closeBrace]
          rw [List.map_cons, List.mapIdx_cons, String.join_cons, String.toList_append,
            String.toList_append, List.append_assoc, toList_jsonPair, if_pos rfl]
          simp only [← hrest]
          rfl

/-! ## Items of the JSON page -/

/-- What is written for the attributes, with what stands behind. -/
theorem itemChars_attributes {as : Attributes} {attr : String × String}
    {list : List (String × String)} (hlist : as.list = attr :: list) (behind : List Char) :
    ∃ first pieces, (attr :: list).flatMap piecesOf = first :: pieces ∧ first ∈ piecesOf attr ∧
      itemChars (.attributes as) ++ behind =
        match pairOf first with
        | some pair => openBrace :: pairText pair (printed pieces (closeBrace :: behind))
        | none => printed pieces (closeBrace :: behind) := by
  cases hpieces : piecesOf attr with
  | nil => exact absurd hpieces (List.splitOn_ne_nil _ _)
  | cons first pieces =>
      have hall : (attr :: list).flatMap piecesOf =
          first :: (pieces ++ list.flatMap piecesOf) := by
        rw [List.flatMap_cons, hpieces, List.cons_append]
      refine ⟨first, _, hall, List.mem_cons_self, ?_⟩
      have hbehind := printed_append (pieces ++ list.flatMap piecesOf) [closeBrace] behind
      rw [List.singleton_append] at hbehind
      rw [itemChars, hlist, hall, hbehind]
      dsimp only
      cases pairOf first with
      | some pair => simp [pairText]
      | none => rfl

theorem exists_itemChars (description : Description) (behind : List Char) :
    ∃ c text, itemChars description ++ behind = c :: text ∧ ¬IsBlank c := by
  cases description with
  | text value hvalue => exact ⟨_, _, rfl, by decide⟩
  | attributes as =>
      obtain ⟨attr, list, hlist⟩ := List.exists_cons_of_ne_nil as.nonempty
      obtain ⟨first, pieces, -, -, hchars⟩ := itemChars_attributes hlist behind
      rw [hchars]
      cases pairOf first with
      | some pair => exact ⟨_, _, rfl, by decide⟩
      | none =>
          obtain ⟨c, text, htext, hc⟩ := exists_printed pieces behind
          exact ⟨c, text, htext, by rcases hc with rfl | rfl <;> decide⟩

theorem fits_of_item {description : Description} {behind rest : List Char}
    (hcloses : Closes (closeBrace :: behind))
    (h : Reads standard (itemChars description ++ behind) description.tree rest) :
    description.Fits ∧ rest = behind := by
  cases description with
  | text value hvalue =>
      rw [itemChars, List.cons_append, List.append_assoc, List.singleton_append] at h
      obtain ⟨content, hcontent, hliteral⟩ := h.literal
      have hdata : value = String.ofList content := congrArg PTree.data hcontent
      have hchars : content = value.toList := by rw [hdata, String.toList_ofList]
      rw [hchars] at hliteral
      obtain ⟨hend, hplain⟩ := hliteral.plain_of_self
      exact ⟨hplain, hend⟩
  | attributes as =>
      obtain ⟨attr, list, hlist⟩ := List.exists_cons_of_ne_nil as.nonempty
      obtain ⟨first, pieces, hpieces, hfirst, hchars⟩ := itemChars_attributes hlist behind
      have hproper : Proper (attr :: list) := hlist ▸ as.proper
      have hname := hproper.names attr List.mem_cons_self
      rw [hchars] at h
      cases hpair : pairOf first with
      | none =>
          -- The brace is only written with the first piece.
          rw [hpair] at h
          obtain ⟨c, text, htext, hc⟩ := exists_printed pieces behind
          obtain ⟨d, after, hdtext, -, hcomma, hbrace⟩ := h.exists_cons
          rw [htext] at hdtext
          rw [(List.cons.inj hdtext).1] at hc
          exact absurd hc (not_or.mpr ⟨hcomma, hbrace⟩)
      | some pair =>
          rw [hpair] at h
          obtain ⟨members, htree, hmembers⟩ := h.members
          have hsame : (as.list.map fun entry => (entry.1, PTree.node entry.2 [])) = members :=
            congrArg PTree.children htree
          rw [← hsame, hlist] at hmembers
          by_cases hsplit : ' ' ∈ attr.2.toList ∨ '=' ∈ attr.2.toList
          · exfalso
            have hmem : first ∈ (attr :: list).flatMap piecesOf := by
              rw [hpieces]
              exact List.mem_cons_self
            obtain ⟨after, hmember⟩ := hmembers.exists_member
            have hbad := fun {d : Char} (hd : d ∈ attr.2.toList) (hd' : d = ' ' ∨ d = '=') =>
              not_member_of_mem hproper hd hd' hmem hpair (hcloses.printed pieces) hmember
            exact hsplit.elim (fun hd => hbad hd (Or.inl rfl)) fun hd => hbad hd (Or.inr rfl)
          · rw [not_or] at hsplit
            rw [List.flatMap_cons, piecesOf_of_notMem hname hsplit.1, List.singleton_append,
              List.cons.injEq] at hpieces
            rw [← hpieces.1, pairOf_attributeChars hname hsplit.2, Option.some.injEq] at hpair
            rw [← hpair, pairText_attribute, ← hpieces.2] at hmembers
            obtain ⟨hplain, hunsplit, hend⟩ := unsplit_of_members hproper hcloses hmembers
            refine ⟨?_, hend⟩
            rw [Description.Fits, hlist]
            exact List.forall_mem_cons.mpr ⟨⟨hplain, hsplit⟩, hunsplit⟩

theorem reads_item {description : Description} (hfits : description.Fits) (behind : List Char) :
    Reads standard (itemChars description ++ behind) description.tree behind := by
  cases description with
  | text value hvalue =>
      have hliteral : Reads standard (quote :: (value.toList ++ quote :: behind))
          (.node (String.ofList value.toList) []) behind :=
        .string (literal_of_plain hfits behind)
      rw [String.ofList_toList] at hliteral
      rw [itemChars, List.cons_append, List.append_assoc, List.singleton_append]
      exact hliteral
  | attributes as =>
      obtain ⟨attr, list, hlist⟩ := List.exists_cons_of_ne_nil as.nonempty
      obtain ⟨first, pieces, hpieces, -, hchars⟩ := itemChars_attributes hlist behind
      have hproper : Proper (attr :: list) := hlist ▸ as.proper
      have hname := hproper.names attr List.mem_cons_self
      rw [Description.Fits, hlist] at hfits
      have hattr := hfits attr List.mem_cons_self
      rw [List.flatMap_cons, piecesOf_of_notMem hname hattr.2.1, List.singleton_append,
        List.cons.injEq] at hpieces
      rw [hchars, ← hpieces.1, pairOf_attributeChars hname hattr.2.2, ← hpieces.2]
      dsimp only
      rw [pairText_attribute, Description.tree, flatTree, hlist]
      exact .object (members_of_unsplit hproper hfits behind)

def entryChars (entry : String × Description) (behind : List Char) : List Char :=
  openBrace :: quoted entry.1 (':' :: (itemChars entry.2 ++ closeBrace :: behind))

/-- Before the next quote is the end of a line. -/
def EndsLine (text : List Char) : Prop :=
  ∃ front rest, text = front ++ '\n' :: rest ∧ quote ∉ front

theorem EndsLine.closes {text : List Char} (h : EndsLine text) :
    Closes (closeBrace :: closeBrace :: text) := by
  obtain ⟨front, rest, rfl, hfront⟩ := h
  refine Or.inr ⟨closeBrace :: front, '\n', rest, rfl, ?_, by decide⟩
  rw [List.mem_cons, not_or]
  exact ⟨by decide, hfront⟩

theorem fits_of_entry {entry : String × Description} {behind rest : List Char}
    (hends : EndsLine behind)
    (h : Reads standard (entryChars entry behind) (entryTree entry) rest) :
    Fits entry ∧ rest = behind := by
  obtain ⟨members, htree, hmembers⟩ := h.members
  have hsame : [(entry.1, entry.2.tree)] = members := congrArg PTree.children htree
  cases hmembers with
  | nil _ => cases hsame
  | more _ _ => cases hsame
  | @last _ _ member hmember =>
      rw [← (List.cons.inj hsame).1] at hmember
      obtain ⟨hname, value, after, hblank, hread, hafter⟩ := hmember.exists_of_self
      obtain ⟨c, text, htext, hc⟩ := exists_itemChars entry.2 (closeBrace :: behind)
      rw [htext] at hblank
      rw [hblank.eq_of_not hc, ← htext] at hread
      obtain ⟨hfits, rfl⟩ := fits_of_item hends.closes hread
      exact ⟨⟨hname, hfits⟩, (List.cons.inj (hafter.eq_of_not (by decide))).2⟩

theorem reads_entry {entry : String × Description} (hfits : Fits entry) (behind : List Char) :
    Reads standard (entryChars entry behind) (entryTree entry) behind := by
  have hmember : Member standard
      (quoted entry.1 (':' :: (itemChars entry.2 ++ closeBrace :: behind)))
      (String.ofList entry.1.toList, entry.2.tree) (closeBrace :: behind) :=
    .mk (.none _) (literal_of_plain hfits.1 _) (.none _) (.none _) (reads_item hfits.2 _) (.none _)
  rw [String.ofList_toList] at hmember
  exact .object (.last hmember)

def pageEnd : List Char := "  ]\n\x7d\n".toList

/-- What stands behind an entry. -/
def furtherEntries (entries : List (String × Description)) : List Char :=
  entries.foldr (fun entry text => ",\n   ".toList ++ entryChars entry text) pageEnd

/-- The text behind the opening bracket. -/
def listChars : List (String × Description) → List Char
  | [] => '\n' :: pageEnd
  | entry :: entries => "\n   ".toList ++ entryChars entry (furtherEntries entries)

theorem endsLine_furtherEntries (entries : List (String × Description)) :
    EndsLine (furtherEntries entries) := by
  cases entries with
  | nil => exact ⟨"  ]".toList, "\x7d\n".toList, rfl, by decide⟩
  | cons entry entries =>
      exact ⟨[','], "   ".toList ++ entryChars entry (furtherEntries entries), rfl, by decide⟩

theorem toList_jsonMember (entry : String × Description) (behind : List Char) :
    (jsonMember (entry.1, entry.2.toText)).toList ++ behind =
      "   ".toList ++ entryChars entry behind := by
  simp [jsonMember, toList_jsonItem, entryChars, quoted, quote, openBrace, closeBrace]

theorem toList_jsonIndex (published : Published) :
    (jsonIndex published.toIndex).toList =
      openBrace :: quoted "list" (':' :: ' ' :: '[' :: listChars published.entries) := by
  have hmembers : ∀ (entry : String × Description) (entries : List (String × Description)),
      (",\n".intercalate ((entry :: entries).map fun entry =>
        jsonMember (entry.1, entry.2.toText))).toList ++ pageEnd =
      "   ".toList ++ entryChars entry (furtherEntries entries) := by
    intro entry entries
    induction entries generalizing entry with
    | nil => simpa [furtherEntries] using toList_jsonMember entry pageEnd
    | cons other entries ih =>
        have hrest := ih other
        rw [List.map_cons, List.map_cons, String.intercalate_cons_cons, String.toList_append,
          String.toList_append, List.append_assoc, List.append_assoc]
        rw [List.map_cons] at hrest
        rw [hrest, toList_jsonMember]
        rfl
  have hpage : (jsonIndex published.toIndex).toList =
      openBrace :: quoted "list" (':' :: ' ' :: '[' :: '\n' ::
        ((",\n".intercalate (published.entries.map fun entry =>
          jsonMember (entry.1, entry.2.toText))).toList ++ pageEnd)) := by
    simp [jsonIndex, Published.toIndex, quoted, quote, openBrace, pageEnd, Function.comp_def]
  rw [hpage]
  cases published.entries with
  | nil => rfl
  | cons entry entries =>
      rw [hmembers]
      rfl

theorem blank_spaces {entry : String × Description} {behind : List Char} :
    Blank ("\n   ".toList ++ entryChars entry behind) (entryChars entry behind) := by
  have hspace : ∀ text rest : List Char, Blank text rest → Blank (' ' :: text) rest :=
    fun text rest h => .skip (by decide) h
  exact .skip (by decide) (hspace _ _ (hspace _ _ (hspace _ _ (.none _))))

theorem fits_of_blank {entry : String × Description} {text first behind after : List Char}
    (hends : EndsLine behind) (hstart : Blank text (entryChars entry behind))
    (hblank : Blank text first) (h : Reads standard first (entryTree entry) after) :
    Fits entry ∧ after = behind := by
  obtain ⟨c, rest, rfl, hc, -⟩ := h.exists_cons
  rw [hblank.unique hstart hc (by decide)] at h
  exact fits_of_entry hends h

theorem fits_of_items {entry : String × Description} {entries : List (String × Description)}
    {text rest : List Char}
    (hstart : Blank text (entryChars entry (furtherEntries entries)))
    (h : Items standard text ((entry :: entries).map fun entry => ("", entryTree entry)) rest) :
    ∀ other ∈ entry :: entries, Fits other := by
  have hends := endsLine_furtherEntries entries
  induction entries generalizing entry text with
  | nil =>
      generalize hitems : (([entry] : List (String × Description)).map fun entry =>
        ("", entryTree entry)) = items at h
      cases h with
      | nil _ => cases hitems
      | more _ _ _ _ => cases hitems
      | last hblank hitem _ =>
          rw [← (Prod.mk.inj (List.cons.inj hitems).1).2] at hitem
          exact List.forall_mem_singleton.mpr (fits_of_blank hends hstart hblank hitem).1
  | cons other entries ih =>
      generalize hitems : ((entry :: other :: entries).map fun entry =>
        ("", entryTree entry)) = items at h
      cases h with
      | nil _ => cases hitems
      | last _ _ _ => cases hitems
      | more hblank hitem hcomma hmore =>
          obtain ⟨hfirst, hrest⟩ := List.cons.inj hitems
          rw [← (Prod.mk.inj hfirst).2] at hitem
          obtain ⟨hfits, rfl⟩ := fits_of_blank hends hstart hblank hitem
          have hnext := hcomma.eq_of_not (by decide)
          rw [(List.cons.inj hnext).2, ← hrest] at hmore
          exact List.forall_mem_cons.mpr
            ⟨hfits, ih blank_spaces hmore (endsLine_furtherEntries entries)⟩

theorem items_of_fits {entry : String × Description} {entries : List (String × Description)}
    {text : List Char} (hstart : Blank text (entryChars entry (furtherEntries entries)))
    (hfits : ∀ other ∈ entry :: entries, Fits other) :
    Items standard text ((entry :: entries).map fun entry => ("", entryTree entry))
      "\n\x7d\n".toList := by
  have hread := reads_entry (hfits entry List.mem_cons_self) (furtherEntries entries)
  induction entries generalizing entry text with
  | nil => exact .last hstart hread (.skip (by decide) (.skip (by decide) (.none _)))
  | cons other entries ih =>
      have hrest : ∀ entry ∈ other :: entries, Fits entry :=
        fun entry hentry => hfits entry (List.mem_cons_of_mem _ hentry)
      have hmore := ih blank_spaces hrest
        (reads_entry (hrest other List.mem_cons_self) (furtherEntries entries))
      exact .more hstart hread (.none _) hmore

/-- The page shows the same only if every entry fits. -/
theorem ShowsSame.fits {published : Published} (h : ShowsSame published) :
    ∀ entry ∈ published.entries, Fits entry := by
  obtain ⟨first, after, hblank, hread, -⟩ := h
  rw [toList_jsonIndex] at hblank
  rw [hblank.eq_of_not (by decide)] at hread
  obtain ⟨members, htree, hmembers⟩ := hread.members
  have hsame : [("list", PTree.node "" (published.entries.map fun entry =>
    ("", entryTree entry)))] = members := congrArg PTree.children htree
  rw [← hsame] at hmembers
  obtain ⟨rest, hmember⟩ := hmembers.exists_member
  obtain ⟨-, value, ending, hspace, hvalue, -⟩ := hmember.exists_of_self
  have hbracket : Blank (' ' :: '[' :: listChars published.entries)
      ('[' :: listChars published.entries) := .skip (by decide) (.none _)
  obtain ⟨c, text, rfl, hc, -⟩ := hvalue.exists_cons
  rw [hspace.unique hbracket hc (by decide)] at hvalue
  obtain ⟨items, htree, hitems⟩ := hvalue.items
  have hsame : (published.entries.map fun entry => ("", entryTree entry)) = items :=
    congrArg PTree.children htree
  rw [← hsame] at hitems
  cases hentries : published.entries with
  | nil => exact fun entry hentry => absurd hentry List.not_mem_nil
  | cons entry entries =>
      rw [hentries] at hitems
      exact fits_of_items blank_spaces hitems

theorem showsSame_of_fits {published : Published}
    (hfits : ∀ entry ∈ published.entries, Fits entry) : ShowsSame published := by
  have hitems : Items standard (listChars published.entries)
      (published.entries.map fun entry => ("", entryTree entry)) "\n\x7d\n".toList := by
    cases hentries : published.entries with
    | nil =>
        have hspaces : Blank (listChars []) "]\n\x7d\n".toList :=
          .skip (by decide) (.skip (by decide) (.skip (by decide) (.none _)))
        exact .nil hspaces
    | cons entry entries =>
        rw [hentries] at hfits
        exact items_of_fits blank_spaces hfits
  have hplain : PlainText standard "list" := by decide
  have hname : Literal standard ("list".toList ++ quote :: ':' :: ' ' :: '[' ::
      listChars published.entries) "list".toList (':' :: ' ' :: '[' ::
        listChars published.entries) := literal_of_plain hplain _
  have hmember : Member standard (quoted "list" (':' :: ' ' :: '[' :: listChars published.entries))
      ("list", .node "" (published.entries.map fun entry => ("", entryTree entry)))
      "\x7d\n".toList :=
    .mk (.none _) hname (.none _) (.skip (by decide) (.none _)) (.array hitems)
      (.skip (by decide) (.none _))
  rw [ShowsSame, toList_jsonIndex]
  exact ⟨_, ['\n'], .none _, .object (.last hmember), .skip (by decide) (.none _)⟩

/-- The JSON page is a text of JSON that shows what was published exactly if names and values need
no escapes and no value of an attribute has a space or an equal sign. -/
theorem showsSame_iff (published : Published) :
    ShowsSame published ↔ ∀ entry ∈ published.entries, Fits entry :=
  ⟨ShowsSame.fits, showsSame_of_fits⟩

/-- A rule whose alias has a space. -/
def hallAttributes : Attributes where
  list := [("alias", "LI hall"), ("status", "ON")]
  nonempty := List.cons_ne_nil _ _
  proper := ⟨by decide, by decide, by decide⟩

def hallPublished : Published where
  entries := [("R_1", .attributes hallAttributes)]
  sorted := List.pairwise_singleton _ _

/-- The alias is split at the space, and its string is not closed. -/
theorem not_showsSame_hallPublished : ¬ShowsSame hallPublished := by
  intro h
  have hfits := (h.fits _ (List.mem_singleton_self _)).2 ("alias", "LI hall") List.mem_cons_self
  exact hfits.2.1 (by decide)

end Hat.IndexPages
