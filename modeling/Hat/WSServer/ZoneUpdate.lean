import Hat.Core.Places
import Hat.Manager.TemplateFields
import Hat.Minilibs.FileManager
import Hat.WSServer.JsonPieces

/-!
# A zone in the list of zones

`zoneUpdate` adds a zone to the list of `Zones.json` by its position in the text: the list ends
at the first closing bracket, a comma stands in front of the zone unless one of the two bytes
before is an opening bracket, and a zone is there already if its name is found in the text.
-/

namespace Hat

open Hat.Hsrv Hat.Json

namespace AlarmManager

def newname (newz : String) : String := "\"name\":\"" ++ FileManager.getStem newz ++ "\""

def newzone (newz : String) : String :=
  "\x7b\"name\":\"" ++ FileManager.getStem newz ++ "\",\"enable_status\":\"false\"\x7d"

/-- One of the last two bytes is an opening bracket; the text is given from its end.  The last
bytes of a longer character are none. -/
def endsOpened : List Char → Bool
  | [] => false
  | [c] => c = '['
  | c :: d :: _ => c = '[' || (c.utf8Size = 1 && d = '[')

/-- The comma in front of a further zone. -/
def commaBehind (before : List Char) : String :=
  if 1 < (String.ofList before).utf8ByteSize ∧ !endsOpened before.reverse then "," else ""

def mkResource (file : String) : String := file ++ "\n"

/-- The answer, and the file in the archive. -/
def zoneUpdate (file : Option String) (newz : String) : Bool × Option String :=
  let zones := file.getD "Not Found"
  if zones = "Not Found" then (false, file)
  else if finds zones (newname newz) then (true, file)
  else
    let before := zones.toList.takeWhile (· ≠ ']')
    let newzones := String.ofList before ++ commaBehind before ++ newzone newz ++
      String.ofList (zones.toList.dropWhile (· ≠ ']'))
    (true, some (mkResource newzones))

def updates (file : Option String) (names : List String) : Option String :=
  names.foldl (fun file newz => (zoneUpdate file newz).2) file

end AlarmManager

/-- A well-formed text with an array of zones in it: `front` is the text up to the bracket of the
array, `inner` that between its brackets and `back` that behind it. -/
structure ZonesFile where
  front : List Char
  inner : List Char
  back : List Char
  zones : List (String × PTree)
  first : List Char
  after : List Char
  opens : Blank (front ++ '[' :: (inner ++ ']' :: back)) first
  around : Around standard first ('[' :: (inner ++ ']' :: back)) back after
  closes : Blank after []
  items : Items standard (inner ++ ']' :: back) zones back
  objects : ∀ zone ∈ zones, (zone.2.get "name").isSome ∧ (zone.2.get "enable_status").isSome

def zoneNames (zones : List (String × PTree)) : List String :=
  zones.map fun zone => (zone.2.get "name").getD ""

/-- A zone that is not enabled. -/
def zoneEntry (name : String) : String × PTree :=
  ("", flatTree [("name", name), ("enable_status", "false")])

/-- The zones with a further one, unless it is among them. -/
def withZone (zones : List (String × PTree)) (name : String) : List (String × PTree) :=
  if name ∈ zoneNames zones then zones else zones ++ [zoneEntry name]

namespace ZonesFile

variable (file : ZonesFile)

def chars : List Char := file.front ++ '[' :: (file.inner ++ ']' :: file.back)

def text : String := String.ofList file.chars

theorem exists_document : ∃ tree, Document standard file.chars tree := by
  obtain ⟨whole, hwhole⟩ := file.around.exists_reads (.array file.items)
  exact ⟨whole, _, _, file.opens, hwhole, file.closes⟩

/-- The text around the list does not depend on what is in it. -/
theorem exists_place {inner : List Char} {zones : List (String × PTree)}
    (hitems : ∀ other, Items standard (inner ++ ']' :: other) zones other)
    (hobjects : ∀ zone ∈ zones,
      (zone.2.get "name").isSome ∧ (zone.2.get "enable_status").isSome) :
    ∃ next : ZonesFile, next.front = file.front ∧ next.inner = inner ∧
      next.back = file.back ++ ['\n'] ∧ next.zones = zones := by
  obtain ⟨blanks, hopens, hblanks⟩ := file.opens.exists_append
  obtain ⟨front, behind, hfirst, hback, -, haround⟩ := file.around.exists_front
  obtain ⟨closing, hcloses, hclosing⟩ := file.closes.exists_append
  have hfront : file.front = blanks ++ front := by
    rw [hfirst, ← List.append_assoc] at hopens
    exact List.append_cancel_right hopens
  have hnewBack : file.back ++ ['\n'] = behind ++ (file.after ++ ['\n']) := by
    rw [hback, List.append_assoc]
  refine ⟨⟨file.front, inner, file.back ++ ['\n'], zones,
    front ++ '[' :: (inner ++ ']' :: (file.back ++ ['\n'])), file.after ++ ['\n'], ?_, ?_, ?_,
    hitems _, hobjects⟩, rfl, rfl, rfl, rfl⟩
  · rw [hfront, List.append_assoc]
    exact blank_append hblanks _
  · rw [hnewBack]
    exact haround _ _
  · rw [hcloses, List.append_nil]
    have hend : ∀ c ∈ closing ++ ['\n'], IsBlank c := by
      rw [List.forall_mem_append, List.forall_mem_singleton]
      exact ⟨hclosing, by decide⟩
    have hblank := blank_append hend []
    rwa [List.append_nil] at hblank

end ZonesFile

namespace AlarmManager

theorem commaBehind_of_last {text : List Char} {c d : Char} (hc : c ≠ '[') (hd : d ≠ '[') :
    commaBehind (text ++ [d] ++ [c]) = "," := by
  refine if_pos ⟨?_, ?_⟩
  · rw [String.ofList_append, String.ofList_append, String.utf8ByteSize_append,
      String.utf8ByteSize_append, ← String.singleton_eq_ofList, ← String.singleton_eq_ofList,
      String.utf8ByteSize_singleton, String.utf8ByteSize_singleton]
    have hdSize := d.utf8Size_pos
    have hcSize := c.utf8Size_pos
    omega
  · simp [endsOpened, hc, hd]

theorem endsOpened_bracket (text : List Char) : endsOpened ('[' :: text) = true := by
  cases text with
  | nil => rfl
  | cons c rest => rfl

theorem endsOpened_blank {c : Char} (hc : IsBlank c) (text : List Char) :
    endsOpened (c :: '[' :: text) = true := by
  rcases hc with rfl | rfl | rfl | rfl <;> rfl

theorem toList_newzone (newz : String) : (newzone newz).toList = openBrace ::
    flatMembers [("name", FileManager.getStem newz), ("enable_status", "false")] := by
  simp [newzone, flatMembers, flatMember, quoted, further, openBrace, closeBrace, quote]

variable {newz : String}

/-- The text of a zone is read as it, unless its name has to be escaped. -/
theorem reads_newzone (hplain : PlainText standard (FileManager.getStem newz))
    (other : List Char) : Reads standard ((newzone newz).toList ++ other)
      (zoneEntry (FileManager.getStem newz)).2 other := by
  rw [toList_newzone]
  refine .object (members_flatMembers ?_ other)
  have hfalse : PlainText standard "enable_status" ∧ PlainText standard "false" := by decide
  have hname : PlainText standard "name" := by decide
  exact List.forall_mem_cons.mpr ⟨⟨hname, hplain⟩, List.forall_mem_singleton.mpr hfalse⟩

end AlarmManager

namespace ZonesFile

variable (file : ZonesFile)

open AlarmManager

/-- A list with a zone in it has a comma set behind it. -/
theorem commaBehind_of_ne_nil (hne : file.zones ≠ []) :
    commaBehind (file.front ++ '[' :: file.inner) = "," := by
  obtain ⟨front, blanks, hinner, hblanks, hfront, hlast⟩ :=
    file.items.exists_last_brace hne (by decide) fun zone hzone => (file.objects zone hzone).1
  rcases List.eq_nil_or_concat' blanks with rfl | ⟨blanks, last, rfl⟩
  · obtain ⟨before, d, rfl⟩ := (List.eq_nil_or_concat' front).resolve_left hfront
    rw [List.getLast?_concat, ne_eq, Option.some.injEq] at hlast
    have htext : file.front ++ '[' :: file.inner =
        file.front ++ '[' :: before ++ [d] ++ [closeBrace] := by
      rw [hinner]
      simp
    rw [htext]
    exact commaBehind_of_last (by decide) hlast
  · rw [List.forall_mem_append, List.forall_mem_singleton] at hblanks
    have hbrace : (front ++ [closeBrace] ++ blanks).getLast? ≠ some '[' := by
      refine getLast?_append_ne ?_ (getLast?_blanks_ne hblanks.1)
      rw [List.getLast?_concat]
      decide
    obtain ⟨before, d, hbefore⟩ :=
      (List.eq_nil_or_concat' (front ++ [closeBrace] ++ blanks)).resolve_left (by simp)
    rw [hbefore, List.getLast?_concat, ne_eq, Option.some.injEq] at hbrace
    have htext : file.front ++ '[' :: file.inner =
        file.front ++ '[' :: before ++ [d] ++ [last] := by
      have hsplit : front ++ closeBrace :: (blanks ++ [last]) = before ++ [d] ++ [last] := by
        rw [← hbefore]
        simp
      rw [hinner, hsplit]
      simp
    rw [htext]
    exact commaBehind_of_last hblanks.2.ne_bracket hbrace

/-- An empty list with no more than one character in it has none. -/
theorem commaBehind_of_nil (hnil : file.zones = []) (hshort : file.inner.length ≤ 1) :
    commaBehind (file.front ++ '[' :: file.inner) = "" := by
  have hitems := file.items
  rw [hnil] at hitems
  have hblanks := hitems.blank_of_nil
  have hopened : endsOpened (file.front ++ '[' :: file.inner).reverse = true := by
    generalize file.inner = inner at hshort hblanks
    rw [List.reverse_append]
    match inner, hshort with
    | [], _ => exact endsOpened_bracket file.front.reverse
    | [c], _ => exact endsOpened_blank (hblanks c List.mem_cons_self) file.front.reverse
  refine if_neg ?_
  rw [hopened]
  simp

theorem outside_inner : (Quoting.free.run (file.front ++ '[' :: file.inner)).Outside := by
  obtain ⟨blanks, hopens, hblanks⟩ := file.opens.exists_append
  obtain ⟨front, -, hfirst, -, hrun, -⟩ := file.around.exists_front
  obtain ⟨piece, hitems, -, houtside, -⟩ := file.items.exists_piece
  have hfront : file.front = blanks ++ front := by
    rw [hfirst, ← List.append_assoc] at hopens
    exact List.append_cancel_right hopens
  have hinner : file.inner = piece := List.append_cancel_right hitems
  rw [hfront, hinner, Quoting.run_append, Quoting.run_append, Quoting.run_free_blanks hblanks, hrun]
  exact houtside

end ZonesFile

/-! ## The name of a zone in a text -/

namespace AlarmManager

theorem toList_newname (newz : String) : (newname newz).toList =
    quote :: ("name".toList ++ quote :: ':' :: quote ::
      ((FileManager.getStem newz).toList ++ [quote])) := by
  simp [newname, quote]

variable {name other : String}

theorem splitOn_newname (hother : quote ∉ other.toList) (before after : List Char) :
    (before ++ (quote :: ("name".toList ++ quote :: ':' :: quote :: (other.toList ++ [quote]))) ++
      after).splitOn quote =
      before.splitOn quote ++ "name".toList :: [':'] :: other.toList :: after.splitOn quote := by
  have htext : before ++ (quote :: ("name".toList ++ quote :: ':' :: quote ::
      (other.toList ++ [quote]))) ++ after = before ++ quote :: ("name".toList ++ quote ::
        ([':'] ++ quote :: (other.toList ++ quote :: after))) := by
    simp
  rw [htext, List.splitOn_append_cons_self, List.splitOn_append_cons_self_of_not_mem (by decide),
    List.splitOn_append_cons_self_of_not_mem (by decide),
    List.splitOn_append_cons_self_of_not_mem hother]

theorem splitOn_zone {front : List Char} (hfront : quote ∉ front)
    (hname : PlainText standard name) :
    (front ++ flatMembers [("name", name), ("enable_status", "false")]).splitOn quote =
      [front, "name".toList, [':'], name.toList, [','], "enable_status".toList, [':'],
        "false".toList, [closeBrace]] := by
  have hlast : [closeBrace].splitOn quote = [[closeBrace]] :=
    List.splitOn_eq_singleton (by decide)
  have hbehind : further [("enable_status", "false")] =
      [','] ++ flatMember ("enable_status", "false") [closeBrace] := rfl
  have hplain : PlainText standard "name" ∧ PlainText standard "enable_status" ∧
      PlainText standard "false" := by
    decide
  rw [flatMembers, splitOn_flatMember hfront hplain.1 hname, hbehind,
    splitOn_flatMember (by decide) hplain.2.1 hplain.2.2, hlast]

/-- The name of a zone stands in the text of another one only if they have the same name. -/
theorem eq_of_infix_zone {front : List Char} (hfront : quote ∉ front)
    (hname : PlainText standard name) (hother : PlainText standard other)
    (h : quote :: ("name".toList ++ quote :: ':' :: quote :: (other.toList ++ [quote])) <:+:
      front ++ flatMembers [("name", name), ("enable_status", "false")]) : other = name := by
  obtain ⟨before, after, htext⟩ := h
  have hsplit := splitOn_newname (PlainText.notMem hother) before after
  rw [htext, splitOn_zone hfront hname] at hsplit
  have hbefore : before.splitOn quote ≠ [] := List.splitOn_ne_nil _ _
  generalize before.splitOn quote = pieces at hsplit hbefore
  -- the key stands right in front of a colon only as the first piece between quotes
  rcases pieces with
    _ | ⟨first, _ | ⟨second, _ | ⟨third, _ | ⟨fourth, _ | ⟨fifth, _ | ⟨sixth, rest⟩⟩⟩⟩⟩⟩
  · exact absurd rfl hbefore
  · simp only [List.cons_append, List.nil_append, List.cons.injEq] at hsplit
    exact (String.toList_injective hsplit.2.2.2.1).symm
  · simp at hsplit
  · simp at hsplit
  · simp at hsplit
  · simp at hsplit
  · have hlength := congrArg List.length hsplit
    simp only [List.length_append, List.length_cons, List.length_nil] at hlength
    cases rest with
    | nil => simp at hsplit
    | cons seventh rest =>
        rw [List.length_cons] at hlength
        omega

variable {newz given : String} {text comma : List Char}

/-- A name does not begin in the text in front of a zone and end in the zone. -/
theorem infix_or_of_infix_append (houtside : (Quoting.free.run text).Outside)
    (hcomma : comma = [] ∨ comma = [','])
    (hgiven : PlainText standard (FileManager.getStem given))
    (h : (newname given).toList <:+: text ++ (comma ++ (newzone newz).toList)) :
    (newname given).toList <:+: text ∨
      (newname given).toList <:+: comma ++ (newzone newz).toList := by
  rcases List.infix_append_iff_ne_nil.mp h with htext | hzone | hboth
  · exact Or.inl htext
  · exact Or.inr hzone
  · obtain ⟨front, back, -, hback, hname, ⟨before, rfl⟩, hstarts⟩ := hboth
    obtain ⟨c, tail, rfl⟩ := List.exists_cons_of_ne_nil hback
    have hfirst : c = ',' ∨ c = openBrace := by
      rw [toList_newzone] at hstarts
      rcases hcomma with rfl | rfl
      · exact Or.inr (List.cons_prefix_cons.mp hstarts).1
      · exact Or.inl (List.cons_prefix_cons.mp hstarts).1
    have hsplit : [quote, 'n', 'a', 'm', 'e', quote, ':', quote] ++
        ((FileManager.getStem given).toList ++ [quote]) = front ++ c :: tail := by
      rw [← hname, toList_newname]
      simp
    have hbegun : ∃ begun, front = [quote, 'n', 'a', 'm', 'e', quote, ':', quote] ++ begun ∧
        (FileManager.getStem given).toList ++ [quote] = begun ++ c :: tail := by
      rcases List.append_eq_append_iff.mp hsplit with hlonger | ⟨rest, hshorter, hrest⟩
      · exact hlonger
      · cases rest with
        | nil => exact ⟨[], by simpa using hshorter.symm, by simpa using hrest.symm⟩
        | cons d rest =>
            have hmem : d ∈ [quote, 'n', 'a', 'm', 'e', quote, ':', quote] := by
              rw [hshorter]
              simp
            rw [← (List.cons.inj hrest).1] at hmem
            rcases hfirst with rfl | rfl
            · exact absurd hmem (by decide)
            · exact absurd hmem (by decide)
    obtain ⟨begun, hfront, hrest⟩ := hbegun
    have hquote : quote ∉ begun := by
      have hlonger : begun <+: (FileManager.getStem given).toList ++ [quote] :=
        ⟨c :: tail, hrest.symm⟩
      rcases List.prefix_concat_iff.mp hlonger with hwhole | hstem
      · rw [hwhole] at hrest
        exact absurd (List.append_right_eq_self.mp hrest.symm) (List.cons_ne_nil c tail)
      · exact fun hmem => PlainText.notMem hgiven (hstem.subset hmem)
    have hkey : Quoting.IsKey ['n', 'a', 'm', 'e'] := by
      decide
    rw [hfront, Quoting.run_append] at houtside
    exact absurd houtside (Quoting.not_outside_open_member _ hkey hquote)

theorem notMem_newzone {c : Char} (hstem : c ∉ (FileManager.getStem newz).toList)
    (hc : c ∉ ("\x7b\"name\":\"" ++ "\",\"enable_status\":\"false\"\x7d").toList) :
    c ∉ (newzone newz).toList := by
  rw [newzone, String.toList_append, String.toList_append, List.mem_append, List.mem_append, not_or,
    not_or]
  rw [String.toList_append, List.mem_append, not_or] at hc
  exact ⟨⟨hc.1, hstem⟩, hc.2⟩

theorem notMem_newname {c : Char} (hstem : c ∉ (FileManager.getStem given).toList)
    (hc : c ∉ [quote, 'n', 'a', 'm', 'e', ':']) : c ∉ (newname given).toList := by
  rw [toList_newname]
  simp only [List.mem_cons, List.mem_append, not_or] at hc ⊢
  simp_all

/-- After a zone is added its own name is found, and no other one that was not found before. -/
theorem infix_newname_iff {behind : List Char} (houtside : (Quoting.free.run text).Outside)
    (hcomma : comma = [] ∨ comma = [','])
    (hplain : PlainText standard (FileManager.getStem newz))
    (hgiven : PlainText standard (FileManager.getStem given))
    (hbracket : ']' ∉ (FileManager.getStem given).toList) :
    (newname given).toList <:+:
        text ++ (comma ++ (newzone newz).toList) ++ ']' :: (behind ++ ['\n']) ↔
      (newname given).toList <:+: text ++ ']' :: behind ∨
        FileManager.getStem given = FileManager.getStem newz := by
  have hnoBracket := notMem_newname hbracket (by decide)
  have hnoEnd : '\n' ∉ (newname given).toList := by
    refine notMem_newname (fun hmem => ?_) (by decide)
    exact absurd (hgiven '\n' hmem).raw (by decide)
  have hquote : quote ∉ comma ++ [openBrace] := by
    rcases hcomma with rfl | rfl <;> decide
  constructor
  · intro hwithin
    rcases infix_append_cons hnoBracket hwithin with hfront | hback
    · rcases infix_or_of_infix_append houtside hcomma hgiven hfront with htext | hzone
      · exact Or.inl (htext.trans (List.prefix_append _ _).isInfix)
      · right
        rw [toList_newname, toList_newzone, List.append_cons comma] at hzone
        exact eq_of_infix_zone hquote hplain hgiven hzone
    · rcases infix_append_cons hnoEnd hback with hback | hnil
      · exact Or.inl (hback.trans (List.suffix_append_of_suffix (List.suffix_cons _ _)).isInfix)
      · rw [List.infix_nil, toList_newname] at hnil
        cases hnil
  · rintro (hwithin | hstem)
    · rcases infix_append_cons hnoBracket hwithin with hfront | hback
      · rw [List.append_assoc]
        exact hfront.trans (List.prefix_append _ _).isInfix
      · have hlonger : behind <:+: ']' :: (behind ++ ['\n']) :=
          (List.prefix_append behind _).isInfix.trans (List.suffix_cons _ _).isInfix
        exact hback.trans (hlonger.trans (List.suffix_append _ _).isInfix)
    · have hown : newname given = newname newz := by
        rw [newname, newname, hstem]
      have hzone : (newname newz).toList <:+: (newzone newz).toList := by
        refine ⟨[openBrace], (",\"enable_status\":\"false\"\x7d").toList, ?_⟩
        simp [newname, newzone, openBrace]
      rw [hown]
      exact hzone.trans ((List.suffix_append comma _).isInfix.trans
        (List.infix_append text _ _))

end AlarmManager

end Hat
