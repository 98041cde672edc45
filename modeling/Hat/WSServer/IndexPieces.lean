import Hat.Minilibs.IndexPages
import Hat.WSServer.ReadJson

/-!
# Pieces of a description

A description with attributes is split at the spaces, and each piece at the equal signs.  A value
with a space or an equal sign is split as well, and then no pair of the pieces is read as its
attribute.
-/

namespace Hat.IndexPages

open Hat.Json

/-- A name of an attribute. -/
def IsName (name : String) : Prop := ∀ c ∈ name.toList, Plain standard c ∧ c ≠ ' ' ∧ c ≠ '='

instance (name : String) : Decidable (IsName name) :=
  List.decidableBAll (fun c => Plain standard c ∧ c ≠ ' ' ∧ c ≠ '=') name.toList

/-- The attributes of an item: none is there twice, and no value has a quote. -/
structure Proper (list : List (String × String)) : Prop where
  names : ∀ attr ∈ list, IsName attr.1
  distinct : (list.map Prod.fst).Nodup
  values : ∀ attr ∈ list, quote ∉ attr.2.toList

def attributeText (attr : String × String) : String :=
  attr.1 ++ "=\"" ++ attr.2 ++ "\""

/-- A value that is neither escaped nor split. -/
def Unsplit (value : String) : Prop :=
  PlainText standard value ∧ ' ' ∉ value.toList ∧ '=' ∉ value.toList

/-- The parts of a piece between equal signs, without an empty last one. -/
def fields (piece : List Char) : List (List Char) :=
  let parts := piece.splitOn '='
  if parts.getLast? = some [] then parts.dropLast else parts

def pairOf (piece : List Char) : Option (List Char × List Char) :=
  match fields piece with
  | [key, value] => some (key, value)
  | _ => none

/-- What is written for a pair behind the opening brace or comma. -/
def pairText (pair : List Char × List Char) (rest : List Char) : List Char :=
  quote :: (pair.1 ++ quote :: ':' :: (pair.2 ++ rest))

/-- What is written for the pieces behind the first one. -/
def printed (pieces : List (List Char)) (rest : List Char) : List Char :=
  pieces.foldr (fun piece text =>
    match pairOf piece with
    | some pair => ',' :: pairText pair text
    | none => text) rest

def attributeChars (attr : String × String) : List Char :=
  attr.1.toList ++ '=' :: quote :: (attr.2.toList ++ [quote])

def piecesOf (attr : String × String) : List (List Char) :=
  (attributeChars attr).splitOn ' '

theorem fields_append {front : List Char} (hfront : '=' ∉ front) (back : List Char) :
    fields (front ++ '=' :: back) = front :: fields back := by
  have hsplit := List.splitOn_append_cons_self_of_not_mem hfront back
  rw [fields, fields, hsplit]
  cases hback : back.splitOn '=' with
  | nil => exact absurd hback (List.splitOn_ne_nil _ _)
  | cons part parts =>
      simp only [List.getLast?_cons_cons]
      split
      · rw [List.dropLast_cons_of_ne_nil (List.cons_ne_nil _ _)]
      · rfl

theorem fields_of_notMem {piece : List Char} (hpiece : '=' ∉ piece) (hne : piece ≠ []) :
    fields piece = [piece] := by
  rw [fields, List.splitOn_eq_singleton hpiece]
  simp [hne]

theorem eq_or_of_fields {piece value : List Char} (h : fields piece = [value]) :
    ∃ tail, (tail = [] ∨ tail = ['=']) ∧ piece = value ++ tail ∧ '=' ∉ value := by
  by_cases hsign : '=' ∈ piece
  · obtain ⟨front, back, rfl, hfront⟩ := List.eq_append_cons_of_mem hsign
    rw [fields_append hfront, List.cons.injEq] at h
    refine ⟨['='], Or.inr rfl, ?_⟩
    -- Nothing is behind the equal sign.
    by_cases hback : '=' ∈ back
    · obtain ⟨first, second, rfl, hfirst⟩ := List.eq_append_cons_of_mem hback
      rw [fields_append hfirst] at h
      exact absurd h.2 (List.cons_ne_nil _ _)
    · by_cases hne : back = []
      · rw [← h.1, hne]
        exact ⟨rfl, hfront⟩
      · rw [fields_of_notMem hback hne] at h
        exact absurd h.2 (List.cons_ne_nil _ _)
  · by_cases hne : piece = []
    · subst hne
      exact absurd h (List.cons_ne_nil _ _).symm
    · rw [fields_of_notMem hsign hne, List.cons.injEq] at h
      rw [← h.1]
      exact ⟨[], Or.inl rfl, (List.append_nil piece).symm, hsign⟩

theorem pairOf_append {front : List Char} (hfront : '=' ∉ front) (back : List Char) :
    pairOf (front ++ '=' :: back) =
      match fields back with
      | [value] => some (front, value)
      | _ => none := by
  rw [pairOf, fields_append hfront]
  cases fields back with
  | nil => rfl
  | cons value rest => cases rest <;> rfl

/-- A pair stands before and behind the first equal sign of its piece, at whose end there may be
another one. -/
theorem eq_of_pairOf {piece : List Char} {pair : List Char × List Char}
    (h : pairOf piece = some pair) :
    ∃ tail, (tail = [] ∨ tail = ['=']) ∧ piece = pair.1 ++ '=' :: (pair.2 ++ tail) ∧
      '=' ∉ pair.1 ∧ '=' ∉ pair.2 := by
  by_cases hsign : '=' ∈ piece
  · obtain ⟨front, back, rfl, hfront⟩ := List.eq_append_cons_of_mem hsign
    rw [pairOf_append hfront] at h
    split at h
    · rename_i value hvalue
      obtain ⟨tail, htail, rfl, hlack⟩ := eq_or_of_fields hvalue
      rw [← Option.some.inj h]
      exact ⟨tail, htail, rfl, hfront, hlack⟩
    · cases h
  · by_cases hne : piece = []
    · subst hne
      cases h
    · rw [pairOf, fields_of_notMem hsign hne] at h
      cases h

/-- There is no quote but at the end. -/
def Limited (text : List Char) : Prop :=
  ∃ inner, quote ∉ inner ∧ (text = inner ∨ text = inner ++ [quote])

theorem Limited.pair {piece : List Char} {pair : List Char × List Char} (hlimited : Limited piece)
    (h : pairOf piece = some pair) : quote ∉ pair.1 ∧ Limited pair.2 := by
  obtain ⟨inner, hinner, hpiece⟩ := hlimited
  obtain ⟨tail, htail, heq, -⟩ := eq_of_pairOf h
  rcases hpiece with rfl | rfl
  · rw [heq] at hinner
    simp only [List.mem_append, List.mem_cons, not_or] at hinner
    exact ⟨hinner.1, pair.2, hinner.2.2.1, Or.inl rfl⟩
  · -- The quote is the last letter of the value.
    rcases htail with rfl | rfl
    · rw [List.append_nil] at heq
      rcases List.eq_nil_or_concat pair.2 with hnil | ⟨value, last, hvalue⟩
      · rw [hnil] at heq
        have hlast := congrArg List.getLast? heq
        simp [quote] at hlast
      · rw [List.concat_eq_append] at hvalue
        rw [hvalue, ← List.cons_append, ← List.append_assoc] at heq
        obtain ⟨hfront, hlast⟩ := List.append_inj' heq rfl
        rw [hfront] at hinner
        simp only [List.mem_append, List.mem_cons, not_or] at hinner
        refine ⟨hinner.1, value, hinner.2.2, Or.inr ?_⟩
        rw [hvalue, hlast]
    · rw [← List.cons_append, ← List.append_assoc] at heq
      have hlast := (List.append_inj' heq rfl).2
      exact absurd (List.cons.inj hlast).1 (by decide)

theorem limited_of_mem_splitOn {inner piece : List Char} (hinner : quote ∉ inner)
    (hpiece : piece ∈ (inner ++ [quote]).splitOn ' ') : Limited piece := by
  induction inner generalizing piece with
  | nil =>
      have hmem : ' ' ∉ [] ++ [quote] := by decide
      rw [List.splitOn_eq_singleton hmem, List.mem_singleton] at hpiece
      exact ⟨[], List.not_mem_nil, Or.inr hpiece⟩
  | cons c inner ih =>
      rw [List.mem_cons, not_or] at hinner
      rw [List.cons_append, List.splitOn_cons_eq_if_modifyHead] at hpiece
      cases hpieces : (inner ++ [quote]).splitOn ' ' with
      | nil => exact absurd hpieces (List.splitOn_ne_nil _ _)
      | cons first rest =>
          rw [hpieces] at hpiece ih
          split at hpiece
          · rcases List.mem_cons.mp hpiece with rfl | hmem
            · exact ⟨[], List.not_mem_nil, Or.inl rfl⟩
            · exact ih hinner.2 hmem
          · rw [List.modifyHead_cons] at hpiece
            rcases List.mem_cons.mp hpiece with rfl | hmem
            · obtain ⟨front, hfront, hfirst⟩ := ih hinner.2 List.mem_cons_self
              refine ⟨c :: front, ?_, hfirst.imp (congrArg _) (congrArg _)⟩
              rw [List.mem_cons, not_or]
              exact ⟨hinner.1, hfront⟩
            · exact ih hinner.2 (List.mem_cons_of_mem first hmem)

theorem IsName.notMem {name : String} (h : IsName name) {c : Char}
    (hc : ¬standard c ∨ c = quote ∨ c = '\\' ∨ c = ' ' ∨ c = '=') : c ∉ name.toList := by
  intro hmem
  obtain ⟨hplain, hspace, hsign⟩ := h c hmem
  rcases hc with hc | hc | hc | hc | hc
  · exact hc hplain.raw
  · exact hplain.ne_quote hc
  · exact hplain.ne_backslash hc
  · exact hspace hc
  · exact hsign hc

/-- A piece of an attribute starts with its name and its opening quote, or lies behind them. -/
theorem mem_piecesOf {attr : String × String} (hname : IsName attr.1)
    (hvalue : quote ∉ attr.2.toList) {piece : List Char} (hpiece : piece ∈ piecesOf attr) :
    Limited piece ∨
      (' ' ∉ attr.2.toList ∧ piece = attributeChars attr) ∨
      ∃ front back, attr.2.toList = front ++ ' ' :: back ∧
        piece = attr.1.toList ++ '=' :: quote :: front := by
  have hspace : ' ' ∉ attr.1.toList := hname.notMem (by decide)
  by_cases hsplit : ' ' ∈ attr.2.toList
  · obtain ⟨front, back, hchars, hfront⟩ := List.eq_append_cons_of_mem hsplit
    have hattr : attributeChars attr =
        (attr.1.toList ++ '=' :: quote :: front) ++ ' ' :: (back ++ [quote]) := by
      simp [attributeChars, hchars]
    have hfirst : ' ' ∉ attr.1.toList ++ '=' :: quote :: front := by
      simp [hspace, hfront, quote]
    rw [piecesOf, hattr, List.splitOn_append_cons_self_of_not_mem hfirst] at hpiece
    rcases List.mem_cons.mp hpiece with rfl | hmem
    · exact Or.inr (Or.inr ⟨front, back, hchars, rfl⟩)
    · rw [hchars, List.mem_append, List.mem_cons, not_or, not_or] at hvalue
      exact Or.inl (limited_of_mem_splitOn hvalue.2.2 hmem)
  · have hattr : ' ' ∉ attributeChars attr := by
      simp [attributeChars, hspace, hsplit, quote]
    rw [piecesOf, List.splitOn_eq_singleton hattr, List.mem_singleton] at hpiece
    exact Or.inr (Or.inl ⟨hsplit, hpiece⟩)

/-- What may stand behind an item or a piece: a further pair, or a brace and later a control
character before the next quote. -/
def Closes (text : List Char) : Prop :=
  (∃ rest, text = ',' :: quote :: rest) ∨
    ∃ front c rest, text = closeBrace :: (front ++ c :: rest) ∧ quote ∉ front ∧ c.toNat < 32

theorem Closes.exists_cons {text : List Char} (h : Closes text) :
    ∃ c rest, text = c :: rest ∧ ¬IsBlank c ∧ c ≠ quote := by
  rcases h with ⟨rest, rfl⟩ | ⟨front, c, rest, rfl, -, -⟩
  · exact ⟨_, _, rfl, by decide, by decide⟩
  · exact ⟨_, _, rfl, by decide, by decide⟩

/-- A string that is not closed takes the comma of the next pair. -/
theorem Closes.length_le {front text chars rest : List Char} (hcloses : Closes text)
    (hfront : quote ∉ front) (hchars : quote ∉ chars)
    (h : Literal standard (front ++ text) chars rest) :
    chars.length ≤ front.length + 1 ∧
      (front.length + 1 ≤ chars.length → chars = front ++ [',']) := by
  rcases hcloses with ⟨behind, rfl⟩ | ⟨inner, c, behind, rfl, hinner, hc⟩
  · have htext : front ++ ',' :: quote :: behind = (front ++ [',']) ++ quote :: behind := by simp
    have hcomma : quote ∉ front ++ [','] := by
      rw [List.mem_append, not_or]
      exact ⟨hfront, by decide⟩
    rw [htext] at h
    have hlength := h.length_le hcomma hchars
    rwa [List.length_append, List.length_singleton] at hlength
  · have htext : front ++ closeBrace :: (inner ++ c :: behind) =
        (front ++ closeBrace :: inner) ++ c :: behind := by simp
    have hquote : quote ∉ front ++ closeBrace :: inner := by
      rw [List.mem_append, List.mem_cons, not_or, not_or]
      exact ⟨hfront, by decide, hinner⟩
    rw [htext] at h
    exact absurd h (Literal.not_control (fun _ hraw => hraw) hquote hc)

/-- A piece that is split off does not show the attribute it is in the place of. -/
theorem not_member {attr : String × String} (hname : IsName attr.1)
    (hvalue : quote ∉ attr.2.toList) {c : Char} (hc : c ∈ attr.2.toList)
    (hsplits : c = ' ' ∨ c = '=') {piece : List Char} {pair : List Char × List Char}
    (hpair : pairOf piece = some pair)
    (horigin : Limited piece ∨
      (∃ other rest, IsName other ∧ other ≠ attr.1 ∧ piece = other.toList ++ '=' :: rest) ∨
      ∃ front back, attr.2.toList = front ++ ' ' :: back ∧
        piece = attr.1.toList ++ '=' :: quote :: front)
    {behind rest : List Char} (hcloses : Closes behind) :
    ¬Member standard (pairText pair behind) (attr.1, .node attr.2 []) rest := by
  intro hmember
  have hquote : ∀ {name : String}, IsName name → quote ∉ name.toList :=
    fun h => h.notMem (by decide)
  have hword : ¬IsWordLetter c := by
    rcases hsplits with rfl | rfl <;> decide
  obtain ⟨tail, htail, hpiece, hfirst, -⟩ := eq_of_pairOf hpair
  have hkey : ∀ {other : String} {back : List Char}, IsName other →
      piece = other.toList ++ '=' :: back →
        pair.1 = other.toList ∧ pair.2 ++ tail = back := by
    intro other back hother heq
    have hsign : '=' ∉ other.toList := hother.notMem (by decide)
    rw [hpiece] at heq
    exact append_mark_inj hfirst hsign heq
  have hkeyQuote : quote ∉ pair.1 := by
    rcases horigin with hlimited | ⟨other, back, hother, -, heq⟩ | ⟨front, back, -, heq⟩
    · exact (hlimited.pair hpair).1
    · rw [(hkey hother heq).1]
      exact hquote hother
    · rw [(hkey hname heq).1]
      exact hquote hname
  obtain ⟨hliteral, value, after, hblank, hread, -⟩ := hmember.exists_value hkeyQuote (hquote hname)
  obtain ⟨content, rfl, hcontent⟩ := hread.literal_of_data hc hword
  obtain ⟨d, next, hbehind, hd, hdquote⟩ := hcloses.exists_cons
  rcases horigin with hlimited | ⟨other, back, hother, hne, heq⟩ | ⟨front, back, hchars, heq⟩
  · -- There is no quote before the value, or the string is empty up to what is behind.
    obtain ⟨inner, hinner, hvalues | hvalues⟩ := (hlimited.pair hpair).2
    · rw [hvalues, hbehind] at hblank
      exact hdquote (List.cons.inj (hblank.eq_of_append hd hinner)).1.symm
    · rw [hvalues, List.append_assoc, List.singleton_append] at hblank
      have hstart := hblank.eq_of_append (by decide) hinner
      rw [(List.cons.inj hstart).2] at hcontent
      obtain ⟨-, hsame⟩ := hcloses.length_le List.not_mem_nil hvalue hcontent
      rw [hsame (List.length_pos_of_mem hc), List.nil_append, List.mem_singleton] at hc
      subst hc
      exact absurd hsplits (by decide)
  · -- The name is read as the one of another attribute.
    rw [(hkey hother heq).1] at hliteral
    obtain ⟨hsame, -⟩ := hliteral.eq_of_plain fun c hc => (hother c hc).1
    exact hne (String.toList_inj.mp hsame).symm
  · -- The string goes up to the comma behind the first part of the value.
    obtain ⟨-, hrest⟩ := hkey hname heq
    have hfrontQuote : quote ∉ front := by
      rw [hchars, List.mem_append, not_or] at hvalue
      exact hvalue.1
    cases hpart : pair.2 with
    | nil =>
        rw [hpart] at hrest
        rcases htail with rfl | rfl
        · cases hrest
        · exact absurd (List.cons.inj hrest).1 (by decide)
    | cons first part =>
        rw [hpart] at hrest hblank
        rw [List.cons_append, List.cons.injEq] at hrest
        obtain ⟨rfl, rfl⟩ := hrest
        rw [List.mem_append, not_or] at hfrontQuote
        have hstart := hblank.eq_of_not (by decide)
        rw [(List.cons.inj hstart).2] at hcontent
        obtain ⟨-, hsame⟩ := hcloses.length_le hfrontQuote.1 hvalue hcontent
        have hlength := congrArg List.length hchars
        simp only [List.length_append, List.length_cons] at hlength
        have hcomma := hsame (by omega)
        rw [hchars] at hcomma
        have hlengths := congrArg List.length hcomma
        simp only [List.length_append, List.length_cons, List.length_nil] at hlengths
        have htailNil : tail = [] := List.length_eq_zero_iff.mp (by omega)
        rw [htailNil, List.append_nil] at hcomma
        exact absurd (List.cons.inj (List.append_cancel_left hcomma)).1 (by decide)

/-! ## Attributes in the JSON page -/

theorem Proper.tail {attr : String × String} {list : List (String × String)}
    (h : Proper (attr :: list)) : Proper list where
  names other hother := h.names other (List.mem_cons_of_mem attr hother)
  distinct := (List.nodup_cons.mp h.distinct).2
  values other hother := h.values other (List.mem_cons_of_mem attr hother)

theorem Proper.ne {attr other : String × String} {list : List (String × String)}
    (h : Proper (attr :: list)) (hother : other ∈ list) : other.1 ≠ attr.1 := by
  intro heq
  apply (List.nodup_cons.mp h.distinct).1
  rw [← heq]
  exact List.mem_map_of_mem hother

theorem pairOf_attributeChars {attr : String × String} (hname : IsName attr.1)
    (hvalue : '=' ∉ attr.2.toList) :
    pairOf (attributeChars attr) =
      some (attr.1.toList, quote :: (attr.2.toList ++ [quote])) := by
  have hrest : '=' ∉ quote :: (attr.2.toList ++ [quote]) := by
    simp [hvalue, quote]
  rw [attributeChars, pairOf_append (hname.notMem (by decide)),
    fields_of_notMem hrest (List.cons_ne_nil _ _)]

theorem not_mem_of_pairOf_attributeChars {attr : String × String} (hname : IsName attr.1)
    {pair : List Char × List Char} (h : pairOf (attributeChars attr) = some pair) :
    '=' ∉ attr.2.toList := by
  obtain ⟨tail, htail, heq, hfirst, hsecond⟩ := eq_of_pairOf h
  have hsign : '=' ∉ attr.1.toList := hname.notMem (by decide)
  obtain ⟨-, hrest⟩ := append_mark_inj hsign hfirst heq
  rcases htail with rfl | rfl
  · rw [List.append_nil] at hrest
    rw [← hrest] at hsecond
    simp only [List.mem_cons, List.mem_append, not_or] at hsecond
    exact hsecond.2.1
  · rw [← List.cons_append] at hrest
    have hlast := (List.append_inj' hrest rfl).2
    exact absurd (List.cons.inj hlast).1 (by decide)

/-- What is written for the pieces is what stands behind them, or starts with a pair of one of
them. -/
theorem printed_cases (pieces : List (List Char)) (rest : List Char) :
    printed pieces rest = rest ∨
      ∃ piece ∈ pieces, ∃ pair later, pairOf piece = some pair ∧
        printed pieces rest = ',' :: pairText pair (printed later rest) := by
  induction pieces with
  | nil => exact Or.inl rfl
  | cons piece pieces ih =>
      rw [printed, List.foldr_cons]
      cases hpair : pairOf piece with
      | some pair =>
          exact Or.inr ⟨piece, List.mem_cons_self, pair, pieces, hpair, rfl⟩
      | none =>
          refine ih.imp_right ?_
          rintro ⟨other, hother, pair, later, hpairs, heq⟩
          exact ⟨other, List.mem_cons_of_mem piece hother, pair, later, hpairs, heq⟩

theorem Closes.printed {rest : List Char} (h : Closes rest) (pieces : List (List Char)) :
    Closes (printed pieces rest) := by
  rcases printed_cases pieces rest with heq | ⟨piece, -, pair, later, -, heq⟩
  · rwa [heq]
  · exact Or.inl ⟨_, heq⟩

theorem printed_append (pieces : List (List Char)) (rest behind : List Char) :
    printed pieces (rest ++ behind) = printed pieces rest ++ behind := by
  induction pieces with
  | nil => rfl
  | cons piece pieces ih =>
      rw [printed, List.foldr_cons, printed, List.foldr_cons]
      rw [printed, printed] at ih
      rw [ih]
      cases pairOf piece with
      | some pair => simp [pairText]
      | none => rfl

theorem piecesOf_of_notMem {attr : String × String} (hname : IsName attr.1)
    (hspace : ' ' ∉ attr.2.toList) : piecesOf attr = [attributeChars attr] := by
  have hnameSpace : ' ' ∉ attr.1.toList := hname.notMem (by decide)
  have hattr : ' ' ∉ attributeChars attr := by
    simp [attributeChars, hnameSpace, hspace, quote]
  rw [piecesOf, List.splitOn_eq_singleton hattr]

theorem pairText_attribute (attr : String × String) (rest : List Char) :
    pairText (attr.1.toList, quote :: (attr.2.toList ++ [quote])) rest = flatMember attr rest := by
  simp [pairText, flatMember, quoted]

/-- An attribute that is not split is written as a member. -/
theorem printed_unsplit {attr : String × String} (hname : IsName attr.1)
    (hspace : ' ' ∉ attr.2.toList) (hsign : '=' ∉ attr.2.toList) (pieces : List (List Char))
    (rest : List Char) :
    printed (piecesOf attr ++ pieces) rest = ',' :: flatMember attr (printed pieces rest) := by
  rw [piecesOf_of_notMem hname hspace, List.singleton_append, printed, List.foldr_cons,
    pairOf_attributeChars hname hsign, ← pairText_attribute]
  rfl

/-- The place of a split attribute is not taken by the attribute itself. -/
theorem not_member_of_mem {attr : String × String} {list : List (String × String)}
    (hproper : Proper (attr :: list)) {c : Char} (hc : c ∈ attr.2.toList)
    (hsplits : c = ' ' ∨ c = '=') {piece : List Char} {pair : List Char × List Char}
    (hpiece : piece ∈ (attr :: list).flatMap piecesOf) (hpair : pairOf piece = some pair)
    {behind rest : List Char} (hcloses : Closes behind) :
    ¬Member standard (pairText pair behind) (attr.1, .node attr.2 []) rest := by
  have hname := hproper.names attr List.mem_cons_self
  have hvalue := hproper.values attr List.mem_cons_self
  refine not_member hname hvalue hc hsplits hpair ?_ hcloses
  obtain ⟨other, hother, hmem⟩ := List.mem_flatMap.mp hpiece
  have hotherName := hproper.names other hother
  have hcases := mem_piecesOf hotherName (hproper.values other hother) hmem
  rcases List.mem_cons.mp hother with rfl | hlist
  · refine hcases.imp_right fun horigin => Or.inr ?_
    rcases horigin with ⟨hspace, rfl⟩ | horigin
    · -- The whole attribute is one piece with an equal sign too many.
      have hsign := not_mem_of_pairOf_attributeChars hname hpair
      rcases hsplits with rfl | rfl
      · exact absurd hc hspace
      · exact absurd hc hsign
    · exact horigin
  · refine hcases.imp_right fun horigin => Or.inl ?_
    rcases horigin with ⟨-, rfl⟩ | ⟨front, -, -, rfl⟩
    · exact ⟨other.1, _, hotherName, hproper.ne hlist, rfl⟩
    · exact ⟨other.1, _, hotherName, hproper.ne hlist, rfl⟩

theorem exists_printed (pieces : List (List Char)) (rest : List Char) :
    ∃ c text, printed pieces (closeBrace :: rest) = c :: text ∧ (c = ',' ∨ c = closeBrace) := by
  rcases printed_cases pieces (closeBrace :: rest) with heq | ⟨piece, -, pair, later, -, heq⟩
  · exact ⟨_, _, heq, Or.inr rfl⟩
  · exact ⟨_, _, heq, Or.inl rfl⟩

/-- Members that show the attributes come from attributes that are not split. -/
theorem unsplit_of_members {attr : String × String} {list : List (String × String)}
    (hproper : Proper (attr :: list)) {behind rest : List Char}
    (hcloses : Closes (closeBrace :: behind))
    (h : Members standard (flatMember attr (printed (list.flatMap piecesOf) (closeBrace :: behind)))
      ((attr :: list).map fun entry => (entry.1, .node entry.2 [])) rest) :
    PlainText standard attr.2 ∧ (∀ other ∈ list, Unsplit other.2) ∧ rest = behind := by
  induction list generalizing attr with
  | nil =>
      obtain ⟨after, hmember⟩ := h.exists_member
      generalize hmembers : (([attr] : List (String × String)).map fun entry =>
        (entry.1, PTree.node entry.2 [])) = members at h
      cases h with
      | nil _ => cases hmembers
      | last hlast =>
          obtain ⟨rfl, -⟩ := List.cons.inj hmembers
          obtain ⟨hend, -, hplain⟩ := hlast.plain rfl (by decide)
          exact ⟨hplain, fun other hother => absurd hother List.not_mem_nil,
            (List.cons.inj hend).2⟩
      | more _ _ => cases hmembers
  | cons other list ih =>
      obtain ⟨c, text, hbehind, hc⟩ :=
        exists_printed ((other :: list).flatMap piecesOf) behind
      have hblank : ¬IsBlank c := by rcases hc with rfl | rfl <;> decide
      generalize hmembers : ((attr :: other :: list).map fun entry =>
        (entry.1, PTree.node entry.2 [])) = members at h
      cases h with
      | nil _ => cases hmembers
      | last _ => cases hmembers
      | @more _ next _ _ _ _ hmember hmore =>
          obtain ⟨rfl, hrest⟩ := List.cons.inj hmembers
          obtain ⟨hnext, -, hplain⟩ := hmember.plain hbehind hblank
          rw [← hrest] at hmore
          have hname := hproper.tail.names other List.mem_cons_self
          by_cases hsplit : ' ' ∈ other.2.toList ∨ '=' ∈ other.2.toList
          · -- What comes next is no member for the split attribute.
            exfalso
            rcases printed_cases ((other :: list).flatMap piecesOf) (closeBrace :: behind) with
              heq | ⟨piece, hpiece, pair, later, hpair, heq⟩
            · rw [heq] at hnext
              exact absurd (List.cons.inj hnext).1 (by decide)
            · rw [heq] at hnext
              rw [(List.cons.inj hnext).2] at hmore
              obtain ⟨after, hfirst⟩ := hmore.exists_member
              have hbad := fun {d : Char} (hd : d ∈ other.2.toList) (hd' : d = ' ' ∨ d = '=') =>
                not_member_of_mem hproper.tail hd hd' hpiece hpair (hcloses.printed later) hfirst
              exact hsplit.elim (fun hd => hbad hd (Or.inl rfl)) fun hd => hbad hd (Or.inr rfl)
          · rw [not_or] at hsplit
            rw [List.flatMap_cons, printed_unsplit hname hsplit.1 hsplit.2] at hnext
            rw [(List.cons.inj hnext).2] at hmore
            obtain ⟨hother, hlist, hend⟩ := ih hproper.tail hmore
            exact ⟨hplain, List.forall_mem_cons.mpr ⟨⟨hother, hsplit⟩, hlist⟩, hend⟩

theorem members_of_unsplit {attr : String × String} {list : List (String × String)}
    (hproper : Proper (attr :: list)) (hunsplit : ∀ other ∈ attr :: list, Unsplit other.2)
    (behind : List Char) :
    Members standard (flatMember attr (printed (list.flatMap piecesOf) (closeBrace :: behind)))
      ((attr :: list).map fun entry => (entry.1, .node entry.2 [])) behind := by
  have hplainName : ∀ {name : String}, IsName name → PlainText standard name :=
    fun h c hc => (h c hc).1
  induction list generalizing attr with
  | nil =>
      exact .last (member_flatMember (hplainName (hproper.names attr List.mem_cons_self))
        (hunsplit attr List.mem_cons_self).1 _)
  | cons other list ih =>
      have hother := hunsplit other (List.mem_cons_of_mem attr List.mem_cons_self)
      rw [List.flatMap_cons, printed_unsplit (hproper.tail.names other List.mem_cons_self)
        hother.2.1 hother.2.2]
      have hmember := member_flatMember (hplainName (hproper.names attr List.mem_cons_self))
        (hunsplit attr List.mem_cons_self).1
          (',' :: flatMember other (printed (list.flatMap piecesOf) (closeBrace :: behind)))
      exact .more hmember (ih hproper.tail fun entry hentry =>
        hunsplit entry (List.mem_cons_of_mem attr hentry))

end Hat.IndexPages
