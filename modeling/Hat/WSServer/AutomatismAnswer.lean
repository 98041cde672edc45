import Hat.Core.Places
import Hat.Core.Skipping
import Hat.Minilibs.IndexPages
import Mathlib.Data.List.ReduceOption
import Mathlib.Data.List.TakeWhile

/-!
# Answers about automatisms

The answer has an element for each item of the index page whose name starts with a mark and whose
alias has a category.  Items are found by their word, and the attributes of an item by theirs in
all the rest of the page.
-/

namespace Hat.AutomatismAnswer

open Hat.Hsrv
open Hat.IndexPages

def quote : Char := '\x22'

/-- What stands in quotes behind the next equal sign from the keyword on, up to a comma. -/
def extractValue (body : List Char) (keyword : String) : String :=
  match firstPlace keyword.toList body with
  | none => ""
  | some pos =>
      let sign := (body.drop pos).dropWhile fun c => c ≠ '='
      let value := (sign.dropWhile fun c => c ≠ quote).drop 1
      String.ofList (value.takeWhile fun c => c ≠ quote ∧ c ≠ ',')

def cvtimex2j (src : String) : String :=
  if src.length ≤ 5 then src else String.ofList (src.toList.take 5)

def tcategory (aliasName : String) : String :=
  if 3 < aliasName.length then String.ofList (aliasName.toList.take 2) else ""

def itemFor (par : MParams) (aliasName status start stop : String) : String :=
  let itemstatus := strReplace (par.get "item_status") "$ALIAS" aliasName
  let itemstatus := strReplace itemstatus "$START" (cvtimex2j start)
  let itemstatus := strReplace itemstatus "$END" (cvtimex2j stop)
  strReplace itemstatus "$TRUEFALSE" (if status = "ON" then "true" else "false")

section Answer

variable (par : MParams) (category : String) (mark : Char)

/-- What an item adds to the answer, from the text behind its word. -/
def itemAnswer (lsrc : List Char) : Option String :=
  if (extractValue lsrc "name").toList.head? = some mark then
    let aliasName := extractValue lsrc "alias"
    if tcategory aliasName = category then
      some (itemFor par aliasName (extractValue lsrc "status") (extractValue lsrc "from=")
        (extractValue lsrc "to="))
    else none
  else none

def addItem (body : String) : Option String → String
  | none => body
  | some itemstatus => if body = "" then body ++ itemstatus else body ++ "," ++ itemstatus

def answerFrom (body : String) (src : List Char) : String :=
  match hitem : firstPlace "item".toList src with
  | none => body
  | some newpos =>
      let lsrc := src.drop (newpos + 4)
      answerFrom (addItem body (itemAnswer par category mark lsrc)) lsrc
termination_by src.length
decreasing_by
  cases src with
  | nil => exact absurd hitem.symm (Option.some_ne_none newpos)
  | cons c rest =>
      rw [List.length_drop, List.length_cons]
      omega

def mkAnswerBody (src : String) : String := answerFrom par category mark "" src.toList

end Answer

/-- The text of a description from the equal sign of an attribute on.  A key stands outside of
quotes, from the start, a space or the last quote on, and a value stands in quotes. -/
def signOf (key : List Char) : Bool → List Char → List Char → Option (List Char)
  | _, _, [] => none
  | true, _, c :: rest => signOf key (c ≠ quote) [] rest
  | false, letters, c :: rest =>
      if c = '=' then
        if letters = key ∧ rest.head? = some quote ∧ quote ∈ rest.tail then some (c :: rest)
        else signOf key false [] rest
      else if c = quote then signOf key true [] rest
      else if c = ' ' then signOf key false [] rest
      else signOf key false (letters ++ [c]) rest

def ownSign (key : String) (entry : String × String) : Option (List Char) :=
  signOf key.toList false [] entry.2.toList

def valueAt (sign : List Char) : List Char := (sign.drop 2).takeWhile fun c => c ≠ quote

def own (key : String) (entry : String × String) : String :=
  match ownSign key entry with
  | none => ""
  | some sign => String.ofList (valueAt sign)

section Own

variable (par : MParams) (category : String) (mark : Char)

def Marked (entry : String × String) : Prop := entry.1.toList.head? = some mark

instance (entry : String × String) : Decidable (Marked mark entry) :=
  inferInstanceAs (Decidable (entry.1.toList.head? = some mark))

/-- The element of an entry, with its own attributes. -/
def ownAnswer (entry : String × String) : Option String :=
  if Marked mark entry ∧ tcategory (own "alias" entry) = category then
    some (itemFor par (own "alias" entry) (own "status" entry) (own "from" entry)
      (own "to" entry))
  else none

def ownAnswers (entries : List (String × String)) : List String :=
  entries.filterMap (ownAnswer par category mark)

/-- The answer has the elements of the marked entries of the category, in order. -/
def AnswersOwn (index : Index) : Prop :=
  mkAnswerBody par category mark (xmlIndex index) =
    NameList.joined (ownAnswers par category mark index.entries) ','

end Own

/-- The text of an item behind its word. -/
def behindItem (entry : String × String) : List Char := (xmlItem entry).toList.drop 5

/-- The page from some entry on. -/
def pageFrom (entries : List (String × String)) : List Char :=
  (String.join (entries.map xmlItem) ++ "</list>\n").toList

/-- In the rest of the page the keyword leads to the entry's own attribute, and there is no
comma in its value; or there is no such attribute, and the keyword is nowhere. -/
def Reads (keyword key : String) (entry : String × String) (later : List (String × String)) :
    Prop :=
  match ownSign key entry with
  | none => firstPlace keyword.toList (behindItem entry ++ pageFrom later) = none
  | some sign =>
      (firstPlace keyword.toList (behindItem entry ++ pageFrom later)).map
          (fun pos => ((behindItem entry ++ pageFrom later).drop pos).dropWhile fun c => c ≠ '=') =
        some (sign ++ "/>\n".toList ++ pageFrom later) ∧ ',' ∉ valueAt sign

instance (keyword key : String) (entry : String × String) (later : List (String × String)) :
    Decidable (Reads keyword key entry later) :=
  match hsign : ownSign key entry with
  | none =>
      decidable_of_iff
        (firstPlace keyword.toList (behindItem entry ++ pageFrom later) = none)
        (by rw [Reads, hsign])
  | some sign =>
      decidable_of_iff
        ((firstPlace keyword.toList (behindItem entry ++ pageFrom later)).map
            (fun pos =>
              ((behindItem entry ++ pageFrom later).drop pos).dropWhile fun c => c ≠ '=') =
          some (sign ++ "/>\n".toList ++ pageFrom later) ∧ ',' ∉ valueAt sign)
        (by rw [Reads, hsign])

/-- The attributes that are looked for are read from the entry itself. -/
structure ReadsOwn (category : String) (entry : String × String)
    (later : List (String × String)) : Prop where
  aliasName : Reads "alias" "alias" entry later
  status : tcategory (own "alias" entry) = category → Reads "status" "status" entry later
  start : tcategory (own "alias" entry) = category → Reads "from=" "from" entry later
  stop : tcategory (own "alias" entry) = category → Reads "to=" "to" entry later

/-- No entry has the word for items in its name or its description, and the marked ones read
their own attributes. -/
def Isolated (category : String) (mark : Char) : List (String × String) → Prop
  | [] => True
  | entry :: later =>
      ¬"item".toList <:+: behindItem entry ∧
        (Marked mark entry → mark ≠ quote ∧ mark ≠ ',' ∧ ReadsOwn category entry later) ∧
        Isolated category mark later

theorem toList_xmlItem (entry : String × String) :
    (xmlItem entry).toList = "<item".toList ++ behindItem entry := by
  have hfront : (xmlItem entry).toList.take 5 = "<item".toList := by
    rw [xmlItem]
    split <;> simp [String.toList_append]
  rw [behindItem, ← hfront, List.take_append_drop]

theorem pageFrom_cons (entry : String × String) (later : List (String × String)) :
    pageFrom (entry :: later) = "<item".toList ++ (behindItem entry ++ pageFrom later) := by
  simp only [pageFrom, List.map_cons, String.join_cons, String.toList_append, toList_xmlItem,
    List.append_assoc]

/-- An item starts with its name. -/
theorem exists_behindItem (entry : String × String) :
    ∃ text, behindItem entry = " name=\"".toList ++ (entry.1.toList ++ quote :: text) := by
  rw [behindItem, xmlItem]
  split
  · exact ⟨" value=\"".toList ++ (entry.2.toList ++ "\"/>\n".toList), by
      simp [String.toList_append, quote]⟩
  · exact ⟨" ".toList ++ (entry.2.toList ++ "/>\n".toList), by
      simp [String.toList_append, quote]⟩

variable {front : List Char}

theorem not_item_prefix (hfront : ¬"item".toList <:+: front) (rest : List Char) :
    ∀ i < front.length, ¬"item".toList <+: (front ++ '<' :: rest).drop i := by
  intro i hi
  refine not_prefix_append_cons (by decide) hi (fun hprefix => hfront ?_) rest
  exact hprefix.isInfix.trans (List.drop_suffix i front).isInfix

theorem firstPlace_item (hfront : ¬"item".toList <:+: front) (rest : List Char) :
    firstPlace "item".toList (front ++ ("<item".toList ++ rest)) = some (front.length + 1) := by
  have hitem : firstPlace "item".toList ('<' :: ("item".toList ++ rest)) = some 1 := by
    simp [firstPlace, List.cons_prefix_cons]
  have hshift := not_item_prefix hfront ("item".toList ++ rest)
  exact (firstPlace_append hshift).trans (by rw [hitem, Option.map_some, Nat.add_comm])

theorem firstPlace_item_end (hfront : ¬"item".toList <:+: front) :
    firstPlace "item".toList (front ++ pageFrom []) = none := by
  have hend : firstPlace "item".toList ('<' :: "/list>\n".toList) = none := by decide
  have hshift := not_item_prefix hfront "/list>\n".toList
  exact (firstPlace_append hshift).trans (by rw [hend, Option.map_none])

section Answer

variable (par : MParams) (category : String) (mark : Char)

theorem answerFrom_of_none {src : List Char} (hitem : firstPlace "item".toList src = none)
    (body : String) : answerFrom par category mark body src = body := by
  rw [answerFrom]
  split
  · rfl
  · rename_i newpos hsome
    rw [hitem] at hsome
    exact absurd hsome (Option.some_ne_none newpos).symm

theorem answerFrom_of_some {src : List Char} {newpos : ℕ}
    (hitem : firstPlace "item".toList src = some newpos) (body : String) :
    answerFrom par category mark body src =
      answerFrom par category mark
        (addItem body (itemAnswer par category mark (src.drop (newpos + 4))))
        (src.drop (newpos + 4)) := by
  rw [answerFrom]
  split
  · rename_i hnone
    rw [hitem] at hnone
    exact absurd hnone (Option.some_ne_none newpos)
  · rename_i other hsome
    rw [hitem, Option.some.injEq] at hsome
    rw [hsome]

/-- What the items add one after the other, each from the rest of the page. -/
def pageAnswers : List (String × String) → List (Option String)
  | [] => []
  | entry :: later =>
      itemAnswer par category mark (behindItem entry ++ pageFrom later) :: pageAnswers later

theorem answerFrom_page {entries : List (String × String)}
    (hentries : ∀ entry ∈ entries, ¬"item".toList <:+: behindItem entry)
    (hfront : ¬"item".toList <:+: front) (body : String) :
    answerFrom par category mark body (front ++ pageFrom entries) =
      (pageAnswers par category mark entries).foldl addItem body := by
  induction entries generalizing front body with
  | nil => exact answerFrom_of_none par category mark (firstPlace_item_end hfront) body
  | cons entry later ih =>
      have hdrop : (front ++ pageFrom (entry :: later)).drop (front.length + 1 + 4) =
          behindItem entry ++ pageFrom later := by
        rw [pageFrom_cons, ← List.append_assoc]
        exact List.drop_left' (by simp)
      have hplace : firstPlace "item".toList (front ++ pageFrom (entry :: later)) =
          some (front.length + 1) := by
        rw [pageFrom_cons]
        exact firstPlace_item hfront _
      rw [answerFrom_of_some par category mark hplace, hdrop, pageAnswers, List.foldl_cons]
      exact ih (fun other hother => hentries other (List.mem_cons_of_mem entry hother))
        (hentries entry List.mem_cons_self) _

/-- Without the word in the entries, each of them is one item of the page. -/
theorem mkAnswerBody_xmlIndex {index : Index}
    (hentries : ∀ entry ∈ index.entries, ¬"item".toList <:+: behindItem entry) :
    mkAnswerBody par category mark (xmlIndex index) =
      (pageAnswers par category mark index.entries).foldl addItem "" := by
  have hpage : (xmlIndex index).toList = pageHeader.toList ++ pageFrom index.entries := by
    rw [xmlIndex, String.append_assoc, String.toList_append, pageFrom]
  have hheader : ¬"item".toList <:+: pageHeader.toList := by
    rw [← isSome_firstPlace_iff]
    decide
  rw [mkAnswerBody, hpage]
  exact answerFrom_page par category mark hentries hheader ""

end Answer

/-! ## Reading an entry's own attributes -/

variable {mark : Char} {category : String} {entry : String × String}
  {later : List (String × String)}

theorem extractValue_name (entry : String × String) (rest : List Char) :
    ∃ text, extractValue (behindItem entry ++ rest) "name" =
      String.ofList ((entry.1.toList ++ quote :: text).takeWhile fun c => c ≠ quote ∧ c ≠ ',') := by
  obtain ⟨text, htext⟩ := exists_behindItem entry
  have hname : behindItem entry ++ rest =
      ' ' :: ("name".toList ++ '=' :: quote :: (entry.1.toList ++ quote :: (text ++ rest))) := by
    rw [htext]
    simp [quote]
  have hplace : firstPlace "name".toList (behindItem entry ++ rest) = some 1 := by
    rw [hname]
    simp [firstPlace, List.cons_prefix_cons]
  refine ⟨text ++ rest, ?_⟩
  rw [extractValue, hplace, hname]
  simp [quote]

theorem marked_of_extractValue {rest : List Char}
    (hname : (extractValue (behindItem entry ++ rest) "name").toList.head? = some mark) :
    Marked mark entry := by
  obtain ⟨text, htext⟩ := extractValue_name entry rest
  rw [htext, String.toList_ofList] at hname
  cases hchars : entry.1.toList with
  | nil =>
      rw [hchars] at hname
      simp [quote] at hname
  | cons c name =>
      rw [hchars, List.cons_append, List.takeWhile_cons] at hname
      rw [Marked, hchars, List.head?_cons]
      split at hname
      · exact hname
      · simp at hname

theorem extractValue_of_marked (hmarked : Marked mark entry) (hquote : mark ≠ quote)
    (hcomma : mark ≠ ',') (rest : List Char) :
    (extractValue (behindItem entry ++ rest) "name").toList.head? = some mark := by
  obtain ⟨text, htext⟩ := extractValue_name entry rest
  obtain ⟨name, hname⟩ := List.head?_eq_some_iff.mp hmarked
  rw [htext, String.toList_ofList, hname]
  simp [hquote, hcomma]

/-- An attribute has its value in quotes behind the equal sign. -/
theorem eq_of_signOf {key text letters sign : List Char} {inside : Bool}
    (hsign : signOf key inside letters text = some sign) :
    ∃ rest, sign = '=' :: quote :: rest ∧ quote ∈ rest := by
  induction text generalizing inside letters with
  | nil => cases inside <;> simp [signOf] at hsign
  | cons c rest ih =>
      cases inside with
      | true =>
          rw [signOf] at hsign
          exact ih hsign
      | false =>
          rw [signOf] at hsign
          split_ifs at hsign with heq hvalue hquote hspace
          · obtain ⟨-, hhead, hend⟩ := hvalue
            obtain ⟨value, rfl⟩ := List.head?_eq_some_iff.mp hhead
            exact ⟨value, by rw [← Option.some.inj hsign, heq], hend⟩
          · exact ih hsign
          · exact ih hsign
          · exact ih hsign
          · exact ih hsign

theorem takeWhile_value {text : List Char} (hquote : quote ∈ text)
    (hcomma : ',' ∉ text.takeWhile fun c => c ≠ quote) (rest : List Char) :
    ((text ++ rest).takeWhile fun c => c ≠ quote ∧ c ≠ ',') =
      text.takeWhile fun c => c ≠ quote := by
  induction text with
  | nil => exact absurd hquote List.not_mem_nil
  | cons c text ih =>
      by_cases hc : c = quote
      · simp [hc]
      · rw [List.takeWhile_cons_of_pos (by simpa using hc), List.mem_cons, not_or] at hcomma
        have hmem := (List.mem_cons.mp hquote).resolve_left (Ne.symm hc)
        have hboth : c ≠ quote ∧ c ≠ ',' := ⟨hc, Ne.symm hcomma.1⟩
        rw [List.cons_append, List.takeWhile_cons_of_pos (by simpa using hboth),
          List.takeWhile_cons_of_pos (by simpa using hc), ih hmem hcomma.2]

theorem Reads.extractValue_eq {keyword key : String} (hreads : Reads keyword key entry later) :
    extractValue (behindItem entry ++ pageFrom later) keyword = own key entry := by
  rw [Reads] at hreads
  rw [own, extractValue]
  cases hsign : ownSign key entry with
  | none =>
      rw [hsign] at hreads
      rw [hreads]
  | some sign =>
      rw [hsign] at hreads
      obtain ⟨hplace, hcomma⟩ := hreads
      obtain ⟨pos, hpos, htext⟩ := Option.map_eq_some_iff.mp hplace
      obtain ⟨rest, rfl, hquote⟩ := eq_of_signOf hsign
      have hvalue := takeWhile_value hquote hcomma ("/>\n".toList ++ pageFrom later)
      rw [hpos]
      simp only [htext, valueAt]
      rw [List.append_assoc, List.cons_append, List.dropWhile_cons_of_pos (by decide),
        List.cons_append, List.dropWhile_cons_of_neg (by simp), List.drop_one, List.tail_cons,
        hvalue]
      rfl

section Answer

variable (par : MParams)

theorem itemAnswer_eq_ownAnswer
    (hown : Marked mark entry → mark ≠ quote ∧ mark ≠ ',' ∧ ReadsOwn category entry later) :
    itemAnswer par category mark (behindItem entry ++ pageFrom later) =
      ownAnswer par category mark entry := by
  rw [itemAnswer, ownAnswer]
  by_cases hmarked : Marked mark entry
  · obtain ⟨hquote, hcomma, hreads⟩ := hown hmarked
    rw [if_pos (extractValue_of_marked hmarked hquote hcomma _), hreads.aliasName.extractValue_eq]
    by_cases hcategory : tcategory (own "alias" entry) = category
    · rw [if_pos hcategory, if_pos ⟨hmarked, hcategory⟩, (hreads.status hcategory).extractValue_eq,
        (hreads.start hcategory).extractValue_eq, (hreads.stop hcategory).extractValue_eq]
    · rw [if_neg hcategory, if_neg fun h => hcategory h.2]
  · rw [if_neg fun hname => hmarked (marked_of_extractValue hname), if_neg fun h => hmarked h.1]

theorem Isolated.pageAnswers_eq {entries : List (String × String)}
    (hisolated : Isolated category mark entries) :
    pageAnswers par category mark entries = entries.map (ownAnswer par category mark) := by
  induction entries with
  | nil => rfl
  | cons entry later ih =>
      obtain ⟨-, hown, hlater⟩ := hisolated
      rw [pageAnswers, List.map_cons, itemAnswer_eq_ownAnswer par hown, ih hlater]

theorem Isolated.not_item {entries : List (String × String)}
    (hisolated : Isolated category mark entries) :
    ∀ entry ∈ entries, ¬"item".toList <:+: behindItem entry := by
  induction entries with
  | nil => exact fun entry hentry => absurd hentry List.not_mem_nil
  | cons first later ih =>
      intro entry hentry
      rcases List.mem_cons.mp hentry with rfl | hmem
      · exact hisolated.1
      · exact ih hisolated.2.2 entry hmem

/-- The elements are joined as those of a list that skips leading separators. -/
theorem foldl_addItem (answers : List (Option String)) (body : String) :
    answers.foldl addItem body =
      String.ofList ((answers.reduceOption.map String.toList).foldl
        (fun text piece => (if text ≠ [] then text ++ [','] else text) ++ piece) body.toList) := by
  induction answers generalizing body with
  | nil => exact String.ofList_toList.symm
  | cons answer answers ih =>
      rw [List.foldl_cons, ih]
      cases answer with
      | none => rw [List.reduceOption_cons_of_none, addItem]
      | some itemstatus =>
          rw [List.reduceOption_cons_of_some, List.map_cons, List.foldl_cons, addItem]
          by_cases hbody : body = ""
          · simp [hbody]
          · simp [hbody]

/-- If the entries keep apart, and a first element of several is not empty, the answer has one
element for each marked entry of the category, with its own attributes. -/
theorem answersOwn_of_isolated {index : Index}
    (hisolated : Isolated category mark index.entries)
    (hfirst : (ownAnswers par category mark index.entries).length ≤ 1 ∨
      (ownAnswers par category mark index.entries).head? ≠ some "") :
    AnswersOwn par category mark index := by
  have hanswers : (index.entries.map (ownAnswer par category mark)).reduceOption =
      ownAnswers par category mark index.entries := by
    rw [List.reduceOption, List.filterMap_map]
    rfl
  have hhead : (ownAnswers par category mark index.entries).length ≤ 1 ∨
      ((ownAnswers par category mark index.entries).map String.toList).head? ≠ some [] := by
    rw [List.head?_map]
    refine hfirst.imp_right fun hne heq => hne ?_
    obtain ⟨answer, hanswer, hnil⟩ := Option.map_eq_some_iff.mp heq
    rw [hanswer, String.toList_eq_nil_iff.mp hnil]
  have hjoin := (joinSkipping_eq_intercalate_iff ','
    ((ownAnswers par category mark index.entries).map String.toList)).mpr
      (hhead.imp_left fun hlength => by rwa [List.length_map])
  rw [AnswersOwn, mkAnswerBody_xmlIndex par category mark hisolated.not_item,
    hisolated.pageAnswers_eq, foldl_addItem, hanswers, NameList.joined, ← hjoin]
  rfl

end Answer

def answerParams : MParams where
  ty := "automatismmanager"
  attributes := [⟨"item_status", "generic", "$ALIAS $TRUEFALSE $START $END"⟩]
  path := none
  pathh := none

/-- A rule for the lights in the hall, as it is published. -/
def hallRule : String × String :=
  ("R_1", "alias=\"LI_hall\" status=\"ON\" from=\"08:00:00\" to=\"09:30:00\"")

def lampIndex : Index := ⟨[hallRule, ("lamp", "OFF")], by decide⟩

theorem answersOwn_lampIndex : AnswersOwn answerParams "LI" 'R' lampIndex := by
  have hsilent : ¬"item".toList <:+: behindItem hallRule ∧
      ¬"item".toList <:+: behindItem ("lamp", "OFF") := by
    rw [← isSome_firstPlace_iff, ← isSome_firstPlace_iff]
    decide +kernel
  have hreads : ReadsOwn "LI" hallRule [("lamp", "OFF")] :=
    ⟨by decide +kernel, fun _ => by decide +kernel, fun _ => by decide +kernel,
      fun _ => by decide +kernel⟩
  have hlamp : ¬Marked 'R' ("lamp", "OFF") := by decide
  have hisolated : Isolated "LI" 'R' lampIndex.entries :=
    ⟨hsilent.1, fun _ => ⟨by decide, by decide, hreads⟩, hsilent.2, fun h => absurd h hlamp,
      trivial⟩
  exact answersOwn_of_isolated answerParams hisolated (by decide +kernel)

/-- A strip of coloured lights, whose name starts as that of a rule and which has no alias. -/
def stripIndex : Index :=
  ⟨[("RGB", "type=\"target\" value=\"0\" status=\"OFF\""), hallRule], by decide⟩

/-- The strip is shown as an automatism, with the alias and the times of the rule. -/
theorem not_answersOwn_stripIndex : ¬AnswersOwn answerParams "LI" 'R' stripIndex := by
  have hsilent : ∀ entry ∈ stripIndex.entries, ¬"item".toList <:+: behindItem entry := by
    intro entry hentry
    rw [← isSome_firstPlace_iff]
    revert entry
    decide +kernel
  rw [AnswersOwn, mkAnswerBody_xmlIndex answerParams "LI" 'R' hsilent]
  decide +kernel

end Hat.AutomatismAnswer
