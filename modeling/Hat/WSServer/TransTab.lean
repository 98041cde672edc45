import Hat.Core.Places
import Hat.Minilibs.AgentInfo
import Hat.Minilibs.MParams
import Hat.Minilibs.StrReplace
import Mathlib.Tactic.IntervalCases

/-!
# Translation of requests into commands

An entry of the translation table turns the path of a request into a command.  A name and a
value are copied from the path up to the first dot, letter by letter, as long as the place of
a letter is less than its code.
-/

namespace Hat

open Hat.Hsrv

structure TransEntry extends MParams where
  /-- The parts of the path that the entry is for. -/
  segments : NameList
  method : String
  category : String
  nameindex : ℕ
  valueindex : ℕ

namespace TransEntry

def nameMarks : List String := ["$NAME", "$NAME.json"]

def valueMarks : List String := ["$VALUE", "$VALUE.json"]

/-- The loop that looks for a mark. -/
def indexOf (marks : List String) (first : ℕ) (segments : NameList) : ℕ :=
  segments.zipIdx.foldl (fun found entry => if entry.1 ∈ marks then entry.2 else found) first

/-- The place of the value is not set at first. -/
def new (params : MParams) (unset : ℕ) : TransEntry :=
  let params := params.load
  let segments := NameList.init [] (params.get "prefix") '/'
  { params with
    segments := segments
    method := params.get "method"
    category := params.get "class"
    nameindex := indexOf nameMarks 0 segments
    valueindex := indexOf valueMarks unset segments }

def isMatch (params : List String) (mtd : String) (entry : TransEntry) : Bool :=
  params.length = entry.segments.length && entry.method = mtd &&
    (params.zip entry.segments).all fun part =>
      (part.1 = part.2 || part.2 = "$AGENT" || part.2 ∈ nameMarks || part.2 ∈ valueMarks) &&
        (part.2 ∉ nameMarks || entry.category.toList.isPrefixOf part.1.toList)

/-- The loop that copies a part of the path, from place `i` on.  A place is compared with the
code of its letter, and a zero byte stands behind the last one. -/
def copied (charCode : Char → ℕ) : ℕ → List Char → List Char
  | _, [] => []
  | i, c :: rest =>
      if i < charCode c ∧ c ≠ '.' then c :: copied charCode (i + 1) rest else []

/-- The part of the path in a place. -/
def segment (params : List String) (i : ℕ) : List Char := (params.getD i "").toList

def part (charCode : Char → ℕ) (params : List String) (index : ℕ) : String :=
  if index < params.length ∧ 0 < index then
    String.ofList (copied charCode 0 (segment params index))
  else ""

def getName (charCode : Char → ℕ) (params : List String) (entry : TransEntry) : String :=
  part charCode params entry.nameindex

def replaceSpaces (v : String) : String :=
  String.ofList (v.toList.map fun c => if c = ' ' then '+' else c)

def getValue (charCode : Char → ℕ) (params : List String) (entry : TransEntry) : String :=
  replaceSpaces (part charCode params entry.valueindex)

def isnoentry (entry : TransEntry) : Bool := entry.category = "NULL"

def nv2av (charCode : Char → ℕ) (params : List String) (nv : String) (entry : TransEntry) :
    String :=
  if nv = "$VALUE" then entry.getValue charCode params else nv

def rpc2cmd (charCode : Char → ℕ) (params : List String) (body : String) (entry : TransEntry) :
    MMessage :=
  if entry.isnoentry then MMessage.mk2 "NULL" "*"
  else
    let name := entry.getName charCode params
    let command (tmp : MMessage) : MMessage :=
      { tmp with mtype := "cmd", msubtype := if name = "" then entry.get "cmdname" else name }
    if entry.get "url" ≠ "" then
      let url := strReplace (entry.get "url") "$VALUE" (entry.getValue charCode params)
      let tmp := MMessage.blank.add "url" (strReplace url "$NAME" name)
      command (if body ≠ "" then tmp.add "body" body else tmp)
    else
      match NameList.init [] (entry.get "cmd") '=' with
      | field :: nv :: _ => command (MMessage.blank.add field (entry.nv2av charCode params nv))
      | _ => MMessage.mk2 "NULL" "*"

/-- A part of the path up to its first dot. -/
def stem (segment : List Char) : List Char := segment.takeWhile fun c => c ≠ '.'

def namePlace (entry : TransEntry) : Option ℕ := lastIdx (· ∈ nameMarks) entry.segments

def valuePlace (entry : TransEntry) : Option ℕ := lastIdx (· ∈ valueMarks) entry.segments

def subtypeFor (params : List String) (entry : TransEntry) : String :=
  match entry.namePlace with
  | some i => String.ofList (stem (segment params i))
  | none => entry.get "cmdname"

def valueFor (params : List String) (entry : TransEntry) : String :=
  match entry.valuePlace with
  | some i => replaceSpaces (String.ofList (stem (segment params i)))
  | none => ""

/-- What the place of the name in a url gets; a name in the first part of the path is not read. -/
def nameFor (params : List String) (entry : TransEntry) : String :=
  match entry.namePlace with
  | some i => if i = 0 then "" else String.ofList (stem (segment params i))
  | none => ""

/-- The text with the value in every place of `$VALUE`. -/
def withValue (value : String) (text : List Char) : List Char :=
  fillAll "$VALUE".toList value.toList text

/-- The url with the value in every place of `$VALUE`, and the name in the first of `$NAME`. -/
def urlFor (value name url : String) : String :=
  match firstPlace "$NAME".toList url.toList with
  | some i =>
      String.ofList (withValue value (url.toList.take i) ++ name.toList ++
        withValue value (url.toList.drop (i + "$NAME".toList.length)))
  | none => String.ofList (withValue value url.toList)

/-- The request becomes a command for its name, in which `$VALUE` stands for its value. -/
structure Translates (charCode : Char → ℕ) (params : List String) (body : String)
    (entry : TransEntry) : Prop where
  mtype : (entry.rpc2cmd charCode params body).mtype = "cmd"
  msubtype : (entry.rpc2cmd charCode params body).msubtype = entry.subtypeFor params
  value : entry.getValue charCode params = entry.valueFor params
  /-- When the value is put into the url, it takes all its places. -/
  places : (strReplace (entry.get "url") "$VALUE" (entry.valueFor params)).toList =
    withValue (entry.valueFor params) (entry.get "url").toList
  url : entry.get "url" ≠ "" →
    (entry.rpc2cmd charCode params body).getString "url" =
        urlFor (entry.valueFor params) (entry.nameFor params) (entry.get "url") ∧
      (entry.rpc2cmd charCode params body).getString "body" = body
  cmd : entry.get "url" = "" → ∀ field nv rest,
    NameList.init [] (entry.get "cmd") '=' = field :: nv :: rest →
      (entry.rpc2cmd charCode params body).getString field =
        String.ofList (withValue (entry.valueFor params) nv.toList)

/-- Every letter up to the first dot has a code above its place. -/
def Fits (charCode : Char → ℕ) (segment : List Char) : Prop :=
  ∀ k c, (stem segment)[k]? = some c → k < charCode c

/-- The entry is one, and says what command it is for. -/
def HasCommand (entry : TransEntry) : Prop :=
  entry.get "class" ≠ "NULL" ∧
    (entry.get "url" ≠ "" ∨ 2 ≤ (NameList.init [] (entry.get "cmd") '=').length)

/-- A name in the first place is not read, and an empty one is not used. -/
def NameFits (charCode : Char → ℕ) (params : List String) (entry : TransEntry) : Prop :=
  ∀ i, entry.namePlace = some i →
    if i = 0 ∨ stem (segment params i) = [] then
      String.ofList (stem (segment params i)) = entry.get "cmdname"
    else Fits charCode (segment params i)

/-- Without a place of its own, the value is read from where its place happens to be. -/
def ValueFits (charCode : Char → ℕ) (params : List String) (unset : ℕ) (entry : TransEntry) :
    Prop :=
  match entry.valuePlace with
  | some i => if i = 0 then stem (segment params i) = [] else Fits charCode (segment params i)
  | none => unset = 0 ∨ params.length ≤ unset ∨ stem (segment params unset) = []

/-- The url has one place for the value, unless the value looks like the place.  With the value in
it no `$NAME` comes up before the one of the url, unless the name does not show where it stands. -/
structure UrlFits (value name url : String) : Prop where
  once : ¬ Repeated "$VALUE".toList url.toList ∨ value = "$VALUE"
  own : ∀ i, firstPlace "$NAME".toList url.toList = some i →
    Steady "$NAME".toList name.toList (withValue value (url.toList.take i))
  none : firstPlace "$NAME".toList url.toList = none →
    ¬ "$NAME".toList <:+: withValue value url.toList ∨ name = "$NAME"

/-- The field of a command is the value, or has no place for it. -/
def CmdFits (params : List String) (entry : TransEntry) : Prop :=
  entry.get "url" = "" → ∀ field nv rest,
    NameList.init [] (entry.get "cmd") '=' = field :: nv :: rest →
      nv = "$VALUE" ∨ ¬ "$VALUE".toList <:+: nv.toList ∨ entry.valueFor params = "$VALUE"

section Copy

variable (charCode : Char → ℕ)

theorem copied_prefix_stem (i : ℕ) (text : List Char) : copied charCode i text <+: stem text := by
  induction text generalizing i with
  | nil => exact List.prefix_refl _
  | cons c rest ih =>
      rw [copied]
      split_ifs with hcopy
      · rw [stem, List.takeWhile_cons_of_pos (by simpa using hcopy.2)]
        exact List.cons_prefix_cons.mpr ⟨rfl, ih (i + 1)⟩
      · exact List.nil_prefix

theorem copied_eq_stem_iff (i : ℕ) (text : List Char) :
    copied charCode i text = stem text ↔
      ∀ k c, (stem text)[k]? = some c → i + k < charCode c := by
  induction text generalizing i with
  | nil => simp [copied, stem]
  | cons c rest ih =>
      by_cases hdot : c = '.'
      · simp [copied, stem, hdot]
      · have hstem : stem (c :: rest) = c :: stem rest :=
          List.takeWhile_cons_of_pos (by simpa using hdot)
        rw [copied, hstem]
        by_cases hfits : i < charCode c
        · rw [if_pos ⟨hfits, hdot⟩, List.cons_inj_right, ih]
          constructor
          · intro hrest k d hk
            cases k with
            | zero => exact Option.some.inj hk ▸ hfits
            | succ k =>
                have hlater := hrest k d hk
                omega
          · intro hall k d hk
            have hlater := hall (k + 1) d hk
            omega
        · rw [if_neg fun hcopy => hfits hcopy.1]
          refine iff_of_false (List.cons_ne_nil _ _).symm fun hall => hfits ?_
          exact hall 0 c rfl

/-- The part is copied as a whole exactly if it fits. -/
theorem copied_eq_stem_iff_fits (text : List Char) :
    copied charCode 0 text = stem text ↔ Fits charCode text := by
  rw [copied_eq_stem_iff]
  simp only [Nat.zero_add, Fits]

theorem copied_eq_nil_iff {text : List Char} (hprintable : ∀ c ∈ text, 0 < charCode c) :
    copied charCode 0 text = [] ↔ stem text = [] := by
  cases text with
  | nil => exact iff_of_true rfl rfl
  | cons c rest =>
      by_cases hdot : c = '.'
      · simp [copied, stem, hdot]
      · rw [copied, if_pos ⟨hprintable c List.mem_cons_self, hdot⟩, stem,
          List.takeWhile_cons_of_pos (by simpa using hdot)]
        exact iff_of_false (List.cons_ne_nil _ _) (List.cons_ne_nil _ _)

theorem replaceSpaces_empty : replaceSpaces "" = "" := by decide +kernel

theorem length_replaceSpaces (v : String) : (replaceSpaces v).toList.length = v.toList.length := by
  rw [replaceSpaces, String.toList_ofList, List.length_map]

theorem replaceSpaces_eq_empty_iff (v : String) : replaceSpaces v = "" ↔ v = "" := by
  rw [← String.toList_eq_nil_iff, ← String.toList_eq_nil_iff, ← List.length_eq_zero_iff,
    ← List.length_eq_zero_iff, length_replaceSpaces]

/-- A part that is cut off shows in the value. -/
theorem replaceSpaces_copied_iff (text : List Char) :
    replaceSpaces (String.ofList (copied charCode 0 text)) =
        replaceSpaces (String.ofList (stem text)) ↔ Fits charCode text := by
  rw [← copied_eq_stem_iff_fits]
  constructor
  · intro heq
    have hlength := congrArg (fun v : String => v.toList.length) heq
    simp only [length_replaceSpaces, String.toList_ofList] at hlength
    exact (copied_prefix_stem charCode 0 text).eq_of_length hlength
  · intro heq
    rw [heq]

end Copy

/-! ## What an entry yields -/

section Yield

variable (charCode : Char → ℕ) {params : List String} {entry : TransEntry}

theorem rpc2cmd_of_hasCommand (hcategory : entry.category = entry.get "class")
    (hcommand : entry.HasCommand) (params : List String) (body : String) :
    (entry.rpc2cmd charCode params body).mtype = "cmd" ∧
      (entry.rpc2cmd charCode params body).msubtype =
        if entry.getName charCode params = "" then entry.get "cmdname"
        else entry.getName charCode params := by
  have hentry : ¬entry.isnoentry = true := by
    rw [isnoentry, hcategory, decide_eq_true_eq]
    exact hcommand.1
  rw [rpc2cmd, if_neg hentry]
  by_cases hurl : entry.get "url" ≠ ""
  · rw [if_pos hurl]
    exact ⟨rfl, rfl⟩
  · rw [if_neg hurl]
    cases htodo : NameList.init [] (entry.get "cmd") '=' with
    | nil =>
        have htwo := hcommand.2.resolve_left hurl
        rw [htodo] at htwo
        exact absurd htwo (by decide)
    | cons field rest =>
        cases rest with
        | nil =>
            have htwo := hcommand.2.resolve_left hurl
            rw [htodo] at htwo
            exact absurd htwo (by simp)
        | cons nv rest => exact ⟨rfl, rfl⟩

theorem getString_add_blank (field value : String) :
    (MMessage.blank.add field value).getString field = value :=
  MMessage.getString_add_self _ _ _ fun _ hitems => nomatch hitems

/-- The header of a message does not count for its fields. -/
theorem getString_header (tmp : MMessage) (mtype msubtype field : String) :
    MMessage.getString field { tmp with mtype := mtype, msubtype := msubtype } =
      tmp.getString field := rfl

/-- The fields of a command for a url. -/
theorem getString_rpc2cmd_url (hcategory : entry.category = entry.get "class")
    (hcommand : entry.HasCommand) (hurl : entry.get "url" ≠ "") (params : List String)
    (body : String) :
    (entry.rpc2cmd charCode params body).getString "url" =
        strReplace (strReplace (entry.get "url") "$VALUE" (entry.getValue charCode params)) "$NAME"
          (entry.getName charCode params) ∧
      (entry.rpc2cmd charCode params body).getString "body" = body := by
  have hentry : ¬entry.isnoentry = true := by
    rw [isnoentry, hcategory, decide_eq_true_eq]
    exact hcommand.1
  rw [rpc2cmd, if_neg hentry, if_pos hurl]
  dsimp only
  rw [getString_header _ _ _ "url", getString_header _ _ _ "body"]
  by_cases hbody : body ≠ ""
  · rw [if_pos hbody]
    constructor
    · rw [MMessage.getString_add_of_ne _ _ (by decide), getString_add_blank]
    · refine MMessage.getString_add_self _ _ _ fun items hitems => ?_
      rw [MMessage.find?_add_of_ne _ _ (by decide)] at hitems
      exact nomatch hitems
  · rw [if_neg hbody, not_not.mp hbody]
    refine ⟨getString_add_blank _ _, ?_⟩
    rw [MMessage.getString_add_of_ne _ _ (by decide)]
    rfl

/-- The field of a command without a url. -/
theorem getString_rpc2cmd_cmd (hcategory : entry.category = entry.get "class")
    (hcommand : entry.HasCommand) (hurl : entry.get "url" = "") {field nv : String}
    {rest : List String} (htodo : NameList.init [] (entry.get "cmd") '=' = field :: nv :: rest)
    (params : List String) (body : String) :
    (entry.rpc2cmd charCode params body).getString field = entry.nv2av charCode params nv := by
  have hentry : ¬entry.isnoentry = true := by
    rw [isnoentry, hcategory, decide_eq_true_eq]
    exact hcommand.1
  rw [rpc2cmd, if_neg hentry, if_neg (not_not.mpr hurl), htodo]
  exact getString_add_blank _ _

theorem hasCommand_of_mtype (hcategory : entry.category = entry.get "class") {body : String}
    (hmtype : (entry.rpc2cmd charCode params body).mtype = "cmd") : entry.HasCommand := by
  rw [rpc2cmd] at hmtype
  by_cases hentry : entry.isnoentry = true
  · rw [if_pos hentry] at hmtype
    exact absurd hmtype (by decide)
  · rw [if_neg hentry] at hmtype
    rw [isnoentry, hcategory, decide_eq_true_eq] at hentry
    refine ⟨hentry, or_iff_not_imp_left.mpr fun hurl => ?_⟩
    rw [if_neg hurl] at hmtype
    cases htodo : NameList.init [] (entry.get "cmd") '=' with
    | nil =>
        rw [htodo] at hmtype
        exact absurd hmtype (by simp [MMessage.mk2])
    | cons field rest =>
        cases rest with
        | nil =>
            rw [htodo] at hmtype
            exact absurd hmtype (by simp [MMessage.mk2])
        | cons nv rest => simp

theorem part_zero : part charCode params 0 = "" :=
  if_neg fun h => absurd h.2 (lt_irrefl 0)

theorem part_of_pos {i : ℕ} (hlength : i < params.length) (hpos : i ≠ 0) :
    part charCode params i = String.ofList (copied charCode 0 (segment params i)) :=
  if_pos ⟨hlength, Nat.pos_of_ne_zero hpos⟩

theorem ofList_eq_empty_iff (text : List Char) : String.ofList text = "" ↔ text = [] := by
  rw [← String.toList_eq_nil_iff, String.toList_ofList]

/-- The subtype is the name that is asked for. -/
theorem subtype_iff (hindex : entry.nameindex = entry.namePlace.getD 0)
    (hplace : ∀ i, entry.namePlace = some i → i < params.length)
    (hprintable : ∀ i, ∀ c ∈ segment params i, 0 < charCode c) :
    (if entry.getName charCode params = "" then entry.get "cmdname"
      else entry.getName charCode params) = entry.subtypeFor params ↔
        entry.NameFits charCode params := by
  rw [getName, hindex, subtypeFor, NameFits]
  cases hname : entry.namePlace with
  | none =>
      rw [Option.getD_none, part_zero, if_pos rfl]
      exact iff_of_true rfl fun i hi => absurd hi (Option.some_ne_none i).symm
  | some i =>
      rw [Option.getD_some]
      simp only [Option.some.injEq, forall_eq']
      by_cases hzero : i = 0
      · rw [hzero, part_zero, if_pos rfl, if_pos (Or.inl rfl)]
        exact eq_comm
      rw [part_of_pos charCode (hplace i hname) hzero]
      have hread : String.ofList (copied charCode 0 (segment params i)) = "" ↔
          stem (segment params i) = [] := by
        rw [ofList_eq_empty_iff, copied_eq_nil_iff charCode (hprintable i)]
      by_cases hempty : stem (segment params i) = []
      · rw [if_pos (hread.mpr hempty), if_pos (Or.inr hempty)]
        exact eq_comm
      · rw [if_neg (hempty ∘ hread.mp), if_neg (not_or.mpr ⟨hzero, hempty⟩), String.ofList_inj,
          copied_eq_stem_iff_fits]

/-- The value is the one that is asked for. -/
theorem value_iff {unset : ℕ} (hindex : entry.valueindex = entry.valuePlace.getD unset)
    (hplace : ∀ i, entry.valuePlace = some i → i < params.length)
    (hprintable : ∀ i, ∀ c ∈ segment params i, 0 < charCode c) :
    entry.getValue charCode params = entry.valueFor params ↔
      entry.ValueFits charCode params unset := by
  rw [getValue, hindex, valueFor, ValueFits]
  cases hvalue : entry.valuePlace with
  | none =>
      simp only [Option.getD_none]
      rw [replaceSpaces_eq_empty_iff]
      by_cases hread : unset < params.length ∧ 0 < unset
      · rw [part_of_pos charCode hread.1 hread.2.ne', ofList_eq_empty_iff,
          copied_eq_nil_iff charCode (hprintable unset)]
        constructor
        · intro hempty
          exact Or.inr (Or.inr hempty)
        · rintro (hzero | hlength | hempty)
          · exact absurd hread.2 (by omega)
          · exact absurd hread.1 (by omega)
          · exact hempty
      · refine iff_of_true (if_neg hread) ?_
        by_cases hzero : unset = 0
        · exact Or.inl hzero
        · exact Or.inr (Or.inl (Nat.le_of_not_lt fun hlt =>
            hread ⟨hlt, Nat.pos_of_ne_zero hzero⟩))
  | some i =>
      simp only [Option.getD_some]
      by_cases hzero : i = 0
      · rw [hzero, part_zero, if_pos rfl, replaceSpaces_empty, eq_comm,
          replaceSpaces_eq_empty_iff, ofList_eq_empty_iff]
      · rw [part_of_pos charCode (hplace i hvalue) hzero, if_neg hzero, replaceSpaces_copied_iff]

/-- A name that fits is what the url gets. -/
theorem getName_eq_nameFor (hindex : entry.nameindex = entry.namePlace.getD 0)
    (hplace : ∀ i, entry.namePlace = some i → i < params.length)
    (hprintable : ∀ i, ∀ c ∈ segment params i, 0 < charCode c)
    (hfits : entry.NameFits charCode params) :
    entry.getName charCode params = entry.nameFor params := by
  rw [getName, hindex, nameFor]
  cases hname : entry.namePlace with
  | none => exact part_zero charCode
  | some i =>
      dsimp only [Option.getD_some]
      by_cases hzero : i = 0
      · rw [if_pos hzero, hzero, part_zero]
      · rw [part_of_pos charCode (hplace i hname) hzero, if_neg hzero, String.ofList_inj]
        have hown := hfits i hname
        by_cases hempty : stem (segment params i) = []
        · rw [hempty, copied_eq_nil_iff charCode (hprintable i)]
          exact hempty
        · rw [if_neg (not_or.mpr ⟨hzero, hempty⟩)] at hown
          exact (copied_eq_stem_iff_fits charCode _).mpr hown

end Yield

/-! ## The places of a url -/

/-- The value is put in on both sides of a place for the name. -/
theorem withValue_append_name (value : String) (front back : List Char) :
    withValue value (front ++ "$NAME".toList ++ back) =
      withValue value front ++ "$NAME".toList ++ withValue value back := by
  have hvalue : "$VALUE".toList ≠ [] := by decide
  have hname : "$NAME".toList = '$' :: "NAME".toList := by decide
  have hfront := fillAll_append_cons (c := '$') (by decide) hvalue value.toList front
    ("NAME".toList ++ back)
  have hback : fillAll "$VALUE".toList value.toList ("$NAME".toList ++ back) =
      "$NAME".toList ++ fillAll "$VALUE".toList value.toList back := by
    refine fillAll_append_of_apart hvalue (fun j hj hstarts => ?_) value.toList
    obtain ⟨more, hmore⟩ := hstarts
    have hshort : j < 5 := hj
    interval_cases j <;> simp at hmore
  rw [hname] at hback ⊢
  rw [List.cons_append] at hback
  rw [withValue, List.append_assoc, List.cons_append, hfront, hback, List.append_assoc]
  rfl

theorem places_iff (value url : String) :
    (strReplace url "$VALUE" value).toList = withValue value url.toList ↔
      ¬ Repeated "$VALUE".toList url.toList ∨ value = "$VALUE" := by
  rw [toList_strReplace, withValue, fillFirst_eq_fillAll_iff (by decide), String.toList_inj]

theorem urlFor_of_none {url : String} (h : firstPlace "$NAME".toList url.toList = none)
    (value name : String) : (urlFor value name url).toList = withValue value url.toList := by
  rw [urlFor, h]
  exact String.toList_ofList

theorem urlFor_of_some {url : String} {i : ℕ} (h : firstPlace "$NAME".toList url.toList = some i)
    (value name : String) :
    (urlFor value name url).toList = withValue value (url.toList.take i) ++ name.toList ++
      withValue value (url.toList.drop (i + "$NAME".toList.length)) := by
  rw [urlFor, h]
  exact String.toList_ofList

/-- With the value in all its places, the name comes into its own. -/
theorem urlFor_iff {value url : String} (name : String)
    (hplaces : (strReplace url "$VALUE" value).toList = withValue value url.toList) :
    strReplace (strReplace url "$VALUE" value) "$NAME" name = urlFor value name url ↔
      UrlFits value name url := by
  have honce := (places_iff value url).mp hplaces
  rw [← String.toList_inj, toList_strReplace, hplaces]
  cases hplace : firstPlace "$NAME".toList url.toList with
  | none =>
      rw [urlFor_of_none hplace, fillFirst_eq_self_iff, String.toList_inj]
      refine ⟨fun hname => ⟨honce, fun i hi => ?_, fun _ => hname⟩, fun h => h.none hplace⟩
      exact nomatch hplace.symm.trans hi
  | some i =>
      have hname : "$NAME".toList = '$' :: "NAME".toList := by decide
      have hown : fillFirst "$NAME".toList name.toList (withValue value (url.toList.take i) ++
          "$NAME".toList ++ withValue value (url.toList.drop (i + "$NAME".toList.length))) =
          withValue value (url.toList.take i) ++ name.toList ++
            withValue value (url.toList.drop (i + "$NAME".toList.length)) ↔
          Steady "$NAME".toList name.toList (withValue value (url.toList.take i)) := by
        rw [hname]
        exact fillFirst_own_iff (by decide) _ _ _
      rw [← withValue_append_name, split_firstPlace hplace] at hown
      rw [urlFor_of_some hplace, hown]
      refine ⟨fun hsteady => ⟨honce, fun j hj => ?_, fun hnone => ?_⟩, fun h => h.own i hplace⟩
      · exact Option.some.inj (hplace.symm.trans hj) ▸ hsteady
      · exact nomatch hplace.symm.trans hnone

theorem urlFits_empty (value name : String) : UrlFits value name "" where
  once := .inl (by rintro ⟨i, hi, -⟩; exact absurd hi (by simp [firstPlace]))
  own i hi := absurd hi (by simp [firstPlace])
  none _ := .inl (by simp [withValue, fillAll, Placeholders.pieces, Placeholders.piecesFrom,
    Placeholders.filled])

/-- Only a field that is the place itself is replaced. -/
theorem nv2av_iff (charCode : Char → ℕ) {params : List String} {entry : TransEntry} (nv : String)
    (hvalue : entry.getValue charCode params = entry.valueFor params) :
    entry.nv2av charCode params nv =
        String.ofList (withValue (entry.valueFor params) nv.toList) ↔
      nv = "$VALUE" ∨ ¬ "$VALUE".toList <:+: nv.toList ∨ entry.valueFor params = "$VALUE" := by
  have hmark : "$VALUE".toList ≠ [] := by decide
  rw [nv2av, hvalue, ← String.toList_inj, String.toList_ofList, withValue]
  by_cases hnv : nv = "$VALUE"
  · have hplace : firstPlace "$VALUE".toList "$VALUE".toList = some 0 := by decide
    rw [if_pos hnv, hnv, fillAll_of_firstPlace _ hmark hplace]
    simp [fillAll, Placeholders.pieces, Placeholders.piecesFrom, Placeholders.filled]
  · rw [if_neg hnv, eq_comm, fillAll_eq_self_iff hmark, String.toList_inj]
    simp [hnv]

/-- The place of a mark is within a request that the entry matches. -/
theorem lt_length_of_isMatch {entry : TransEntry} {params : List String} {mtd : String}
    (hmatch : entry.isMatch params mtd = true) (marks : List String) (i : ℕ)
    (hplace : lastIdx (· ∈ marks) entry.segments = some i) : i < params.length := by
  rw [isMatch, Bool.and_eq_true, Bool.and_eq_true, decide_eq_true_eq] at hmatch
  obtain ⟨⟨_, hsegment, -⟩, -⟩ := (lastIdx_eq_some_iff _ _ i).mp hplace
  rw [hmatch.1.1]
  exact (List.getElem?_eq_some_iff.mp hsegment).1

theorem code_pos_of_printable {charCode : Char → ℕ} {params : List String}
    (hprintable : ∀ part ∈ params, ∀ c ∈ part.toList, 32 ≤ charCode c) (i : ℕ) :
    ∀ c ∈ segment params i, 0 < charCode c := by
  intro c hc
  rw [segment, List.getD_eq_getElem?_getD] at hc
  cases hpart : params[i]? with
  | none =>
      rw [hpart] at hc
      exact absurd hc (by simp)
  | some part =>
      rw [hpart] at hc
      exact lt_of_lt_of_le (by decide) (hprintable part (List.mem_of_getElem? hpart) c hc)

/-- A gate that is reached by a url with its name and its value. -/
def gate : MParams where
  ty := "transtab"
  attributes := []
  path := some ("transtab",
    [⟨"prefix", "generic", "Devices/$NAME/$VALUE.json"⟩, ⟨"method", "generic", "rpcExecPut"⟩,
      ⟨"class", "generic", "GA"⟩, ⟨"url", "generic", "/cmdw/$NAME/$VALUE"⟩])
  pathh := none

/-- The text on a display. -/
def display : MParams where
  ty := "transtab"
  attributes := []
  path := some ("transtab",
    [⟨"prefix", "generic", "display/$VALUE"⟩, ⟨"method", "generic", "PUT"⟩,
      ⟨"class", "generic", "DI"⟩, ⟨"cmd", "generic", "value=$VALUE"⟩,
      ⟨"cmdname", "generic", "DI_hall"⟩])
  pathh := none

end TransEntry

end Hat
