import Hat.Minilibs.FileManager
import Hat.Minilibs.MParams
import Hat.WSServer.JParser
import Mathlib.Data.List.Forall2

/-!
# The rows of a parser and the messages made from them

`JParser` has one constructor for each number of keys, from one to four.  Those for three
and four keys write the further values over the second one.  The module determines when a
row carries the values of its child, and what of them gets into the commands for the
execution queues of the alarm and for the automatisms.
-/

namespace Hat

open Hat.Hsrv

/-- The value under a path of keys between dots. -/
def PTree.getPath (path : String) (tree : PTree) : Option String :=
  ((NameList.init [] path '.').foldlM (fun tree key => PTree.getChild key tree) tree).map PTree.data

/-- The value of a key that is there. -/
def PTree.valueAt (key : String) (tree : PTree) : String := (tree.getPath key).getD ""

/-- Every child has all the keys. -/
def PTree.HasKeys (keys : List String) (pt : PTree) : Prop :=
  ∀ v ∈ pt.children, ∀ key ∈ keys, (v.2.getPath key).isSome

structure StringPair where
  first : String
  second : String
  third : String
  fourth : String
  deriving DecidableEq

namespace StringPair

def blank : StringPair := ⟨"", "", "", ""⟩

/-- The components, from left to right. -/
def components (row : StringPair) : List String := [row.first, row.second, row.third, row.fourth]

end StringPair

namespace JParser

/-- The loop of a constructor; every child is read into the row of the one before it. -/
def rowsFrom (read : PTree → StringPair → Option StringPair) :
    List (String × PTree) → StringPair → Option (List StringPair)
  | [], _ => some []
  | v :: rest, ww =>
      (read v.2 ww).bind fun ww => (rowsFrom read rest ww).map fun rows => ww :: rows

def new1 (k1 : String) (pt : PTree) : Option (List StringPair) :=
  rowsFrom (fun v ww => (v.getPath k1).map fun value1 => { ww with first := value1 })
    pt.children StringPair.blank

def new2 (k1 k2 : String) (pt : PTree) : Option (List StringPair) :=
  rowsFrom (fun v ww => do
    let value1 ← v.getPath k1
    let ww := { ww with first := value1 }
    let value2 ← v.getPath k2
    pure { ww with second := value2 }) pt.children StringPair.blank

def new3 (k1 k2 k3 : String) (pt : PTree) : Option (List StringPair) :=
  rowsFrom (fun v ww => do
    let value1 ← v.getPath k1
    let ww := { ww with first := value1 }
    let value2 ← v.getPath k2
    let ww := { ww with second := value2 }
    let value3 ← v.getPath k3
    pure { ww with second := value3 }) pt.children StringPair.blank

def new4 (k1 k2 k3 k4 : String) (pt : PTree) : Option (List StringPair) :=
  rowsFrom (fun v ww => do
    let value1 ← v.getPath k1
    let ww := { ww with first := value1 }
    let value2 ← v.getPath k2
    let ww := { ww with second := value2 }
    let value3 ← v.getPath k3
    let ww := { ww with second := value3 }
    let value4 ← v.getPath k4
    pure { ww with second := value4 }) pt.children StringPair.blank

/-- The constructor for a list of keys. -/
def new (pt : PTree) : List String → Option (List StringPair)
  | [k1] => new1 k1 pt
  | [k1, k2] => new2 k1 k2 pt
  | [k1, k2, k3] => new3 k1 k2 k3 pt
  | [k1, k2, k3, k4] => new4 k1 k2 k3 k4 pt
  | _ => none

/-- What a constructor writes into a row: the value of the first key, and that of the last
of the others. -/
def written (keys : List String) (v : PTree) : StringPair :=
  ⟨v.valueAt (keys.headD ""), (keys.tail.getLast?.map fun key => v.valueAt key).getD "", "", ""⟩

theorem getPath_of_isSome {v : PTree} {key : String} (h : (v.getPath key).isSome) :
    v.getPath key = some (v.valueAt key) := by
  obtain ⟨value, hvalue⟩ := Option.isSome_iff_exists.mp h
  rw [PTree.valueAt, hvalue, Option.getD_some]

/-- A loop in which nothing is left of the row before reads each child for itself. -/
theorem rowsFrom_eq {read : PTree → StringPair → Option StringPair} {row : PTree → StringPair}
    (I : StringPair → Prop) {children : List (String × PTree)}
    (hread : ∀ v ∈ children, ∀ ww, I ww → read v.2 ww = some (row v.2) ∧ I (row v.2))
    {ww : StringPair} (hww : I ww) :
    rowsFrom read children ww = some (children.map fun v => row v.2) := by
  induction children generalizing ww with
  | nil => rfl
  | cons v rest ih =>
      obtain ⟨hv, hrest⟩ := List.forall_mem_cons.mp hread
      obtain ⟨hstep, hrow⟩ := hv ww hww
      rw [rowsFrom, hstep, Option.bind_some, ih hrest hrow, List.map_cons]
      rfl

/-- The places that no constructor writes. -/
def Unwritten (keys : List String) (row : StringPair) : Prop :=
  (keys.length = 1 → row.second = "") ∧ row.third = "" ∧ row.fourth = ""

theorem unwritten_written (keys : List String) (v : PTree) : Unwritten keys (written keys v) := by
  refine ⟨fun hlength => ?_, rfl, rfl⟩
  obtain ⟨key, rfl⟩ := List.length_eq_one_iff.mp hlength
  rfl

/-- The rows of a parser with one to four keys. -/
theorem new_eq {keys : List String} (hone : 1 ≤ keys.length) (hfour : keys.length ≤ 4)
    {pt : PTree} (hkeys : pt.HasKeys keys) :
    new pt keys = some (pt.children.map fun v => written keys v.2) := by
  have hpath : ∀ v ∈ pt.children, ∀ key ∈ keys, v.2.getPath key = some (v.2.valueAt key) :=
    fun v hv key hkey => getPath_of_isSome (hkeys v hv key hkey)
  have hblank : Unwritten keys StringPair.blank := ⟨fun _ => rfl, rfl, rfl⟩
  match keys, hone, hfour with
  | [k1], _, _ =>
      apply rowsFrom_eq (Unwritten [k1]) _ hblank
      rintro v hv ⟨first, second, third, fourth⟩ ⟨hsecond, hthird, hfourth⟩
      refine ⟨?_, unwritten_written _ _⟩
      rw [hpath v hv k1 (by simp), Option.map_some, hsecond rfl, hthird, hfourth]
      rfl
  | [k1, k2], _, _ =>
      apply rowsFrom_eq (Unwritten [k1, k2]) _ hblank
      rintro v hv ⟨first, second, third, fourth⟩ ⟨-, hthird, hfourth⟩
      refine ⟨?_, unwritten_written _ _⟩
      rw [hpath v hv k1 (by simp), hpath v hv k2 (by simp), hthird, hfourth]
      rfl
  | [k1, k2, k3], _, _ =>
      apply rowsFrom_eq (Unwritten [k1, k2, k3]) _ hblank
      rintro v hv ⟨first, second, third, fourth⟩ ⟨-, hthird, hfourth⟩
      refine ⟨?_, unwritten_written _ _⟩
      rw [hpath v hv k1 (by simp), hpath v hv k2 (by simp), hpath v hv k3 (by simp), hthird,
        hfourth]
      rfl
  | [k1, k2, k3, k4], _, _ =>
      apply rowsFrom_eq (Unwritten [k1, k2, k3, k4]) _ hblank
      rintro v hv ⟨first, second, third, fourth⟩ ⟨-, hthird, hfourth⟩
      refine ⟨?_, unwritten_written _ _⟩
      rw [hpath v hv k1 (by simp), hpath v hv k2 (by simp), hpath v hv k3 (by simp),
        hpath v hv k4 (by simp), hthird, hfourth]
      rfl

/-- The row carries the values of the keys in its first components, in order. -/
def Carries (keys : List String) (v : PTree) (row : StringPair) : Prop :=
  row.components.take keys.length = keys.map fun key => v.valueAt key

instance (keys : List String) (v : PTree) (row : StringPair) : Decidable (Carries keys v row) :=
  inferInstanceAs (Decidable (_ = _))

theorem carries_written_iff {keys : List String} (hone : 1 ≤ keys.length)
    (hfour : keys.length ≤ 4) (v : PTree) :
    Carries keys v (written keys v) ↔
      keys.length ≤ 2 ∨ ∀ key ∈ keys.tail, v.valueAt key = "" := by
  match keys, hone, hfour with
  | [k1], _, _ => exact iff_of_true rfl (Or.inl (Nat.le_succ 1))
  | [k1, k2], _, _ => exact iff_of_true rfl (Or.inl (Nat.le_refl 2))
  | [k1, k2, k3], _, _ =>
      have hrow : Carries [k1, k2, k3] v (written [k1, k2, k3] v) ↔
          [v.valueAt k1, v.valueAt k3, ""] = [v.valueAt k1, v.valueAt k2, v.valueAt k3] := Iff.rfl
      rw [hrow, or_iff_right (by simp)]
      simp only [List.cons.injEq, true_and, and_true, List.tail_cons, List.forall_mem_cons,
        List.not_mem_nil, IsEmpty.forall_iff, implies_true]
      constructor
      · rintro ⟨hsecond, hthird⟩
        exact ⟨(hthird.trans hsecond).symm, hthird.symm⟩
      · rintro ⟨hsecond, hthird⟩
        exact ⟨hthird.trans hsecond.symm, hthird.symm⟩
  | [k1, k2, k3, k4], _, _ =>
      have hrow : Carries [k1, k2, k3, k4] v (written [k1, k2, k3, k4] v) ↔
          [v.valueAt k1, v.valueAt k4, "", ""] =
            [v.valueAt k1, v.valueAt k2, v.valueAt k3, v.valueAt k4] := Iff.rfl
      rw [hrow, or_iff_right (by simp)]
      simp only [List.cons.injEq, true_and, and_true, List.tail_cons, List.forall_mem_cons,
        List.not_mem_nil, IsEmpty.forall_iff, implies_true]
      constructor
      · rintro ⟨hsecond, hthird, hfourth⟩
        exact ⟨(hfourth.trans hsecond).symm, hthird.symm, hfourth.symm⟩
      · rintro ⟨hsecond, hthird, hfourth⟩
        exact ⟨hfourth.trans hsecond.symm, hthird.symm, hfourth.symm⟩

end JParser

namespace AlarmManager

open JParser

def queueKeys : List String := ["name", "selection_status", "action"]

/-- The loop of `setExecQueue` over the rows. -/
def addAction (alist : String) (row : StringPair) : String :=
  let actionname := row.first
  let actionstatus := row.second
  let actionmode := row.third
  if actionstatus = "true" then
    let listed := if alist = "" then actionname else alist ++ "+" ++ actionname
    if finds actionname "SH_" then
      listed ++ (if actionmode = "true" then "_pup" else "_pdown")
    else listed ++ (if actionmode = "true" then "_on" else "_off")
  else alist

/-- The message with the list of actions. -/
def queueMessage (template program qq alist : String) : String :=
  let alist := if alist = "" then "none" else alist
  let message := strReplace template "$NAME"
    (if program = "Auto" then "AUTOtriggered" else "MANUALtriggered")
  if FileManager.getStem qq = "Activation" then
    strReplace (strReplace message "$ENABLE" alist) "$DISABLE" ""
  else strReplace (strReplace message "$ENABLE" "") "$DISABLE" alist

variable (readJson : String → Option PTree)

/-- The message that `setExecQueue` sends. -/
def setExecQueue (template program qq jsbody : String) : Option String := do
  let pt ← readJson jsbody
  let ptu ← pt.getChild "devices"
  let treeParse ← JParser.new ptu queueKeys
  pure (queueMessage template program qq (treeParse.foldl addAction ""))

/-- What an action is called in the list of a queue. -/
def actionItem (name action : String) : String :=
  name ++ if finds name "SH_" then (if action = "true" then "_pup" else "_pdown")
    else if action = "true" then "_on" else "_off"

/-- What an entry contributes to the list. -/
def queueItem (name selectionStatus action : String) : Option String :=
  if selectionStatus = "true" then some (actionItem name action) else none

/-- The list that the entries make with their own values. -/
def ownList (pt : PTree) : String :=
  NameList.joined ((pt.children.filter fun v => v.2.valueAt "selection_status" = "true").map
    fun v => actionItem (v.2.valueAt "name") (v.2.valueAt "action")) '+'

/-- The list of the entries with an action, each of them put off. -/
def offList (pt : PTree) : String :=
  NameList.joined ((pt.children.filter fun v => v.2.valueAt "action" = "true").map fun v =>
    actionItem (v.2.valueAt "name") "") '+'

/-- No entry is selected and has an action, and those that are selected have the names of those
with an action, in their order. -/
structure Exchanged (pt : PTree) : Prop where
  apart : ∀ v ∈ pt.children, v.2.valueAt "selection_status" = "true" →
    v.2.valueAt "action" ≠ "true"
  names : (pt.children.filter fun v => v.2.valueAt "selection_status" = "true").map
      (fun v => v.2.valueAt "name") =
    (pt.children.filter fun v => v.2.valueAt "action" = "true").map fun v => v.2.valueAt "name"

def addItem (alist : String) : Option String → String
  | none => alist
  | some item => if alist = "" then item else alist ++ "+" ++ item

theorem addAction_eq (alist : String) (row : StringPair) :
    addAction alist row = addItem alist (queueItem row.first row.second row.third) := by
  rw [addAction, queueItem]
  by_cases hstatus : row.second = "true"
  · simp only [if_pos hstatus, addItem, actionItem]
    by_cases halist : alist = ""
    · simp only [if_pos halist]
      split <;> rfl
    · simp only [if_neg halist]
      split <;> rw [String.append_assoc]
  · simp only [if_neg hstatus, addItem]

theorem actionItem_ne_empty (name action : String) : actionItem name action ≠ "" := by
  rw [actionItem]
  split_ifs <;> simp

/-! The last letters of an item tell its action. -/

def lastLetters (text : String) : List Char := text.toList.reverse.take 3

theorem lastLetters_append (name : String) {suffix : String} (hsuffix : 3 ≤ suffix.length) :
    lastLetters (name ++ suffix) = lastLetters suffix := by
  rw [lastLetters, lastLetters, String.toList_append, List.reverse_append,
    List.take_append_of_le_length]
  rwa [List.length_reverse, String.length_toList]

theorem lastLetters_actionItem (name action : String) :
    lastLetters (actionItem name action) =
      if finds name "SH_" then (if action = "true" then ['p', 'u', 'p'] else ['n', 'w', 'o'])
      else if action = "true" then ['n', 'o', '_'] else ['f', 'f', 'o'] := by
  rw [actionItem]
  split_ifs
  all_goals
    rw [lastLetters_append name (by decide)]
    decide

theorem actionItem_off (name : String) {action : String} (haction : action ≠ "true") :
    actionItem name action = name ++ if finds name "SH_" then "_pdown" else "_off" := by
  rw [actionItem, if_neg haction, if_neg haction]

theorem plus_notMem_actionItem {name : String} (hname : '+' ∉ name.toList) (action : String) :
    '+' ∉ (actionItem name action).toList := by
  rw [actionItem, String.toList_append, List.mem_append, not_or]
  refine ⟨hname, ?_⟩
  split_ifs <;> decide

/-- An item is that of a name that is put off only with this name, and without an action. -/
theorem actionItem_eq_off_iff (name other action : String) :
    actionItem name action = actionItem other "" ↔ action ≠ "true" ∧ name = other := by
  constructor
  · intro heq
    have hletters := congrArg lastLetters heq
    rw [lastLetters_actionItem, lastLetters_actionItem] at hletters
    have haction : action ≠ "true" := by
      intro haction
      rw [haction] at hletters
      revert hletters
      cases finds name "SH_" <;> cases finds other "SH_" <;> decide
    have hkind : finds name "SH_" = finds other "SH_" := by
      rw [if_neg haction, if_neg haction] at hletters
      revert hletters
      cases finds name "SH_" <;> cases finds other "SH_" <;> decide
    rw [actionItem_off name haction, actionItem_off other (by decide), hkind] at heq
    exact ⟨haction, (String.append_left_inj _).mp heq⟩
  · rintro ⟨haction, rfl⟩
    rw [actionItem_off name haction, actionItem_off name (by decide)]

/-! The items are read back from their list. -/

theorem foldl_addItem_cons (items : List (Option String)) {alist : String} (halist : alist ≠ "") :
    items.foldl addItem alist = NameList.joined (alist :: items.filterMap id) '+' := by
  induction items generalizing alist with
  | nil => exact (NameList.joined_singleton alist '+').symm
  | cons item rest ih =>
      cases item with
      | none =>
          rw [List.foldl_cons, addItem, ih halist, List.filterMap_cons_none rfl]
      | some item =>
          have hnext : alist ++ "+" ++ item ≠ "" := by
            simp [halist]
          rw [List.foldl_cons, addItem, if_neg halist, ih hnext,
            List.filterMap_cons_some (f := id) (a := some item) rfl, NameList.joined_cons alist (List.cons_ne_nil _ _)]
          cases hrest : rest.filterMap id with
          | nil =>
              rw [NameList.joined_singleton, NameList.joined_singleton]
              rfl
          | cons second others =>
              rw [NameList.joined_cons _ (List.cons_ne_nil _ _),
                NameList.joined_cons _ (List.cons_ne_nil _ _)]
              simp only [String.append_assoc]
              rfl

theorem foldl_addItem_empty {items : List (Option String)}
    (hitems : ∀ item, some item ∈ items → item ≠ "") :
    items.foldl addItem "" = NameList.joined (items.filterMap id) '+' := by
  induction items with
  | nil => rfl
  | cons item rest ih =>
      have hrest : ∀ item, some item ∈ rest → item ≠ "" :=
        fun item hitem => hitems item (List.mem_cons_of_mem _ hitem)
      cases item with
      | none => rw [List.foldl_cons, addItem, ih hrest, List.filterMap_cons_none rfl]
      | some item =>
          rw [List.foldl_cons, addItem, if_pos rfl]
          exact foldl_addItem_cons rest (hitems item List.mem_cons_self)

theorem joined_ne_empty {items : List String} (hitems : items ≠ [])
    (hfull : ∀ item ∈ items, item ≠ "") : NameList.joined items '+' ≠ "" := by
  obtain ⟨item, rest, rfl⟩ := List.exists_cons_of_ne_nil hitems
  have hitem := hfull item List.mem_cons_self
  by_cases hrest : rest = []
  · rwa [hrest, NameList.joined_singleton]
  · rw [NameList.joined_cons item hrest]
    simp [hitem]

theorem joined_inj {items others : List String}
    (hitems : ∀ item ∈ items, item ≠ "" ∧ '+' ∉ item.toList)
    (hothers : ∀ other ∈ others, other ≠ "" ∧ '+' ∉ other.toList) :
    NameList.joined items '+' = NameList.joined others '+' ↔ items = others := by
  refine ⟨fun heq => ?_, congrArg fun items => NameList.joined items '+'⟩
  by_cases hempty : items = []
  · by_contra hne
    refine joined_ne_empty (fun h => hne (hempty.trans h.symm)) (fun o ho => (hothers o ho).1) ?_
    rw [← heq, hempty]
    rfl
  · by_cases hother : others = []
    · refine absurd ?_ (joined_ne_empty hempty fun i hi => (hitems i hi).1)
      rw [heq, hother]
      rfl
    · have hread := congrArg (fun text => NameList.init [] text '+') heq
      rwa [NameList.init_joined hempty hitems, NameList.init_joined hother hothers] at hread

theorem filterMap_queueItem (children : List (String × PTree)) (status action : PTree → String) :
    (children.filterMap fun v => queueItem (v.2.valueAt "name") (status v.2) (action v.2)) =
      (children.filter fun v => status v.2 = "true").map fun v =>
        actionItem (v.2.valueAt "name") (action v.2) := by
  rw [← List.filterMap_eq_map, List.filterMap_filter]
  refine congrArg (fun f => children.filterMap f) (funext fun v => ?_)
  rw [queueItem]
  by_cases hstatus : status v.2 = "true" <;> simp [hstatus]

/-- Two lists of items, the second one of names that are put off. -/
theorem map_actionItem_eq_iff (first second : List (String × PTree)) :
    (first.map fun v => actionItem (v.2.valueAt "name") (v.2.valueAt "action")) =
        (second.map fun v => actionItem (v.2.valueAt "name") "") ↔
      (∀ v ∈ first, v.2.valueAt "action" ≠ "true") ∧
        first.map (fun v => v.2.valueAt "name") = second.map fun v => v.2.valueAt "name" := by
  induction first generalizing second with
  | nil => cases second <;> simp
  | cons v rest ih =>
      cases second with
      | nil => simp
      | cons other others =>
          simp only [List.map_cons, List.cons.injEq, ih, actionItem_eq_off_iff,
            List.forall_mem_cons]
          tauto

/-- With names that lack the separator, the two lists are the same exactly if the selected entries
have changed places with those that have an action. -/
theorem offList_eq_ownList_iff {pt : PTree}
    (hnames : ∀ v ∈ pt.children, '+' ∉ (v.2.valueAt "name").toList) :
    offList pt = ownList pt ↔ Exchanged pt := by
  have hitems : ∀ (p : String × PTree → Bool) (f : String × PTree → String),
      ∀ item ∈ (pt.children.filter p).map fun v => actionItem (v.2.valueAt "name") (f v),
        item ≠ "" ∧ '+' ∉ item.toList := by
    intro p f item hitem
    obtain ⟨v, hv, rfl⟩ := List.mem_map.mp hitem
    exact ⟨actionItem_ne_empty _ _,
      plus_notMem_actionItem (hnames v (List.mem_of_mem_filter hv)) _⟩
  rw [offList, ownList, joined_inj (hitems _ _) (hitems _ _), eq_comm,
    map_actionItem_eq_iff]
  constructor
  · rintro ⟨hactions, hsame⟩
    refine ⟨fun v hv hselected => hactions v (List.mem_filter.mpr ⟨hv, by simpa⟩), hsame⟩
  · intro h
    refine ⟨fun v hv => ?_, h.names⟩
    obtain ⟨hmem, hselected⟩ := List.mem_filter.mp hv
    exact h.apart v hmem (by simpa using hselected)

/-! The message shows its list. -/

theorem queueMessage_disable (alist : String) :
    queueMessage "$DISABLE" "Auto" "Deactivation" alist =
      if alist = "" then "none" else alist := by
  have hname : strReplace "$DISABLE" "$NAME" "AUTOtriggered" = "$DISABLE" := by decide +kernel
  have henable : strReplace "$DISABLE" "$ENABLE" "" = "$DISABLE" := by decide +kernel
  have hstem : FileManager.getStem "Deactivation" ≠ "Activation" := by decide +kernel
  have hdisable : "$DISABLE".toList = '$' :: "DISABLE".toList := by decide
  have hfront : '$' ∉ "".toList := by decide
  have hfilled := strReplace_append hdisable hfront (if alist = "" then "none" else alist) ""
  rw [String.empty_append, String.empty_append, String.append_empty, String.append_empty]
    at hfilled
  simp only [queueMessage, if_true, hname, if_neg hstem, henable, hfilled]

theorem underscore_mem_actionItem (name action : String) :
    '_' ∈ (actionItem name action).toList := by
  rw [actionItem, String.toList_append]
  apply List.mem_append_right
  split_ifs <;> decide

/-- A list of items is not the word for an empty one. -/
theorem joined_ne_none {items : List String} (hitems : ∀ item ∈ items, '_' ∈ item.toList) :
    NameList.joined items '+' ≠ "none" := by
  cases items with
  | nil => decide
  | cons item rest =>
      have hmem : '_' ∈ (NameList.joined (item :: rest) '+').toList := by
        have hitem := hitems item List.mem_cons_self
        by_cases hrest : rest = []
        · rwa [hrest, NameList.joined_singleton]
        · rw [NameList.joined_cons item hrest, String.append_assoc, String.toList_append]
          exact List.mem_append_left _ hitem
      intro heq
      rw [heq] at hmem
      revert hmem
      decide

theorem offList_ne_none (pt : PTree) : offList pt ≠ "none" := by
  refine joined_ne_none fun item hitem => ?_
  obtain ⟨v, -, rfl⟩ := List.mem_map.mp hitem
  exact underscore_mem_actionItem _ _

theorem ownList_ne_none (pt : PTree) : ownList pt ≠ "none" := by
  refine joined_ne_none fun item hitem => ?_
  obtain ⟨v, -, rfl⟩ := List.mem_map.mp hitem
  exact underscore_mem_actionItem _ _

/-- Lists are the same if all messages with them are. -/
theorem eq_of_queueMessage {first second : String} (hfirst : first ≠ "none")
    (hsecond : second ≠ "none")
    (h : queueMessage "$DISABLE" "Auto" "Deactivation" first =
      queueMessage "$DISABLE" "Auto" "Deactivation" second) : first = second := by
  rw [queueMessage_disable, queueMessage_disable] at h
  split_ifs at h with hempty hother hother
  · exact hempty.trans hother.symm
  · exact absurd h.symm hsecond
  · exact absurd h hfirst
  · exact h

end AlarmManager

/-! ## Automatisms -/

namespace AutomatismManager

open JParser

def automatismKeys : List String := ["enable_status", "name", "start", "end"]

def cvtimej2x (src : String) : String := src ++ ":00"

/-- What a command for an automatism says. -/
structure Command where
  name : String
  status : String
  start : String
  stop : String
  deriving DecidableEq

def onOff (status : String) : String := if status = "true" then "ON" else "OFF"

/-- The command that `execPost` makes from a row. -/
def commandOf (row : StringPair) : Command :=
  ⟨row.second, onOff row.first, cvtimej2x row.third, cvtimej2x row.fourth⟩

def commandText (msg : String) (command : Command) : String :=
  strReplace (strReplace (strReplace (strReplace msg "$NAME" command.name) "$STATUS"
    command.status) "$FROM" command.start) "$TO" command.stop

variable (readJson : String → Option PTree)

/-- The texts that `execPost` sends, in order. -/
def execPost (par : MParams) (params : List String) (body : String) : Option (List String) :=
  match params with
  | _ :: _ :: page :: last :: _ =>
      if (page = "Programmed" ∨ page = "SelfManaged") ∧ 3 < last.utf8ByteSize then do
        let pt ← readJson body
        let pta ← pt.getChild "automatisms"
        let treeParse ← JParser.new pta automatismKeys
        let msg := if page = "Programmed" then par.get "set_trrule_status"
          else par.get "set_rule_status"
        pure (treeParse.map fun row => commandText msg (commandOf row))
      else some []
  | _ => some []

/-- The command of an entry with its own values. -/
def ownCommand (v : PTree) : Command :=
  ⟨v.valueAt "name", onOff (v.valueAt "enable_status"), cvtimej2x (v.valueAt "start"),
    cvtimej2x (v.valueAt "end")⟩

/-- What the row of an entry says in fact: its end is its name, and there are no times. -/
theorem command_written (v : PTree) :
    commandOf (written automatismKeys v) =
      ⟨v.valueAt "end", onOff (v.valueAt "enable_status"), cvtimej2x "", cvtimej2x ""⟩ := rfl

theorem command_written_iff (v : PTree) :
    commandOf (written automatismKeys v) = ownCommand v ↔
      v.valueAt "name" = "" ∧ v.valueAt "start" = "" ∧ v.valueAt "end" = "" := by
  rw [command_written, ownCommand, Command.mk.injEq, cvtimej2x, cvtimej2x, cvtimej2x,
    String.append_left_inj, String.append_left_inj]
  constructor
  · rintro ⟨hname, -, hstart, hend⟩
    exact ⟨hname.symm.trans hend.symm, hstart.symm, hend.symm⟩
  · rintro ⟨hname, hstart, hend⟩
    exact ⟨hend.trans hname.symm, rfl, hstart.symm, hend.symm⟩

end AutomatismManager

/-! ## Rows and messages -/

open JParser AlarmManager AutomatismManager

/-- A list of entries with all keys becomes one message for the queue, in which those with an
action are put off. -/
theorem setExecQueue_eq {readJson : String → Option PTree} {jsbody : String} {tree pt : PTree}
    (hread : readJson jsbody = some tree) (hdevices : tree.getChild "devices" = some pt)
    (hkeys : pt.HasKeys queueKeys) (template program qq : String) :
    setExecQueue readJson template program qq jsbody =
      some (queueMessage template program qq (offList pt)) := by
  have hrows : JParser.new pt queueKeys = some (pt.children.map fun v => written queueKeys v.2) :=
    new_eq (by decide) (by decide) hkeys
  have hlist : (pt.children.map fun v => written queueKeys v.2).foldl addAction "" =
      offList pt := by
    have haction : addAction = fun alist row =>
        addItem alist (queueItem row.first row.second row.third) := by
      funext alist row
      exact addAction_eq alist row
    have hitems : ∀ item, some item ∈ (pt.children.map fun v =>
        queueItem (v.2.valueAt "name") (v.2.valueAt "action") "") → item ≠ "" := by
      intro item hitem
      obtain ⟨v, -, hv⟩ := List.mem_map.mp hitem
      rw [queueItem] at hv
      split_ifs at hv
      exact Option.some.inj hv ▸ actionItem_ne_empty _ _
    have hfolded := foldl_addItem_empty hitems
    rw [List.filterMap_map, List.foldl_map] at hfolded
    rw [offList, haction, List.foldl_map,
      ← filterMap_queueItem pt.children (fun v => v.valueAt "action") fun _ => ""]
    exact hfolded
  simp only [setExecQueue, hread, hdevices, hrows, hlist, Option.bind_eq_bind, Option.bind_some]
  rfl

theorem execPost_eq {readJson : String → Option PTree} {body : String} {tree pt : PTree}
    (hread : readJson body = some tree) (hautomatisms : tree.getChild "automatisms" = some pt)
    (hkeys : pt.HasKeys automatismKeys) (par : MParams) (first second : String) {page last : String}
    (hpage : page = "Programmed" ∨ page = "SelfManaged") (hlast : 3 < last.utf8ByteSize)
    (rest : List String) :
    execPost readJson par (first :: second :: page :: last :: rest) body =
      some (pt.children.map fun v => commandText
        (if page = "Programmed" then par.get "set_trrule_status" else par.get "set_rule_status")
        (commandOf (written automatismKeys v.2))) := by
  have hrows : JParser.new pt automatismKeys =
      some (pt.children.map fun v => written automatismKeys v.2) :=
    new_eq (by decide) (by decide) hkeys
  rw [execPost, if_pos ⟨hpage, hlast⟩]
  simp only [hread, hautomatisms, hrows, Option.bind_eq_bind, Option.bind_some, List.map_map]
  rfl

/-- What is made of every child for itself has a property of all children exactly when each
of them has it. -/
theorem forall₂_map_children {β : Type} (children : List (String × PTree)) (f : PTree → β)
    (R : PTree → β → Prop) :
    List.Forall₂ (fun v made => R v.2 made) children (children.map fun v => f v.2) ↔
      ∀ v ∈ children, R v.2 (f v.2) := by
  rw [List.forall₂_map_right_iff, List.forall₂_same]

/-- The rows of a parser with one to four keys carry the values of their children exactly
when there are at most two keys or all further values are empty.  The messages for a queue are
those of the entries' own values exactly when the entries with an action, each put off, spell the
list of the selected ones; with names that lack the separator, when both have the same names and no
entry is both.  The commands for automatisms are exactly when every name and every time is
empty. -/
theorem rows_and_messages_iff (readJson : String → Option PTree) :
    (∀ keys pt, 1 ≤ keys.length → keys.length ≤ 4 → pt.HasKeys keys →
      ∃ rows, JParser.new pt keys = some rows ∧
        (List.Forall₂ (fun v row => Carries keys v.2 row) pt.children rows ↔
          keys.length ≤ 2 ∨ ∀ v ∈ pt.children, ∀ key ∈ keys.tail, v.2.valueAt key = "")) ∧
    (∀ jsbody tree pt, readJson jsbody = some tree → tree.getChild "devices" = some pt →
      pt.HasKeys queueKeys →
        ((∀ template program qq, setExecQueue readJson template program qq jsbody =
            some (queueMessage template program qq (ownList pt))) ↔ offList pt = ownList pt) ∧
          ((∀ v ∈ pt.children, '+' ∉ (v.2.valueAt "name").toList) →
            (offList pt = ownList pt ↔ Exchanged pt))) ∧
    (∀ par first second page last rest body tree pt, readJson body = some tree →
      tree.getChild "automatisms" = some pt → pt.HasKeys automatismKeys →
      (page = "Programmed" ∨ page = "SelfManaged") → 3 < last.utf8ByteSize →
        ∃ commands, execPost readJson par (first :: second :: page :: last :: rest) body =
            some (commands.map (commandText (if page = "Programmed"
              then par.get "set_trrule_status" else par.get "set_rule_status"))) ∧
          (List.Forall₂ (fun v command => command = ownCommand v.2) pt.children commands ↔
            ∀ v ∈ pt.children, v.2.valueAt "name" = "" ∧ v.2.valueAt "start" = "" ∧
              v.2.valueAt "end" = "")) := by
  refine ⟨?_, ?_, ?_⟩
  · intro keys pt hone hfour hkeys
    refine ⟨_, new_eq hone hfour hkeys, ?_⟩
    rw [forall₂_map_children pt.children (written keys) (Carries keys)]
    simp only [carries_written_iff hone hfour]
    by_cases htwo : keys.length ≤ 2
    · exact iff_of_true (fun _ _ => Or.inl htwo) (Or.inl htwo)
    · simp only [or_iff_right htwo]
  · intro jsbody tree pt hread hdevices hkeys
    refine ⟨?_, offList_eq_ownList_iff⟩
    constructor
    · intro hown
      have hmessage := hown "$DISABLE" "Auto" "Deactivation"
      rw [setExecQueue_eq hread hdevices hkeys, Option.some.injEq] at hmessage
      exact eq_of_queueMessage (offList_ne_none pt) (ownList_ne_none pt) hmessage
    · intro hlists template program qq
      rw [setExecQueue_eq hread hdevices hkeys, hlists]
  · intro par first second page last rest body tree pt hread hautomatisms hkeys hpage hlast
    refine ⟨pt.children.map fun v => commandOf (written automatismKeys v.2), ?_, ?_⟩
    · rw [execPost_eq hread hautomatisms hkeys par first second hpage hlast rest, List.map_map]
      rfl
    · rw [forall₂_map_children pt.children (fun v => commandOf (written automatismKeys v))
        fun v command => command = ownCommand v]
      simp only [command_written_iff]

/-- A shutter that is selected and to be moved up. -/
def shutterUp : PTree :=
  .node "" [("", .node "" [("name", .node "SH_1" []), ("selection_status", .node "true" []),
    ("action", .node "true" [])])]

theorem hasKeys_shutterUp : shutterUp.HasKeys queueKeys := by
  intro v hv key hkey
  rw [List.mem_singleton.mp hv]
  have hall : ∀ key ∈ queueKeys, (PTree.getPath key (.node "" [("name", .node "SH_1" []),
      ("selection_status", .node "true" []), ("action", .node "true" [])])).isSome := by
    decide +kernel
  exact hall key hkey

/-- Two entries of one lamp: what is right for it is in the wrong one. -/
def lampTwice : PTree :=
  .node "" [("", .node "" [("name", .node "LI_1" []), ("selection_status", .node "true" []),
      ("action", .node "false" [])]),
    ("", .node "" [("name", .node "LI_1" []), ("selection_status", .node "false" []),
      ("action", .node "true" [])])]

theorem hasKeys_lampTwice : lampTwice.HasKeys queueKeys := by
  have hall : lampTwice.children.all fun v => queueKeys.all fun key =>
      (v.2.getPath key).isSome := by
    decide +kernel
  intro v hv key hkey
  exact List.all_eq_true.mp (List.all_eq_true.mp hall v hv) key hkey

theorem exchanged_lampTwice : Exchanged lampTwice := ⟨by decide +kernel, by decide +kernel⟩

theorem rows_shutterUp :
    (∃ rows, JParser.new shutterUp queueKeys = some rows ∧
      (List.Forall₂ (fun v row => Carries queueKeys v.2 row) shutterUp.children rows ↔
        queueKeys.length ≤ 2 ∨
          ∀ v ∈ shutterUp.children, ∀ key ∈ queueKeys.tail, v.2.valueAt key = "")) ∧
    ∀ template program qq,
      setExecQueue (fun _ => some (.node "" [("devices", lampTwice)])) template program qq "" =
        some (queueMessage template program qq "LI_1_off") := by
  refine ⟨(rows_and_messages_iff fun _ => none).1 queueKeys shutterUp (by decide) (by decide)
    hasKeys_shutterUp, ?_⟩
  have hqueue := (rows_and_messages_iff fun _ => some (.node "" [("devices", lampTwice)])).2.1 ""
    (.node "" [("devices", lampTwice)]) lampTwice rfl rfl hasKeys_lampTwice
  have hnames : ∀ v ∈ lampTwice.children, '+' ∉ (v.2.valueAt "name").toList := by
    decide +kernel
  have hown : ownList lampTwice = "LI_1_off" := by
    decide +kernel
  exact hown ▸ hqueue.1.mpr ((hqueue.2 hnames).mpr exchanged_lampTwice)

/-- The row says that it is selected and nothing of the action, and the message moves the
shutter down. -/
theorem not_rows_shutterUp :
    shutterUp.HasKeys queueKeys ∧
      (∃ rows, JParser.new shutterUp queueKeys = some rows ∧
        ¬List.Forall₂ (fun v row => Carries queueKeys v.2 row) shutterUp.children rows) ∧
      setExecQueue (fun _ => some (.node "" [("devices", shutterUp)])) "$NAME $ENABLE$DISABLE"
        "Auto" "Activation.json" "\x7b\x7d" = some "AUTOtriggered SH_1_pdown" := by
  refine ⟨hasKeys_shutterUp, ⟨[⟨"SH_1", "true", "", ""⟩], by decide +kernel, ?_⟩, by decide +kernel⟩
  intro hcarries
  have hrow := List.forall₂_cons.mp hcarries
  exact absurd hrow.1 (by decide +kernel)

end Hat
