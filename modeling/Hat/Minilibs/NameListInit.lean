import Hat.Minilibs.MParams

/-!
# Splitting a text into a name list

`NameList::init` takes the pieces of a text off its front.  It leaves before it clears the list
when the text is empty.
-/

namespace Hat.NameList

/-- The loop over what is left of the text; `found` is the first delimiter. -/
def pushPieces (delim : Char) (tmp : List Char) (list : NameList) : NameList :=
  if delim ∈ tmp then
    let found := tmp.idxOf delim
    pushPieces delim (tmp.drop (found + 1)) (list ++ [String.ofList (tmp.take found)])
  else if tmp ≠ [] then list ++ [String.ofList tmp] else list
termination_by tmp.length
decreasing_by
  have hlength : 0 < tmp.length := List.length_pos_of_mem ‹delim ∈ tmp›
  rw [List.length_drop]
  omega

/-- The list afterwards and what the call returns. -/
def initLoop (previous : NameList) (names : String) (delim : Char) : NameList × Bool :=
  if names = "" then (previous, false)
  else
    let list := pushPieces delim names.toList []
    (list, decide (0 < list.length))

def withoutEmptyLast (pieces : List (List Char)) : List (List Char) :=
  if pieces.getLast? = some [] then pieces.dropLast else pieces

/-- The list has the pieces of the text between delimiters without an empty last one, and joined
they are the text up to a delimiter at its end. -/
structure Splits (list : NameList) (names : String) (delim : Char) : Prop where
  pieces : list = (withoutEmptyLast (names.toList.splitOn delim)).map String.ofList
  joined : names = list.joined delim ∨ names = list.joined delim ++ String.singleton delim

theorem withoutEmptyLast_cons (piece : List Char) {pieces : List (List Char)}
    (hpieces : pieces ≠ []) :
    withoutEmptyLast (piece :: pieces) = piece :: withoutEmptyLast pieces := by
  obtain ⟨first, rest, rfl⟩ := List.exists_cons_of_ne_nil hpieces
  rw [withoutEmptyLast, withoutEmptyLast, List.getLast?_cons_cons]
  split_ifs with hlast
  · rw [List.dropLast_cons_cons]
  · rfl

/-- A text with a delimiter is its first piece, the delimiter and the rest. -/
theorem take_append_drop_idxOf {delim : Char} {tmp : List Char} (hmem : delim ∈ tmp) :
    tmp.take (tmp.idxOf delim) ++ delim :: tmp.drop (tmp.idxOf delim + 1) = tmp := by
  have hlt := List.idxOf_lt_length_of_mem hmem
  have hdrop : tmp.drop (tmp.idxOf delim) = delim :: tmp.drop (tmp.idxOf delim + 1) := by
    rw [List.drop_eq_getElem_cons hlt, List.getElem_idxOf hlt]
  rw [← hdrop, List.take_append_drop]

theorem splitOn_of_mem {delim : Char} {tmp : List Char} (hmem : delim ∈ tmp) :
    tmp.splitOn delim =
      tmp.take (tmp.idxOf delim) :: (tmp.drop (tmp.idxOf delim + 1)).splitOn delim := by
  have hfirst : delim ∉ tmp.take (tmp.idxOf delim) := by
    rw [List.mem_take_iff_idxOf_lt hmem]
    exact lt_irrefl _
  calc
    tmp.splitOn delim =
        (tmp.take (tmp.idxOf delim) ++ delim :: tmp.drop (tmp.idxOf delim + 1)).splitOn delim := by
      rw [take_append_drop_idxOf hmem]
    _ = tmp.take (tmp.idxOf delim) :: (tmp.drop (tmp.idxOf delim + 1)).splitOn delim := by
      rw [List.splitOn_append_cons_self, List.splitOn_eq_singleton hfirst, List.singleton_append]

theorem pushPieces_eq (delim : Char) (tmp : List Char) (list : NameList) :
    pushPieces delim tmp list =
      list ++ (withoutEmptyLast (tmp.splitOn delim)).map String.ofList := by
  induction tmp, list using pushPieces.induct delim with
  | case1 tmp list hmem found ih =>
      rw [pushPieces, if_pos hmem, ih, splitOn_of_mem hmem,
        withoutEmptyLast_cons _ (List.splitOn_ne_nil _ _), List.map_cons, List.append_assoc,
        List.singleton_append]
  | case2 tmp list hmem hne =>
      have hlast : [tmp].getLast? ≠ some [] := by simpa using hne
      rw [pushPieces, if_neg hmem, if_pos hne, List.splitOn_eq_singleton hmem, withoutEmptyLast,
        if_neg hlast, List.map_singleton]
  | case3 tmp list hmem hne =>
      rw [pushPieces, if_neg hmem, if_neg hne, not_not.mp hne]
      exact (List.append_nil list).symm

/-- The loop gives the list that `init` stands for. -/
theorem initLoop_fst (previous : NameList) (names : String) (delim : Char) :
    (initLoop previous names delim).1 = init previous names delim := by
  rw [initLoop, init]
  split_ifs with hnames
  · rfl
  · exact pushPieces_eq delim names.toList []

theorem intercalate_append_nil (delim : Char) {front : List (List Char)} (hfront : front ≠ []) :
    [delim].intercalate (front ++ [[]]) = [delim].intercalate front ++ [delim] := by
  induction front with
  | nil => exact absurd rfl hfront
  | cons piece front ih =>
      by_cases hrest : front = []
      · rw [hrest]
        simp [List.intercalate]
      · rw [List.cons_append, List.intercalate_cons_of_ne_nil (by simp), ih hrest,
          List.intercalate_cons_of_ne_nil hrest]
        simp only [List.append_assoc]

theorem eq_intercalate_withoutEmptyLast (delim : Char) (chars : List Char) :
    chars = [delim].intercalate (withoutEmptyLast (chars.splitOn delim)) ∨
      chars = [delim].intercalate (withoutEmptyLast (chars.splitOn delim)) ++ [delim] := by
  have hjoin : [delim].intercalate (chars.splitOn delim) = chars := List.intercalate_splitOn delim
  rw [withoutEmptyLast]
  split_ifs with hlast
  · have hpieces : (chars.splitOn delim).dropLast ++ [[]] = chars.splitOn delim :=
      List.dropLast_append_getLast? [] hlast
    by_cases hfront : (chars.splitOn delim).dropLast = []
    · rw [← hpieces, hfront, List.nil_append, List.intercalate_singleton] at hjoin
      rw [hfront]
      exact Or.inl hjoin.symm
    · rw [← intercalate_append_nil delim hfront, hpieces]
      exact Or.inr hjoin.symm
  · exact Or.inl hjoin.symm

theorem forall_mem_intercalate {P : Char → Prop} {delim : Char} (hdelim : P delim)
    (pieces : List (List Char)) :
    (∀ c ∈ [delim].intercalate pieces, P c) ↔ ∀ piece ∈ pieces, ∀ c ∈ piece, P c := by
  induction pieces with
  | nil => simp [List.intercalate]
  | cons piece rest ih =>
      by_cases hrest : rest = []
      · rw [hrest, List.intercalate_singleton, List.forall_mem_singleton]
      · rw [List.intercalate_cons_of_ne_nil hrest, List.forall_mem_append, List.forall_mem_append,
          List.forall_mem_singleton, List.forall_mem_cons, ih, and_iff_left hdelim]

/-- A text has the characters of its pieces and the delimiter. -/
theorem forall_mem_init_iff {P : Char → Prop} {delim : Char} (hdelim : P delim) (names : String) :
    (∀ name ∈ init [] names delim, ∀ c ∈ name.toList, P c) ↔ ∀ c ∈ names.toList, P c := by
  rw [← initLoop_fst, initLoop]
  split_ifs with hnames
  · simp [hnames]
  · rw [pushPieces_eq, List.nil_append, List.forall_mem_map]
    simp only [String.toList_ofList]
    rw [← forall_mem_intercalate hdelim]
    rcases eq_intercalate_withoutEmptyLast delim names.toList with h | h
    · rw [← h]
    · conv_rhs => rw [h, List.forall_mem_append, List.forall_mem_singleton, and_iff_left hdelim]

/-- The list is that of the pieces exactly if there was a text or nothing in the list. -/
theorem splits_initLoop_iff (previous : NameList) (names : String) (delim : Char) :
    Splits (initLoop previous names delim).1 names delim ↔ names ≠ "" ∨ previous = [] := by
  by_cases hnames : names = ""
  · have hempty : Splits previous "" delim ↔ previous = [] := by
      constructor
      · intro h
        exact h.pieces
      · rintro rfl
        exact ⟨rfl, Or.inl rfl⟩
    rw [initLoop, if_pos hnames, hnames, hempty]
    simp
  · refine iff_of_true ?_ (Or.inl hnames)
    have hlist : (initLoop previous names delim).1 =
        (withoutEmptyLast (names.toList.splitOn delim)).map String.ofList := by
      rw [initLoop, if_neg hnames]
      exact pushPieces_eq delim names.toList []
    refine ⟨hlist, ?_⟩
    have htexts : ((withoutEmptyLast (names.toList.splitOn delim)).map String.ofList).map
        String.toList = withoutEmptyLast (names.toList.splitOn delim) := by
      rw [List.map_map]
      exact (List.map_congr_left fun _ _ => String.toList_ofList).trans (List.map_id _)
    rw [hlist, joined, htexts, ← String.toList_inj, ← String.toList_inj, String.toList_append,
      String.toList_ofList, String.toList_singleton]
    exact eq_intercalate_withoutEmptyLast delim names.toList

/-- An empty text leaves the names of an earlier call in the list. -/
theorem not_splits_initLoop_empty :
    initLoop ["LI", "hall"] "" '_' = (["LI", "hall"], false) ∧
      ¬Splits (initLoop ["LI", "hall"] "" '_').1 "" '_' := by
  refine ⟨rfl, fun h => ?_⟩
  exact absurd h.pieces (List.cons_ne_nil _ _)

end Hat.NameList
