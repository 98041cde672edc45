import Hat.Core.Filling
import Hat.Minilibs.Hsrv

/-!
# Searching and replacing

`find` looks for the first place of a part in a text, and `strReplace` fills in that place only.
-/

namespace Hat.Hsrv

theorem findsChars_eq_isSome (part text : List Char) :
    findsChars part text = (firstPlace part text).isSome := by
  induction text with
  | nil =>
      rw [findsChars, firstPlace]
      by_cases hpart : part = [] <;> simp [hpart]
  | cons c rest ih =>
      rw [findsChars, firstPlace, ih]
      by_cases hhere : part <+: c :: rest
      · simp [hhere, List.isPrefixOf_iff_prefix.mpr hhere]
      · have hfalse : part.isPrefixOf (c :: rest) = false :=
          Bool.eq_false_iff.mpr (hhere ∘ List.isPrefixOf_iff_prefix.mp)
        simp [hhere, hfalse]

theorem replaceFirst_of_firstPlace {dst text : List Char} {i : ℕ}
    (hplace : firstPlace dst text = some i) (src : List Char) :
    replaceFirst dst src text = text.take i ++ src ++ text.drop (i + dst.length) := by
  induction text generalizing i with
  | nil =>
      rw [firstPlace] at hplace
      split_ifs at hplace with hdst
      obtain rfl := Option.some.inj hplace
      simp [replaceFirst, hdst]
  | cons c rest ih =>
      rw [firstPlace] at hplace
      by_cases hhere : dst <+: c :: rest
      · rw [if_pos hhere, Option.some.injEq] at hplace
        subst hplace
        rw [replaceFirst, if_pos (List.isPrefixOf_iff_prefix.mpr hhere)]
        simp
      · rw [if_neg hhere, Option.map_eq_some_iff] at hplace
        obtain ⟨j, hj, rfl⟩ := hplace
        rw [replaceFirst, if_neg (hhere ∘ List.isPrefixOf_iff_prefix.mp), ih hj,
          Nat.add_right_comm, List.drop_succ_cons, List.take_succ_cons, List.cons_append,
          List.cons_append]

theorem replaceFirst_of_firstPlace_none {dst text : List Char}
    (hplace : firstPlace dst text = none) (src : List Char) : replaceFirst dst src text = text := by
  induction text with
  | nil =>
      rw [firstPlace] at hplace
      split_ifs at hplace with hdst
      rw [replaceFirst, if_neg hdst]
  | cons c rest ih =>
      rw [firstPlace] at hplace
      split_ifs at hplace with hhere
      rw [replaceFirst, if_neg (hhere ∘ List.isPrefixOf_iff_prefix.mp),
        ih (Option.map_eq_none_iff.mp hplace)]

theorem replaceFirst_eq_fillFirst (dst src text : List Char) :
    replaceFirst dst src text = fillFirst dst src text := by
  rw [fillFirst]
  cases hplace : firstPlace dst text with
  | none => exact replaceFirst_of_firstPlace_none hplace src
  | some i => exact replaceFirst_of_firstPlace hplace src

theorem toList_strReplace (s dst src : String) :
    (strReplace s dst src).toList = fillFirst dst.toList src.toList s.toList := by
  rw [strReplace, String.toList_ofList, replaceFirst_eq_fillFirst]

end Hat.Hsrv
