import Hat.Core.OwnPlaces

/-!
# When a loop that replaces a mark ends

A loop replaces the first place of a mark by a value until there is none left.  It never ends if
the mark is in the value, and a value that joins with what stands around it can make new places.
A new place in front needs a value that begins like an end of the mark, and new signs for such
places come only from a value that ends like a beginning of it.
-/

namespace Hat.Placeholders

open Hat.WhileLoop

/-- The value begins with an end of the mark and ends with a beginning of it. -/
structure Meets {α : Type*} (mark value : List α) : Prop where
  begins : ∃ i < mark.length, 0 < i ∧ mark.drop i <+: value
  ends : ∃ i < mark.length, 0 < i ∧ mark.take i <:+ value

variable {α : Type*} [DecidableEq α] {sign : α} {rest value text : List α}

instance (mark value : List α) : Decidable (Meets mark value) :=
  decidable_of_iff ((∃ i < mark.length, 0 < i ∧ mark.drop i <+: value) ∧
    ∃ i < mark.length, 0 < i ∧ mark.take i <:+ value) ⟨fun h => ⟨h.1, h.2⟩, fun h => ⟨h.1, h.2⟩⟩

/-- Behind its first sign the value is in no new place. -/
theorem spares_dropWhile (hvalue : ¬sign :: rest <:+: value)
    (hends : ¬∃ i < (sign :: rest).length, 0 < i ∧ (sign :: rest).take i <:+ value) :
    Spares (sign :: rest) (value.dropWhile (· ≠ sign)) := by
  intro i hi more hstarts
  have hsuffix : (value.dropWhile (· ≠ sign)).drop i <:+ value :=
    (List.drop_suffix i _).trans (List.dropWhile_suffix _)
  have hlength := List.length_drop (i := i) (l := value.dropWhile (· ≠ sign))
  generalize (value.dropWhile (· ≠ sign)).drop i = back at hstarts hsuffix hlength
  rcases List.prefix_or_prefix_of_prefix hstarts (List.prefix_append back more) with h | h
  · exact hvalue (h.isInfix.trans hsuffix.isInfix)
  · by_cases hshort : back.length < (sign :: rest).length
    · refine hends ⟨back.length, hshort, by omega, ?_⟩
      rwa [← List.prefix_iff_eq_take.mp h]
    · obtain rfl := h.eq_of_length_le (by omega)
      exact hvalue hsuffix.isInfix

theorem spares_of_fields (hvalue : ¬sign :: rest <:+: value)
    (hends : ¬∃ i < (sign :: rest).length, 0 < i ∧ (sign :: rest).take i <:+ value)
    {pieces : List (Piece α)}
    (hfields : ∀ key, .field key ∈ pieces → key ≠ [] ∧ key = value.dropWhile (· ≠ sign)) :
    ∀ key, .field key ∈ pieces → key.head? = some sign ∧ Spares (sign :: rest) key := by
  intro key hkey
  obtain ⟨hne, rfl⟩ := hfields key hkey
  refine ⟨?_, spares_dropWhile hvalue hends⟩
  have hhead := List.head_dropWhile_not (· ≠ sign) hne
  rw [List.head?_eq_some_head hne]
  simpa using hhead

/-- A turn in the pieces. -/
theorem turn_letters {front back : List (Piece α)} {i : ℕ}
    (hplace : firstPlace (sign :: rest) (letters (front ++ (sign :: rest).map .letter ++ back)) =
      some i) (hfront : (letters front).length = i) (value : List α) :
    turn (sign :: rest) value (letters (front ++ (sign :: rest).map .letter ++ back)) =
      .next (letters front ++ value ++ letters back) := by
  subst hfront
  rw [turn, hplace]
  simp only [letters_append, letters_map_letter, List.append_assoc, List.take_left]
  rw [← List.drop_drop, List.drop_left, List.drop_left]

/-- The value as pieces, with a field from its first sign on. -/
def blocked (sign : α) (value : List α) : List (Piece α) :=
  (value.takeWhile (· ≠ sign)).map .letter ++
    if value.dropWhile (· ≠ sign) = [] then [] else [.field (value.dropWhile (· ≠ sign))]

theorem letters_blocked (sign : α) (value : List α) : letters (blocked sign value) = value := by
  rw [blocked, letters_append, letters_map_letter]
  split_ifs with hempty
  · rw [letters_nil, ← hempty, List.takeWhile_append_dropWhile]
  · rw [letters_field, letters_nil, List.append_nil, List.takeWhile_append_dropWhile]

theorem count_blocked (sign : α) (value : List α) :
    (blocked sign value).count (.letter sign) = 0 := by
  refine List.count_eq_zero.mpr fun hmem => ?_
  rcases List.mem_append.mp hmem with hmem | hmem
  · obtain ⟨c, hc, hsame⟩ := List.mem_map.mp hmem
    obtain rfl := Piece.letter.inj hsame
    simpa using List.mem_takeWhile_imp hc
  · split_ifs at hmem
    · exact absurd hmem List.not_mem_nil
    · exact nomatch List.mem_singleton.mp hmem

theorem of_field_mem_blocked {key : List α} (hmem : .field key ∈ blocked sign value) :
    key ≠ [] ∧ key = value.dropWhile (· ≠ sign) := by
  rcases List.mem_append.mp hmem with hmem | hmem
  · exact absurd hmem (field_notMem_map_letter key _)
  · split_ifs at hmem with hempty
    · exact absurd hmem List.not_mem_nil
    · obtain rfl := Piece.field.inj (List.mem_singleton.mp hmem)
      exact ⟨hempty, rfl⟩

/-- Each turn takes one of the signs that the text began with. -/
theorem isSome_run_of_not_ends (hsign : sign ∉ rest) (hvalue : ¬sign :: rest <:+: value)
    (hends : ¬∃ i < (sign :: rest).length, 0 < i ∧ (sign :: rest).take i <:+ value)
    {pieces : List (Piece α)}
    (hfields : ∀ key, .field key ∈ pieces → key ≠ [] ∧ key = value.dropWhile (· ≠ sign)) {n : ℕ}
    (hn : pieces.count (.letter sign) ≤ n) :
    (run (turn (sign :: rest) value) n (letters pieces)).isSome := by
  induction n generalizing pieces with
  | zero =>
      have hnone : firstPlace (sign :: rest) (letters pieces) = none := by
        cases hplace : firstPlace (sign :: rest) (letters pieces) with
        | none => rfl
        | some i =>
            obtain ⟨front, back, rfl, -⟩ := exists_of_firstPlace_letters hsign
              (spares_of_fields hvalue hends hfields) hplace
            simp at hn
      rw [run_of_exit (by rw [turn, hnone]), Option.isSome_some]
  | succ n ih =>
      cases hplace : firstPlace (sign :: rest) (letters pieces) with
      | none => rw [run_of_exit (by rw [turn, hplace]), Option.isSome_some]
      | some i =>
          obtain ⟨front, back, rfl, hfront⟩ := exists_of_firstPlace_letters hsign
            (spares_of_fields hvalue hends hfields) hplace
          rw [run_succ_of_next (turn_letters hplace hfront value)]
          have hletters : letters front ++ value ++ letters back =
              letters (front ++ blocked sign value ++ back) := by
            rw [letters_append, letters_append, letters_blocked]
          rw [hletters]
          refine ih (fun key hkey => ?_) ?_
          · rcases List.mem_append.mp hkey with hkey | hkey
            · rcases List.mem_append.mp hkey with hkey | hkey
              · exact hfields key (by simp [hkey])
              · exact of_field_mem_blocked hkey
            · exact hfields key (by simp [hkey])
          · rw [List.map_cons, List.count_append, List.count_append, List.count_cons_self] at hn
            rw [List.count_append, List.count_append, count_blocked]
            omega

omit [DecidableEq α] in
/-- A value with a sign makes no place that begins in front of it. -/
theorem not_prefix_of_not_begins (hsign : sign ∉ rest)
    (hbegins : ¬∃ i < (sign :: rest).length, 0 < i ∧ (sign :: rest).drop i <+: value)
    (hvalue : sign ∈ value) {front : List α} (hfront : ¬sign :: rest <:+: front) (back : List α) :
    ∀ i < front.length, ¬sign :: rest <+: (front ++ (value ++ back)).drop i := by
  intro i hi hstarts
  rw [List.drop_append_of_le_length hi.le] at hstarts
  have hlength := List.length_drop (i := i) (l := front)
  have hsuffix := List.drop_suffix i front
  generalize front.drop i = last at hstarts hsuffix hlength
  rcases List.prefix_or_prefix_of_prefix hstarts (List.prefix_append last _) with h | h
  · exact hfront (h.isInfix.trans hsuffix.isInfix)
  · obtain ⟨more, hmore⟩ := h
    rw [← hmore, List.prefix_append_right_inj] at hstarts
    have hdrop : (sign :: rest).drop last.length = more := by rw [← hmore, List.drop_left]
    have hsum := congrArg List.length hmore
    rw [List.length_append] at hsum
    rcases List.prefix_or_prefix_of_prefix hstarts (List.prefix_append value back) with h | h
    · by_cases hempty : more = []
      · subst hempty
        rw [List.append_nil] at hmore
        exact hfront (hmore ▸ hsuffix.isInfix)
      · have hpos := List.length_pos_iff.mpr hempty
        exact hbegins ⟨last.length, by omega, by omega, hdrop ▸ h⟩
    · -- A value within the mark has no sign.
      obtain ⟨n, hn⟩ : ∃ n, last.length = n + 1 := ⟨last.length - 1, by omega⟩
      rw [hn, List.drop_succ_cons] at hdrop
      exact hsign (List.mem_of_mem_drop (hdrop ▸ h.subset hvalue))

/-- Behind the first place the text gets shorter with each turn. -/
theorem exists_run_of_not_begins (hsign : sign ∉ rest) (hvalue : ¬sign :: rest <:+: value)
    (hbegins : ¬∃ i < (sign :: rest).length, 0 < i ∧ (sign :: rest).drop i <+: value)
    (hmem : sign ∈ value) {i : ℕ} (hplace : firstPlace (sign :: rest) text = some i) :
    ∃ turns, (run (turn (sign :: rest) value) turns text).isSome := by
  induction hn : (text.drop (i + (sign :: rest).length)).length using Nat.strong_induction_on
    generalizing text i with
  | _ n ih =>
      have hnext : turn (sign :: rest) value text =
          .next (text.take i ++ value ++ text.drop (i + (sign :: rest).length)) := by
        rw [turn, hplace]
      have hlength := length_le_of_firstPlace hplace
      have hfront := not_infix_take_of_firstPlace (List.cons_ne_nil _ _) hplace
      generalize hback : text.drop (i + (sign :: rest).length) = back at hnext hn
      have hapart := not_prefix_of_not_begins hsign hbegins hmem hfront back
      cases hlater : firstPlace (sign :: rest) (value ++ back) with
      | none =>
          have hexit : firstPlace (sign :: rest) (text.take i ++ value ++ back) = none := by
            rw [List.append_assoc, firstPlace_append hapart, hlater, Option.map_none]
          refine ⟨1, ?_⟩
          rw [run_succ_of_next hnext, run_of_exit (by rw [turn, hexit]), Option.isSome_some]
      | some k =>
          have hplaceNext : firstPlace (sign :: rest) (text.take i ++ value ++ back) =
              some (k + (text.take i).length) := by
            rw [List.append_assoc, firstPlace_append hapart, hlater, Option.map_some]
          have hbeyond := length_lt_of_firstPlace_append hvalue hlater
          have hless : ((text.take i ++ value ++ back).drop
              (k + (text.take i).length + (sign :: rest).length)).length < n := by
            rw [List.length_drop, List.length_append, List.length_append]
            have hend := length_le_of_firstPlace hlater
            rw [List.length_append] at hend
            omega
          obtain ⟨turns, hturns⟩ := ih _ hless hplaceNext rfl
          exact ⟨turns + 1, by rwa [run_succ_of_next hnext]⟩

/-- A value that holds the mark is filled in for ever. -/
theorem run_eq_none_of_within {mark : List α} (hvalue : mark <:+: value)
    (hwithin : mark <:+: text) (turns : ℕ) : run (turn mark value) turns text = none := by
  refine run_eq_none (I := fun text => mark <:+: text) (fun text htext => ?_) hwithin turns
  obtain ⟨i, hi⟩ := Option.isSome_iff_exists.mp (isSome_firstPlace_iff.mpr htext)
  refine ⟨text.take i ++ value ++ text.drop (i + mark.length), by rw [turn, hi], ?_⟩
  exact hvalue.trans ((List.suffix_append _ _).isInfix.trans (List.prefix_append _ _).isInfix)

/-- The loop ends if the mark is not in the value and the value does not meet it. -/
theorem exists_run_of_not_meets (hsign : sign ∉ rest) (hvalue : ¬sign :: rest <:+: value)
    (hmeets : ¬Meets (sign :: rest) value) (text : List α) :
    ∃ turns, (run (turn (sign :: rest) value) turns text).isSome := by
  by_cases hends : ∃ i < (sign :: rest).length, 0 < i ∧ (sign :: rest).take i <:+ value
  · have hmem : sign ∈ value := by
      obtain ⟨i, -, hi, hsuffix⟩ := hends
      obtain ⟨i, rfl⟩ : ∃ k, i = k + 1 := ⟨i - 1, by omega⟩
      exact hsuffix.subset List.mem_cons_self
    cases hplace : firstPlace (sign :: rest) text with
    | none => exact ⟨0, by rw [run_of_exit (by rw [turn, hplace]), Option.isSome_some]⟩
    | some i =>
        exact exists_run_of_not_begins hsign hvalue (fun h => hmeets ⟨h, hends⟩) hmem hplace
  · have hfields : ∀ key, .field key ∈ text.map Piece.letter →
        key ≠ [] ∧ key = value.dropWhile (· ≠ sign) := fun key hkey =>
      absurd hkey (field_notMem_map_letter key text)
    have hletters := isSome_run_of_not_ends hsign hvalue hends hfields le_rfl
    rw [letters_map_letter] at hletters
    exact ⟨_, hletters⟩

/-- A loop ends if its mark is not in the text; otherwise the mark must not be in the value, and
if the value meets it, then it depends on what the turns make of the text. -/
theorem exists_run_iff (hsign : sign ∉ rest) (value text : List α) :
    (∃ turns, (run (turn (sign :: rest) value) turns text).isSome) ↔
      (sign :: rest <:+: text → ¬sign :: rest <:+: value ∧ (Meets (sign :: rest) value →
        ∃ turns, (run (turn (sign :: rest) value) turns text).isSome)) := by
  constructor
  · rintro ⟨turns, hturns⟩ hwithin
    refine ⟨fun hvalue => ?_, fun _ => ⟨turns, hturns⟩⟩
    rw [run_eq_none_of_within hvalue hwithin] at hturns
    exact Bool.false_ne_true hturns
  · intro h
    by_cases hwithin : sign :: rest <:+: text
    · obtain ⟨hvalue, hturns⟩ := h hwithin
      by_cases hmeets : Meets (sign :: rest) value
      · exact hturns hmeets
      · exact exists_run_of_not_meets hsign hvalue hmeets text
    · have hnone := firstPlace_eq_none_of_absent hwithin
      exact ⟨0, by rw [run_of_exit (by rw [turn, hnone]), Option.isSome_some]⟩

end Hat.Placeholders
