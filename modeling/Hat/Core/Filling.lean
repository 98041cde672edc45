import Hat.Core.Placeholders

/-!
# A mark that is filled in at all its places

A text has marks of one kind, from the left, and a value is to stand for each of them.  A loop
that replaces only the first place does this only where there is no second one; and a second mark
is found at its own place only where none comes up before it.
-/

namespace Hat

variable {α : Type*} [DecidableEq α]

/-- The text with the value in all places of the mark. -/
def fillAll (mark value text : List α) : List α :=
  Placeholders.filled (fun _ => value) (Placeholders.pieces [mark] text)

/-- The text with the value in the first place of the mark. -/
def fillFirst (mark value text : List α) : List α :=
  match firstPlace mark text with
  | some i => text.take i ++ value ++ text.drop (i + mark.length)
  | none => text

variable {mark value text front back : List α}

theorem longest_singleton (mark text : List α) :
    Placeholders.longest [mark] text = if mark <+: text then some mark else none := by
  rw [Placeholders.longest]
  by_cases hstarts : mark <+: text <;> simp [hstarts]

theorem piecesFrom_drop (keys : List (List α)) (skip : ℕ) (text : List α) :
    Placeholders.piecesFrom keys skip text = Placeholders.piecesFrom keys 0 (text.drop skip) := by
  induction text generalizing skip with
  | nil => cases skip <;> simp [Placeholders.piecesFrom]
  | cons c rest ih =>
      cases skip with
      | zero => rfl
      | succ skip => exact ih skip

theorem fillAll_of_firstPlace_none (value : List α) (h : firstPlace mark text = none) :
    fillAll mark value text = text := by
  induction text with
  | nil => rfl
  | cons c rest ih =>
      rw [firstPlace] at h
      split_ifs at h with hhere
      have hrest := ih (Option.map_eq_none_iff.mp h)
      rw [fillAll, Placeholders.pieces, Placeholders.piecesFrom, longest_singleton, if_neg hhere]
      exact congrArg (c :: ·) hrest

theorem fillAll_of_firstPlace (value : List α) (hmark : mark ≠ []) {i : ℕ}
    (h : firstPlace mark text = some i) :
    fillAll mark value text =
      text.take i ++ value ++ fillAll mark value (text.drop (i + mark.length)) := by
  induction text generalizing i with
  | nil =>
      rw [firstPlace, if_neg hmark] at h
      exact absurd h (Option.some_ne_none i).symm
  | cons c rest ih =>
      rw [firstPlace] at h
      rw [fillAll, Placeholders.pieces, Placeholders.piecesFrom, longest_singleton]
      split_ifs at h with hhere
      · obtain rfl := Option.some.inj h
        obtain ⟨n, hn⟩ : ∃ n, mark.length = n + 1 :=
          ⟨mark.length - 1, by have := List.length_pos_iff.mpr hmark; omega⟩
        rw [if_pos hhere, hn, Nat.zero_add, List.drop_succ_cons, List.take_zero,
          List.nil_append, fillAll, Placeholders.pieces, ← piecesFrom_drop]
        dsimp only
        rw [Placeholders.filled_field, hn, Nat.add_sub_cancel]
      · obtain ⟨j, hj, rfl⟩ := Option.map_eq_some_iff.mp h
        rw [if_neg hhere, Nat.add_right_comm, List.drop_succ_cons, List.take_succ_cons]
        exact congrArg (c :: ·) (ih hj)

omit [DecidableEq α] in
theorem length_filled_le {f g : List α → List α} {pieces : List (Placeholders.Piece α)}
    (h : ∀ key, .field key ∈ pieces → (f key).length ≤ (g key).length) :
    (Placeholders.filled f pieces).length ≤ (Placeholders.filled g pieces).length := by
  induction pieces with
  | nil => exact le_refl _
  | cons piece rest ih =>
      have hrest := ih fun key hkey => h key (List.mem_cons_of_mem _ hkey)
      cases piece with
      | letter c => exact Nat.succ_le_succ hrest
      | field key =>
          rw [Placeholders.filled_field, Placeholders.filled_field, List.length_append,
            List.length_append]
          exact Nat.add_le_add (h key List.mem_cons_self) hrest

theorem fillAll_self (hmark : mark ≠ []) (text : List α) : fillAll mark mark text = text := by
  rw [fillAll, Placeholders.filled_congr (g := id), ← Placeholders.letters,
    Placeholders.letters_pieces]
  · simpa using hmark.symm
  · intro key hkey
    exact (List.mem_singleton.mp (Placeholders.mem_of_field_mem_pieces hkey)).symm

theorem length_fillAll_le (hmark : mark ≠ []) (h : value.length ≤ mark.length) (text : List α) :
    (fillAll mark value text).length ≤ text.length :=
  (length_filled_le fun _ _ => h).trans_eq (congrArg List.length (fillAll_self hmark text))

theorem le_length_fillAll (hmark : mark ≠ []) (h : mark.length ≤ value.length) (text : List α) :
    text.length ≤ (fillAll mark value text).length :=
  (congrArg List.length (fillAll_self hmark text)).symm.trans_le (length_filled_le fun _ _ => h)

/-- The text around the first place of the mark. -/
theorem split_firstPlace {i : ℕ} (h : firstPlace mark text = some i) :
    text.take i ++ mark ++ text.drop (i + mark.length) = text := by
  obtain ⟨after, hafter⟩ := (firstPlace_eq_some_iff.mp h).1
  have hdrop : text.drop (i + mark.length) = after := by
    rw [← List.drop_drop, ← hafter, List.drop_left]
  rw [hdrop, List.append_assoc, hafter, List.take_append_drop]

theorem firstPlace_eq_none_of_absent (h : ¬ mark <:+: text) : firstPlace mark text = none :=
  Option.not_isSome_iff_eq_none.mp fun hsome => h (isSome_firstPlace_iff.mp hsome)

/-- Filling in changes nothing where there is no mark, or where the value is the mark. -/
theorem fillAll_eq_self_iff (hmark : mark ≠ []) :
    fillAll mark value text = text ↔ ¬ mark <:+: text ∨ value = mark := by
  constructor
  · intro hsame
    rw [or_iff_not_imp_left, not_not]
    intro hwithin
    obtain ⟨i, hi⟩ := Option.isSome_iff_exists.mp (isSome_firstPlace_iff.mpr hwithin)
    have hsplit := (fillAll_of_firstPlace value hmark hi).symm.trans
      (hsame.trans (split_firstPlace hi).symm)
    rw [List.append_assoc, List.append_assoc, List.append_cancel_left_eq] at hsplit
    have hlength := congrArg List.length hsplit
    rw [List.length_append, List.length_append] at hlength
    -- A longer value would make the rest longer as well, and a shorter one shorter.
    have hvalue : value.length = mark.length := by
      rcases Nat.le_total value.length mark.length with hle | hle
      · have hrest := length_fillAll_le hmark hle (text.drop (i + mark.length))
        omega
      · have hrest := le_length_fillAll hmark hle (text.drop (i + mark.length))
        omega
    exact (List.append_inj hsplit hvalue).1
  · rintro (hnone | rfl)
    · exact fillAll_of_firstPlace_none value (firstPlace_eq_none_of_absent hnone)
    · exact fillAll_self hmark text

theorem fillFirst_eq_self_iff :
    fillFirst mark value text = text ↔ ¬ mark <:+: text ∨ value = mark := by
  cases hplace : firstPlace mark text with
  | none =>
      rw [fillFirst, hplace, ← isSome_firstPlace_iff, hplace]
      simp
  | some i =>
      have hwithin : mark <:+: text := isSome_firstPlace_iff.mp (by rw [hplace]; rfl)
      rw [fillFirst, hplace]
      dsimp only
      nth_rewrite 3 [← split_firstPlace hplace]
      rw [List.append_cancel_right_eq, List.append_cancel_left_eq]
      simp [hwithin]

/-- Behind the first place of the mark there is another one. -/
def Repeated (mark text : List α) : Prop :=
  ∃ i, firstPlace mark text = some i ∧ mark <:+: text.drop (i + mark.length)

/-- The first place is all of them unless the mark is repeated, or the value looks like it. -/
theorem fillFirst_eq_fillAll_iff (hmark : mark ≠ []) :
    fillFirst mark value text = fillAll mark value text ↔ ¬ Repeated mark text ∨ value = mark := by
  rw [fillFirst, Repeated]
  cases hplace : firstPlace mark text with
  | none =>
      rw [fillAll_of_firstPlace_none value hplace]
      simp
  | some i =>
      dsimp only
      rw [fillAll_of_firstPlace value hmark hplace, List.append_cancel_left_eq, eq_comm,
        fillAll_eq_self_iff hmark]
      simp

theorem length_le_of_firstPlace {i : ℕ} (h : firstPlace mark text = some i) :
    i + mark.length ≤ text.length := by
  have hlength := congrArg List.length (split_firstPlace h)
  rw [List.length_append, List.length_append, List.length_take] at hlength
  by_cases hmark : mark = []
  · subst hmark
    have hzero := (firstPlace_eq_some_iff.mp h).2 0
    by_contra hlong
    exact hzero (by simp at hlong; omega) List.nil_prefix
  · have hstarts := (firstPlace_eq_some_iff.mp h).1.length_le
    rw [List.length_drop] at hstarts
    have hpos := List.length_pos_iff.mpr hmark
    omega

theorem firstPlace_append_of_some {i : ℕ} (h : firstPlace mark front = some i) (back : List α) :
    firstPlace mark (front ++ back) = some i := by
  have hlength := length_le_of_firstPlace h
  obtain ⟨hstarts, hfirst⟩ := firstPlace_eq_some_iff.mp h
  refine firstPlace_eq_some_iff.mpr ⟨?_, fun j hj hstart => hfirst j hj ?_⟩
  · rw [List.drop_append_of_le_length (by omega)]
    exact hstarts.trans (List.prefix_append _ _)
  · rw [List.drop_append_of_le_length (by omega)] at hstart
    refine List.prefix_of_prefix_length_le hstart (List.prefix_append _ _) ?_
    rw [List.length_drop]
    omega

/-- In front of its first place a mark does not come up. -/
theorem not_infix_take_of_firstPlace (hmark : mark ≠ []) {i : ℕ}
    (h : firstPlace mark text = some i) : ¬mark <:+: text.take i := by
  intro hwithin
  obtain ⟨k, hplace⟩ := Option.isSome_iff_exists.mp (isSome_firstPlace_iff.mpr hwithin)
  have hwhole := firstPlace_append_of_some hplace (text.drop i)
  rw [List.take_append_drop, h, Option.some.injEq] at hwhole
  have hshort := length_le_of_firstPlace hplace
  rw [List.length_take] at hshort
  have hpos := List.length_pos_iff.mpr hmark
  omega

/-- Behind a front without the mark, its first place goes beyond that front. -/
theorem length_lt_of_firstPlace_append (hfront : ¬mark <:+: front) {i : ℕ}
    (h : firstPlace mark (front ++ back) = some i) : front.length < i + mark.length := by
  by_contra hwithin
  have hstarts := (firstPlace_eq_some_iff.mp h).1
  rw [List.drop_append_of_le_length (by omega)] at hstarts
  have hshort := List.prefix_of_prefix_length_le hstarts (List.prefix_append _ back)
    (by rw [List.length_drop]; omega)
  exact hfront (hshort.isInfix.trans (List.drop_suffix i front).isInfix)

/-- A mark whose first letter is in it only once does not go beyond a front that this letter
follows. -/
theorem firstPlace_append_cons {c : α} (hc : c ∉ mark.tail) (h : firstPlace mark front = none)
    (back : List α) :
    firstPlace mark (front ++ c :: back) =
      (firstPlace mark (c :: back)).map fun i => i + front.length := by
  refine firstPlace_append fun i hi => ?_
  exact not_prefix_append_cons hc hi (firstPlace_eq_none_iff.mp h i) back

/-- Where the mark comes up before its own place, filling that place in first looks the same. -/
def Steady (mark value front : List α) : Prop :=
  ∀ i, firstPlace mark front = some i →
    value ++ front.drop (i + mark.length) ++ mark = mark ++ front.drop (i + mark.length) ++ value

theorem fillFirst_own_iff {c : α} {rest : List α} (hc : c ∉ rest) (value front back : List α) :
    fillFirst (c :: rest) value (front ++ (c :: rest) ++ back) = front ++ value ++ back ↔
      Steady (c :: rest) value front := by
  rw [fillFirst, Steady]
  cases hplace : firstPlace (c :: rest) front with
  | none =>
      have hown : firstPlace (c :: rest) (c :: (rest ++ back)) = some 0 := by
        have hstarts : c :: rest <+: c :: (rest ++ back) := List.prefix_append (c :: rest) back
        rw [firstPlace, if_pos hstarts]
      have htail : c ∉ (c :: rest).tail := hc
      have hwhole := firstPlace_append_cons htail hplace (rest ++ back)
      rw [hown, Option.map_some, Nat.zero_add] at hwhole
      rw [List.append_assoc, List.cons_append, hwhole]
      dsimp only
      rw [List.take_left, ← List.drop_drop, List.drop_left, ← List.cons_append, List.drop_left]
      simp
  | some i =>
      have hlength := length_le_of_firstPlace hplace
      have hsplit := split_firstPlace hplace
      rw [List.append_assoc front, firstPlace_append_of_some hplace]
      dsimp only
      rw [List.take_append_of_le_length (by omega), List.drop_append_of_le_length hlength]
      nth_rewrite 3 [← hsplit]
      simp only [List.append_assoc, List.append_cancel_left_eq, Option.some.injEq, forall_eq']
      simp only [← List.append_assoc, List.append_cancel_right_eq]

/-- Behind the front a letter follows that begins the mark and is in it only once. -/
theorem fillAll_append_cons {c : α} (hc : c ∉ mark.tail) (hmark : mark ≠ []) (value : List α)
    (front back : List α) :
    fillAll mark value (front ++ c :: back) =
      fillAll mark value front ++ fillAll mark value (c :: back) := by
  induction hn : front.length using Nat.strong_induction_on generalizing front with
  | _ n ih =>
      cases hplace : firstPlace mark front with
      | none =>
          rw [fillAll_of_firstPlace_none value hplace]
          have hwhole := firstPlace_append_cons hc hplace back
          cases hback : firstPlace mark (c :: back) with
          | none =>
              rw [hback, Option.map_none] at hwhole
              rw [fillAll_of_firstPlace_none value hwhole, fillAll_of_firstPlace_none value hback]
          | some j =>
              rw [hback, Option.map_some] at hwhole
              rw [fillAll_of_firstPlace value hmark hwhole, fillAll_of_firstPlace value hmark hback,
                Nat.add_comm j, Nat.add_assoc, List.take_length_add_append,
                List.drop_length_add_append]
              simp only [List.append_assoc]
      | some i =>
          have hlength := length_le_of_firstPlace hplace
          have hpos := List.length_pos_iff.mpr hmark
          have hshort : (front.drop (i + mark.length)).length < n := by
            rw [List.length_drop]
            omega
          rw [fillAll_of_firstPlace value hmark (firstPlace_append_of_some hplace (c :: back)),
            fillAll_of_firstPlace value hmark hplace, List.take_append_of_le_length (by omega),
            List.drop_append_of_le_length hlength, ih _ hshort _ rfl, ← List.append_assoc]

/-- In front there is no place for the mark. -/
theorem fillAll_append_of_apart (hmark : mark ≠ [])
    (hapart : ∀ i < front.length, ¬ mark <+: (front ++ back).drop i) (value : List α) :
    fillAll mark value (front ++ back) = front ++ fillAll mark value back := by
  have hwhole := firstPlace_append hapart
  cases hback : firstPlace mark back with
  | none =>
      rw [hback, Option.map_none] at hwhole
      rw [fillAll_of_firstPlace_none value hwhole, fillAll_of_firstPlace_none value hback]
  | some j =>
      rw [hback, Option.map_some] at hwhole
      rw [fillAll_of_firstPlace value hmark hwhole, fillAll_of_firstPlace value hmark hback,
        Nat.add_comm j, Nat.add_assoc, List.take_length_add_append, List.drop_length_add_append]
      simp only [List.append_assoc]

end Hat
