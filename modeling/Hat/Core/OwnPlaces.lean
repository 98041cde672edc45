import Hat.Core.Filling
import Mathlib.Data.List.TakeWhile

/-!
# Places that are filled in one after the other

Each mark of a template has one place of its own, and the marks are replaced one after the other,
each where it comes up first.  The values get to their own places exactly if no mark comes up in
front of its own place within the values that are filled in before.
-/

namespace Hat.Placeholders

variable {α : Type*}

/-- The pieces with a field for the first place of each key only. -/
def firsts [DecidableEq α] : List (List α) → List (Piece α) → List (Piece α)
  | _, [] => []
  | seen, .letter c :: rest => .letter c :: firsts seen rest
  | seen, .field key :: rest =>
      if key ∈ seen then key.map .letter ++ firsts seen rest
      else .field key :: firsts (key :: seen) rest

/-- The pieces in front of the field of a mark. -/
def before [DecidableEq α] (mark : List α) (pieces : List (Piece α)) : List (Piece α) :=
  pieces.takeWhile fun piece => piece ≠ .field mark

/-- In front of its own place the mark does not come up. -/
def Free [DecidableEq α] (mark : List α) (pieces : List (Piece α)) : Prop :=
  ¬mark <:+: letters (before mark pieces)

/-- Each mark is free when its turn comes. -/
def Placed [DecidableEq α] : List (List α × List α) → List (Piece α) → Prop
  | [], _ => True
  | (mark, value) :: rest, pieces => Free mark pieces ∧ Placed rest (fillIn mark value pieces)

instance decidablePlaced [DecidableEq α] :
    (table : List (List α × List α)) → (pieces : List (Piece α)) → Decidable (Placed table pieces)
  | [], _ => isTrue trivial
  | (mark, value) :: rest, pieces =>
      haveI : Decidable (Placed rest (fillIn mark value pieces)) :=
        decidablePlaced rest (fillIn mark value pieces)
      inferInstanceAs (Decidable (¬mark <:+: letters (before mark pieces) ∧ _))

/-- The marks are replaced one after the other. -/
def fillFirsts [DecidableEq α] (table : List (List α × List α)) (text : List α) : List α :=
  table.foldl (fun text entry => fillFirst entry.1 entry.2 text) text

def fillIns [DecidableEq α] (table : List (List α × List α)) (pieces : List (Piece α)) :
    List (Piece α) :=
  table.foldl (fun pieces entry => fillIn entry.1 entry.2 pieces) pieces

/-- The mark does not begin within the text, whatever stands behind it. -/
def Spares (mark text : List α) : Prop :=
  ∀ i < text.length, ∀ more, ¬mark <+: text.drop i ++ more

/-- The marks begin with the same sign, which is in them only there, and none begins another. -/
structure Signed (sign : α) (marks : List (List α)) : Prop where
  head : ∀ mark ∈ marks, ∃ rest, mark = sign :: rest ∧ sign ∉ rest
  apart : ∀ mark ∈ marks, ∀ other ∈ marks, mark <+: other → mark = other

/-- The value begins like the mark and goes on with a letter of no mark. -/
def Tells (marks : List (List α)) (mark value : List α) : Prop :=
  ∃ j < mark.length, ∃ c rest, value = mark.take j ++ c :: rest ∧ ∀ other ∈ marks, c ∉ other

theorem letters_append (front back : List (Piece α)) :
    letters (front ++ back) = letters front ++ letters back := by
  rw [letters, letters, letters, filled, filled, filled, List.flatMap_append]

theorem letters_map_letter (text : List α) : letters (text.map Piece.letter) = text := by
  have h := filled_letters_append id text []
  rwa [List.append_nil, show filled id ([] : List (Piece α)) = [] from rfl, List.append_nil] at h

/-- Letters that are in no beginning of a field are letters of the text. -/
theorem eq_append_of_prefix_letters {text : List α} {pieces : List (Piece α)}
    (hfields : ∀ key, .field key ∈ pieces → ∃ c ∈ key.head?, c ∉ text)
    (hstarts : text <+: letters pieces) : ∃ back, pieces = text.map .letter ++ back := by
  induction text generalizing pieces with
  | nil => exact ⟨pieces, rfl⟩
  | cons c text ih =>
      cases pieces with
      | nil => exact absurd (List.prefix_nil.mp hstarts) (List.cons_ne_nil _ _)
      | cons piece rest =>
          cases piece with
          | letter d =>
              obtain ⟨rfl, hrest⟩ := List.cons_prefix_cons.mp hstarts
              have hlater : ∀ key, .field key ∈ rest → ∃ d ∈ key.head?, d ∉ text := by
                intro key hkey
                obtain ⟨d, hd, hnot⟩ := hfields key (List.mem_cons_of_mem _ hkey)
                exact ⟨d, hd, fun hmem => hnot (List.mem_cons_of_mem _ hmem)⟩
              obtain ⟨back, rfl⟩ := ih hlater hrest
              exact ⟨back, rfl⟩
          | field key =>
              obtain ⟨d, hd, hnot⟩ := hfields key List.mem_cons_self
              obtain ⟨tail, rfl⟩ := List.head?_eq_some_iff.mp hd
              obtain ⟨rfl, -⟩ := List.cons_prefix_cons.mp hstarts
              exact absurd List.mem_cons_self hnot

section Occurrence

variable [DecidableEq α] {sign : α} {marks : List (List α)} {mark value : List α}
  {pieces : List (Piece α)}

/-- A mark that no field has a part in comes up in the letters. -/
theorem exists_of_firstPlace_letters {rest : List α} (hsign : sign ∉ rest)
    (hfields : ∀ key, .field key ∈ pieces → key.head? = some sign ∧ Spares (sign :: rest) key)
    {i : ℕ} (hplace : firstPlace (sign :: rest) (letters pieces) = some i) :
    ∃ front back, pieces = front ++ (sign :: rest).map .letter ++ back ∧
      (letters front).length = i := by
  induction pieces generalizing i with
  | nil => exact nomatch hplace
  | cons piece pieces ih =>
      have hlater : ∀ key, .field key ∈ pieces →
          key.head? = some sign ∧ Spares (sign :: rest) key := fun key hkey =>
        hfields key (List.mem_cons_of_mem _ hkey)
      cases piece with
      | letter c =>
          rw [letters_letter, firstPlace] at hplace
          split_ifs at hplace with hhere
          · obtain rfl := Option.some.inj hplace
            obtain ⟨rfl, hrest⟩ := List.cons_prefix_cons.mp hhere
            have hheads : ∀ key, .field key ∈ pieces → ∃ c ∈ key.head?, c ∉ rest :=
              fun key hkey => ⟨sign, (hlater key hkey).1, hsign⟩
            obtain ⟨back, rfl⟩ := eq_append_of_prefix_letters hheads hrest
            exact ⟨[], back, rfl, rfl⟩
          · obtain ⟨j, hj, rfl⟩ := Option.map_eq_some_iff.mp hplace
            obtain ⟨front, back, rfl, rfl⟩ := ih hlater hj
            exact ⟨.letter c :: front, back, rfl, rfl⟩
      | field key =>
          have hspares := (hfields key List.mem_cons_self).2
          rw [letters_field, firstPlace_append fun i hi => by
            rw [List.drop_append_of_le_length hi.le]
            exact hspares i hi _] at hplace
          obtain ⟨j, hj, rfl⟩ := Option.map_eq_some_iff.mp hplace
          obtain ⟨front, back, rfl, rfl⟩ := ih hlater hj
          refine ⟨.field key :: front, back, rfl, ?_⟩
          rw [letters_field, List.length_append, Nat.add_comm]

omit [DecidableEq α] in
theorem Signed.spares (hmarks : Signed sign marks) (hmark : mark ∈ marks) {other : List α}
    (hother : other ∈ marks) (hne : other ≠ mark) : Spares mark other := by
  intro i hi more hstarts
  obtain ⟨rest, rfl, -⟩ := hmarks.head mark hmark
  cases i with
  | zero =>
      rw [List.drop_zero] at hstarts
      rcases List.prefix_or_prefix_of_prefix hstarts (List.prefix_append other more) with h | h
      · exact hne (hmarks.apart _ hmark _ hother h).symm
      · exact hne (hmarks.apart _ hother _ hmark h)
  | succ i =>
      obtain ⟨tail, rfl, htail⟩ := hmarks.head other hother
      rw [List.drop_succ_cons] at hstarts
      cases hdrop : tail.drop i with
      | nil =>
          rw [List.length_cons] at hi
          exact absurd (List.drop_eq_nil_iff.mp hdrop) (by omega)
      | cons d others =>
          rw [hdrop] at hstarts
          obtain ⟨rfl, -⟩ := List.cons_prefix_cons.mp hstarts
          exact htail (List.mem_of_mem_drop (hdrop ▸ List.mem_cons_self))

/-- A mark without a field comes up in the letters of the pieces. -/
theorem Signed.exists_of_firstPlace (hmarks : Signed sign marks) (hmark : mark ∈ marks)
    (hfields : ∀ key, .field key ∈ pieces → key ∈ marks ∧ key ≠ mark) {i : ℕ}
    (hplace : firstPlace mark (letters pieces) = some i) :
    ∃ front back, pieces = front ++ mark.map .letter ++ back ∧ (letters front).length = i := by
  obtain ⟨rest, rfl, hsign⟩ := hmarks.head mark hmark
  refine exists_of_firstPlace_letters hsign (fun key hkey => ?_) hplace
  obtain ⟨hmem, hne⟩ := hfields key hkey
  obtain ⟨tail, rfl, -⟩ := hmarks.head key hmem
  exact ⟨rfl, hmarks.spares hmark hmem hne⟩

end Occurrence

variable [DecidableEq α] {sign : α} {marks : List (List α)} {mark value text : List α}
  {pieces front back : List (Piece α)}

theorem fillFirst_append
    (hfront : ∀ i < text.length, ¬mark <+: (text ++ value).drop i) (src : List α) :
    fillFirst mark src (text ++ value) = text ++ fillFirst mark src value := by
  have hwhole := firstPlace_append hfront
  cases hplace : firstPlace mark value with
  | none =>
      rw [hplace, Option.map_none] at hwhole
      rw [fillFirst, fillFirst, hwhole, hplace]
  | some i =>
      rw [hplace, Option.map_some] at hwhole
      rw [fillFirst, fillFirst, hwhole, hplace]
      dsimp only
      rw [Nat.add_comm i, Nat.add_assoc, List.take_length_add_append,
        List.drop_length_add_append]
      simp only [List.append_assoc]

theorem fillIn_append (mark value : List α) (front back : List (Piece α)) :
    fillIn mark value (front ++ back) = fillIn mark value front ++ fillIn mark value back := by
  rw [fillIn, fillIn, fillIn, List.flatMap_append]

theorem fillIn_of_notMem (hnone : .field mark ∉ pieces) (value : List α) :
    fillIn mark value pieces = pieces := by
  have hsame : ∀ piece ∈ pieces,
      (if piece = .field mark then value.map Piece.letter else [piece]) = [piece] :=
    fun piece hpiece => if_neg fun heq : piece = .field mark => hnone (heq ▸ hpiece)
  rw [fillIn, List.flatMap_congr hsame, List.flatMap_singleton']

omit [DecidableEq α] in
theorem field_notMem_map_letter (mark text : List α) : .field mark ∉ text.map Piece.letter := by
  simp

theorem field_notMem_before (mark : List α) (pieces : List (Piece α)) :
    .field mark ∉ before mark pieces := by
  intro hmem
  have hne := List.mem_takeWhile_imp hmem
  simp at hne

theorem before_starts (mark : List α) (pieces : List (Piece α)) : before mark pieces <+: pieces :=
  List.takeWhile_prefix _

theorem before_of_notMem (hnone : .field mark ∉ pieces) : before mark pieces = pieces := by
  rw [before, List.takeWhile_eq_self_iff]
  intro piece hpiece
  simpa using fun heq : piece = .field mark => hnone (heq ▸ hpiece)

theorem exists_before_append (hmem : .field mark ∈ pieces) :
    ∃ back, pieces = before mark pieces ++ .field mark :: back := by
  induction pieces with
  | nil => exact absurd hmem List.not_mem_nil
  | cons piece rest ih =>
      by_cases hpiece : piece = .field mark
      · exact ⟨rest, by simp [before, hpiece]⟩
      · obtain ⟨back, hback⟩ := ih ((List.mem_cons.mp hmem).resolve_left (Ne.symm hpiece))
        refine ⟨back, ?_⟩
        rw [before, List.takeWhile_cons_of_pos (by simpa using hpiece)]
        exact congrArg (piece :: ·) hback

theorem infix_letters_of_mem (hmem : .field mark ∈ pieces) : mark <:+: letters pieces := by
  obtain ⟨back, hback⟩ := exists_before_append hmem
  rw [hback, letters_append, letters_field]
  exact ⟨letters (before mark pieces), letters back, by rw [List.append_assoc]⟩

/-- A mark that is free and has one field is replaced there, whatever stands behind. -/
theorem fillFirst_append_letters {rest : List α} (hsign : sign ∉ rest)
    (hfree : Free (sign :: rest) pieces) (hmem : .field (sign :: rest) ∈ pieces)
    (honce : fields (sign :: rest) pieces ≤ 1) (value more : List α) :
    fillFirst (sign :: rest) value (letters pieces ++ more) =
      letters (fillIn (sign :: rest) value pieces) ++ more := by
  obtain ⟨back, hback⟩ := exists_before_append hmem
  have hnone := field_notMem_before (sign :: rest) pieces
  rw [Free] at hfree
  generalize before (sign :: rest) pieces = front at hback hnone hfree
  subst hback
  have hbehind : .field (sign :: rest) ∉ back := by
    rw [fields, List.count_append, List.count_cons_self] at honce
    exact List.count_eq_zero.mp (by omega)
  have hsteady : Steady (sign :: rest) value (letters front) := by
    intro i hi
    rw [firstPlace_eq_none_of_absent hfree] at hi
    exact absurd hi (Option.some_ne_none i).symm
  have hown := (fillFirst_own_iff hsign value (letters front) (letters back ++ more)).mpr hsteady
  rw [fillIn_append, fillIn_field_self, fillIn_of_notMem hnone, fillIn_of_notMem hbehind,
    letters_append, letters_append, letters_field, letters_append, letters_map_letter]
  simpa only [List.append_assoc] using hown

/-- A mark that is free is replaced in its own place, if it has one. -/
theorem fillFirst_letters {rest : List α} (hsign : sign ∉ rest)
    (hfree : Free (sign :: rest) pieces) (honce : fields (sign :: rest) pieces ≤ 1)
    (value : List α) :
    fillFirst (sign :: rest) value (letters pieces) =
      letters (fillIn (sign :: rest) value pieces) := by
  by_cases hmem : .field (sign :: rest) ∈ pieces
  · have hfill := fillFirst_append_letters hsign hfree hmem honce value []
    rwa [List.append_nil, List.append_nil] at hfill
  · rw [Free, before_of_notMem hmem] at hfree
    rw [fillIn_of_notMem hmem, fillFirst, firstPlace_eq_none_of_absent hfree]

/-! ## All marks -/

/-- From a place on where a mark was replaced that was not its own, the text has a letter that
the pieces do not have. -/
inductive Parted (marks later : List (List α)) : List α → List (Piece α) → Prop
  | intro {lost : List α} {front back : List (Piece α)} {j : ℕ} {c : α} {rest : List α}
      (hlost : lost ∈ marks) (hlater : lost ∉ later) (hj : j < lost.length)
      (hc : ∀ other ∈ marks, c ∉ other) :
      Parted marks later (letters front ++ (lost.take j ++ c :: rest))
        (front ++ lost.map .letter ++ back)

variable {later : List (List α)} {table : List (List α × List α)}

omit [DecidableEq α] in
theorem Parted.ne (h : Parted marks later text pieces) : text ≠ letters pieces := by
  obtain ⟨hlost, -, hj, hc⟩ := h
  rename_i lost front back j c rest
  intro hsame
  rw [letters_append, letters_append, letters_map_letter, List.append_assoc,
    List.append_cancel_left_eq] at hsame
  have hleft : (lost.take j ++ c :: rest)[j]? = some c := by
    rw [List.getElem?_append_right (List.length_take_le _ _), List.length_take_of_le hj.le,
      Nat.sub_self, List.getElem?_cons_zero]
  rw [hsame, List.getElem?_append_left hj] at hleft
  exact hc lost hlost (List.mem_of_getElem? hleft)

/-- A mark that comes up in front of its own place is lost. -/
theorem Signed.parted (hmarks : Signed sign marks) (hmark : mark ∈ marks)
    (htells : Tells marks mark value) (hlater : mark ∉ later)
    (hfields : ∀ key, .field key ∈ front → key ∈ marks) (hfree : ¬Free mark front)
    (more : List α) (back : List (Piece α)) :
    Parted marks later (fillFirst mark value (letters front ++ more))
      (fillIn mark value (front ++ back)) := by
  obtain ⟨behind, hbehind⟩ := before_starts mark front
  rw [Free, not_not, ← isSome_firstPlace_iff, Option.isSome_iff_exists] at hfree
  obtain ⟨i, hi⟩ := hfree
  have hothers : ∀ key, .field key ∈ before mark front → key ∈ marks ∧ key ≠ mark := by
    intro key hkey
    refine ⟨hfields key ((before_starts mark front).subset hkey), ?_⟩
    rintro rfl
    exact field_notMem_before key front hkey
  obtain ⟨first, second, hpieces, rfl⟩ := hmarks.exists_of_firstPlace hmark hothers hi
  have hnone : .field mark ∉ first := by
    intro hmem
    refine field_notMem_before mark front ?_
    rw [hpieces, List.append_assoc]
    exact List.mem_append_left _ hmem
  obtain ⟨j, hj, c, rest, rfl, hc⟩ := htells
  have htext : letters front ++ more =
      letters first ++ (mark ++ (letters second ++ (letters behind ++ more))) := by
    rw [← hbehind, hpieces]
    simp only [letters_append, letters_map_letter, List.append_assoc]
  have hplace : firstPlace mark (letters front ++ more) = some (letters first).length := by
    rw [← hbehind, letters_append, List.append_assoc]
    exact firstPlace_append_of_some hi _
  have hfilled : fillFirst mark (mark.take j ++ c :: rest) (letters front ++ more) =
      letters first ++ (mark.take j ++ c :: (rest ++ (letters second ++ (letters behind ++ more)))) := by
    rw [fillFirst, hplace, htext]
    dsimp only
    rw [List.take_left, ← List.drop_drop, List.drop_left, List.drop_left]
    simp only [List.append_assoc, List.cons_append]
  rw [hfilled, ← hbehind, hpieces]
  simp only [List.append_assoc, fillIn_append, fillIn_of_notMem hnone,
    fillIn_of_notMem (field_notMem_map_letter mark mark)]
  rw [← List.append_assoc first]
  exact .intro hmark hlater hj hc

/-- In front of the place where a mark was lost no other mark begins. -/
theorem Signed.fillFirst_lost (hmarks : Signed sign marks) (hmark : mark ∈ marks) {lost : List α}
    (hlost : lost ∈ marks) (hne : lost ≠ mark) {front : List α} (hfront : ¬mark <:+: front) {j : ℕ}
    {c : α} (hc : c ∉ mark) (src rest : List α) :
    fillFirst mark src (front ++ (lost.take j ++ c :: rest)) =
      front ++ (lost.take j ++ c :: fillFirst mark src rest) := by
  obtain ⟨tail, rfl, htail⟩ := hmarks.head mark hmark
  have hbehind : ∀ i < [c].length, ¬sign :: tail <+: ([c] ++ rest).drop i := by
    intro i hi hstarts
    obtain rfl : i = 0 := by simpa using hi
    obtain ⟨rfl, -⟩ := List.cons_prefix_cons.mp hstarts
    exact hc List.mem_cons_self
  have hwithin : ∀ i < (lost.take j).length,
      ¬sign :: tail <+: (lost.take j ++ c :: rest).drop i := by
    intro i hi
    refine not_prefix_append_cons (fun hmem => hc (List.mem_cons_of_mem _ hmem)) hi ?_ rest
    intro hstarts
    rw [List.drop_take] at hstarts
    rw [List.length_take] at hi
    refine hmarks.spares hmark hlost hne i (by omega) [] ?_
    rw [List.append_nil]
    exact hstarts.trans (List.take_prefix _ _)
  have hbefore : ∀ i < front.length,
      ¬sign :: tail <+: (front ++ (lost.take j ++ c :: rest)).drop i := by
    intro i hi
    have hinfix : ¬sign :: tail <+: front.drop i := fun hstarts =>
      hfront (hstarts.isInfix.trans (List.drop_suffix i front).isInfix)
    obtain ⟨d, others, hd, hnot⟩ : ∃ d others, lost.take j ++ c :: rest = d :: others ∧
        d ∉ (sign :: tail).tail := by
      obtain ⟨more, rfl, -⟩ := hmarks.head lost hlost
      cases j with
      | zero => exact ⟨c, rest, rfl, fun hmem => hc (List.mem_cons_of_mem _ hmem)⟩
      | succ j => exact ⟨sign, more.take j ++ c :: rest, rfl, htail⟩
    rw [hd]
    exact not_prefix_append_cons hnot hi hinfix others
  have hletter := fillFirst_append hbehind src
  rw [List.singleton_append, List.singleton_append] at hletter
  rw [fillFirst_append hbefore, fillFirst_append hwithin, hletter]

theorem Parted.fillFirst (hmarks : Signed sign marks) (hmark : mark ∈ marks)
    (htells : Tells marks mark value) (hlater : mark ∉ later)
    (hfields : ∀ key, .field key ∈ pieces → key ∈ marks) (honce : fields mark pieces ≤ 1)
    (h : Parted marks (mark :: later) text pieces) :
    Parted marks later (fillFirst mark value text) (fillIn mark value pieces) := by
  obtain ⟨hlost, hnew, hj, hc⟩ := h
  rename_i lost front back j c rest
  obtain ⟨hne, hgone⟩ := not_or.mp (List.mem_cons.not.mp hnew)
  have hfront : ∀ key, .field key ∈ front → key ∈ marks := fun key hkey =>
    hfields key (by simp [hkey])
  by_cases hfree : Free mark front
  · by_cases hwithin : mark <:+: letters front
    · -- The mark has its own place in front.
      have hmem : .field mark ∈ front := by
        by_contra hnone
        rw [Free, before_of_notMem hnone] at hfree
        exact hfree hwithin
      have hfew : fields mark front ≤ 1 := by
        rw [fields, List.append_assoc, List.count_append] at honce
        exact (Nat.le_add_right _ _).trans honce
      obtain ⟨tail, rfl, htail⟩ := hmarks.head mark hmark
      rw [fillFirst_append_letters htail hfree hmem hfew, fillIn_append, fillIn_append,
        fillIn_of_notMem (field_notMem_map_letter _ lost)]
      exact .intro hlost hgone hj hc
    · have hnone : .field mark ∉ front := fun hmem => hwithin (infix_letters_of_mem hmem)
      rw [hmarks.fillFirst_lost hmark hlost hne hwithin (hc mark hmark), fillIn_append,
        fillIn_append, fillIn_of_notMem hnone, fillIn_of_notMem (field_notMem_map_letter _ lost)]
      exact .intro hlost hgone hj hc
  · rw [List.append_assoc]
    exact hmarks.parted hmark htells hlater hfront hfree _ _

theorem mem_of_field_mem_fillIn {key : List α}
    (hmem : .field key ∈ fillIn mark value pieces) : .field key ∈ pieces := by
  obtain ⟨piece, hpiece, hmem⟩ := List.mem_flatMap.mp hmem
  split_ifs at hmem with hfield
  · exact absurd hmem (field_notMem_map_letter key value)
  · exact List.mem_singleton.mp hmem ▸ hpiece

theorem Parted.fillFirsts (hmarks : Signed sign marks) (hnodup : (table.map Prod.fst).Nodup)
    (htable : ∀ entry ∈ table, entry.1 ∈ marks ∧ Tells marks entry.1 entry.2)
    (hfields : ∀ key, .field key ∈ pieces → key ∈ marks) (honce : ∀ key, fields key pieces ≤ 1)
    (h : Parted marks (table.map Prod.fst) text pieces) :
    Parted marks [] (fillFirsts table text) (fillIns table pieces) := by
  induction table generalizing text pieces with
  | nil => exact h
  | cons entry rest ih =>
      obtain ⟨⟨hmark, htells⟩, hrest⟩ := List.forall_mem_cons.mp htable
      obtain ⟨hnew, hnodup⟩ := List.nodup_cons.mp hnodup
      exact ih hnodup hrest (fun key hkey => hfields key (mem_of_field_mem_fillIn hkey))
        (fun key => (fields_fillIn_le _ _ key pieces).trans (honce key))
        (h.fillFirst hmarks hmark htells hnew hfields (honce entry.1))

/-- The marks that are replaced one after the other get the values in their own places exactly if
each of them is free when its turn comes. -/
theorem fillFirsts_eq_iff (hmarks : Signed sign marks) (hnodup : (table.map Prod.fst).Nodup)
    (htable : ∀ entry ∈ table, entry.1 ∈ marks ∧ Tells marks entry.1 entry.2)
    (hfields : ∀ key, .field key ∈ pieces → key ∈ marks) (honce : ∀ key, fields key pieces ≤ 1) :
    fillFirsts table (letters pieces) = letters (fillIns table pieces) ↔ Placed table pieces := by
  induction table generalizing pieces with
  | nil => exact iff_of_true rfl trivial
  | cons entry rest ih =>
      obtain ⟨mark, value⟩ := entry
      obtain ⟨⟨hmark, htells⟩, hrest⟩ := List.forall_mem_cons.mp htable
      obtain ⟨hnew, hnodup⟩ := List.nodup_cons.mp hnodup
      have hlaterFields : ∀ key, .field key ∈ fillIn mark value pieces → key ∈ marks :=
        fun key hkey => hfields key (mem_of_field_mem_fillIn hkey)
      have hlaterOnce : ∀ key, fields key (fillIn mark value pieces) ≤ 1 := fun key =>
        (fields_fillIn_le _ _ key pieces).trans (honce key)
      rw [Placed, fillFirsts, fillIns, List.foldl_cons, List.foldl_cons]
      by_cases hfree : Free mark pieces
      · rw [and_iff_right hfree, ← ih hnodup hrest hlaterFields hlaterOnce]
        obtain ⟨tail, rfl, htail⟩ := hmarks.head mark hmark
        rw [fillFirst_letters htail hfree (honce _)]
        rfl
      · refine iff_of_false ?_ fun h => hfree h.1
        have hparted := hmarks.parted hmark htells hnew hfields hfree [] []
        rw [List.append_nil, List.append_nil] at hparted
        exact (hparted.fillFirsts hmarks hnodup hrest hlaterFields hlaterOnce).ne

/-- All marks are filled in at once. -/
theorem letters_fillIns (table : List (List α × List α)) (pieces : List (Piece α)) :
    letters (fillIns table pieces) = filled (fun key => (table.lookup key).getD key) pieces := by
  induction table generalizing pieces with
  | nil => rfl
  | cons entry rest ih =>
      obtain ⟨key, value⟩ := entry
      rw [fillIns, List.foldl_cons, ← fillIns, ih, filled_fillIn]
      refine congrArg (fun fill => filled fill pieces) (funext fun other => ?_)
      by_cases hother : other = key
      · simp [hother]
      · simp [hother, List.lookup_cons, beq_eq_false_iff_ne.mpr hother]

/-! ## The first places -/

theorem letters_firsts (seen : List (List α)) (pieces : List (Piece α)) :
    letters (firsts seen pieces) = letters pieces := by
  induction pieces generalizing seen with
  | nil => rfl
  | cons piece rest ih =>
      cases piece with
      | letter c => exact congrArg (c :: ·) (ih seen)
      | field key =>
          rw [firsts]
          split_ifs with hseen
          · rw [letters_append, letters_map_letter, ih, letters_field]
          · rw [letters_field, letters_field, ih]

theorem mem_of_field_mem_firsts {seen : List (List α)} {key : List α}
    (hmem : .field key ∈ firsts seen pieces) : .field key ∈ pieces ∧ key ∉ seen := by
  induction pieces generalizing seen with
  | nil => exact absurd hmem List.not_mem_nil
  | cons piece rest ih =>
      cases piece with
      | letter c =>
          rw [firsts, List.mem_cons] at hmem
          exact (ih (hmem.resolve_left nofun)).imp_left (List.mem_cons_of_mem _)
      | field other =>
          rw [firsts] at hmem
          split_ifs at hmem with hseen
          · have hrest := (List.mem_append.mp hmem).resolve_left (field_notMem_map_letter key other)
            exact (ih hrest).imp_left (List.mem_cons_of_mem _)
          · rcases List.mem_cons.mp hmem with heq | hrest
            · obtain rfl := Piece.field.inj heq
              exact ⟨List.mem_cons_self, hseen⟩
            · obtain ⟨hin, hnot⟩ := ih hrest
              exact ⟨List.mem_cons_of_mem _ hin, fun h => hnot (List.mem_cons_of_mem _ h)⟩

theorem fields_firsts_le (seen : List (List α)) (key : List α) (pieces : List (Piece α)) :
    fields key (firsts seen pieces) ≤ 1 := by
  induction pieces generalizing seen with
  | nil => exact Nat.zero_le 1
  | cons piece rest ih =>
      cases piece with
      | letter c => simpa [fields, firsts] using ih seen
      | field other =>
          rw [firsts]
          split_ifs with hseen
          · have hletters : (other.map Piece.letter).count (.field key) = 0 :=
              List.count_eq_zero.mpr (field_notMem_map_letter key other)
            rw [fields, List.count_append, hletters, Nat.zero_add]
            exact ih seen
          · by_cases hkey : other = key
            · subst hkey
              have hnone : (firsts (other :: seen) rest).count (.field other) = 0 :=
                List.count_eq_zero.mpr fun hmem =>
                  (mem_of_field_mem_firsts hmem).2 List.mem_cons_self
              rw [fields, List.count_cons_self, hnone]
            · have hpiece : (Piece.field other == Piece.field key) = false := by simpa using hkey
              rw [fields, List.count_cons, hpiece]
              exact ih _

theorem before_map_letter_append (mark text : List α) (pieces : List (Piece α)) :
    before mark (text.map .letter ++ pieces) = text.map .letter ++ before mark pieces := by
  rw [before, List.takeWhile_append_of_pos, before]
  intro piece hpiece
  obtain ⟨c, -, rfl⟩ := List.mem_map.mp hpiece
  simp

/-- In front of the first place of a mark the text is as it was. -/
theorem letters_before_firsts {seen : List (List α)} (hseen : mark ∉ seen)
    (pieces : List (Piece α)) :
    letters (before mark (firsts seen pieces)) = letters (before mark pieces) := by
  induction pieces generalizing seen with
  | nil => rfl
  | cons piece rest ih =>
      cases piece with
      | letter c =>
          rw [firsts, before, before, List.takeWhile_cons_of_pos (by simp),
            List.takeWhile_cons_of_pos (by simp)]
          exact congrArg (c :: ·) (ih hseen)
      | field key =>
          by_cases hkey : key = mark
          · subst hkey
            rw [firsts, if_neg hseen, before, before, List.takeWhile_cons_of_neg (by simp),
              List.takeWhile_cons_of_neg (by simp)]
          · have hright : before mark (.field key :: rest) = .field key :: before mark rest := by
              rw [before, List.takeWhile_cons_of_pos (by simpa using hkey), before]
            rw [firsts, hright, letters_field]
            split_ifs with hold
            · rw [before_map_letter_append, letters_append, letters_map_letter, ih hseen]
            · have hnew : mark ∉ key :: seen :=
                not_or.mpr ⟨Ne.symm hkey, hseen⟩ ∘ List.mem_cons.mp
              rw [before, List.takeWhile_cons_of_pos (by simpa using hkey), letters_field]
              exact congrArg (key ++ ·) (ih hnew)

theorem Spares.infix_of_append (hspares : Spares mark text) {more : List α}
    (hwithin : mark <:+: text ++ more) : mark <:+: more := by
  rw [← isSome_firstPlace_iff, firstPlace_append fun i hi => by
    rw [List.drop_append_of_le_length hi.le]
    exact hspares i hi more, Option.isSome_map] at hwithin
  exact isSome_firstPlace_iff.mp hwithin

theorem letters_before_starts (mark : List α) (pieces : List (Piece α)) :
    letters (before mark pieces) <+: letters pieces := by
  obtain ⟨back, hback⟩ := before_starts mark pieces
  exact ⟨letters back, by rw [← letters_append, hback]⟩

/-- In a text the first field of a mark is where it comes up first. -/
theorem Signed.free_piecesFrom (hmarks : Signed sign marks) (hmark : mark ∈ marks) (skip : ℕ)
    (text : List α) : Free mark (piecesFrom marks skip text) := by
  have hpos : mark ≠ [] := by
    obtain ⟨rest, rfl, -⟩ := hmarks.head mark hmark
    exact List.cons_ne_nil _ _
  have hkeys : [] ∉ marks := fun hnil => by
    obtain ⟨rest, hrest, -⟩ := hmarks.head [] hnil
    exact nomatch hrest
  have hempty : Free mark [] := fun hwithin => hpos (List.infix_nil.mp hwithin)
  induction text generalizing skip with
  | nil => cases skip <;> exact hempty
  | cons c rest ih =>
      cases skip with
      | succ skip => exact ih skip
      | zero =>
          rw [piecesFrom]
          cases hlongest : longest marks (c :: rest) with
          | none =>
              rw [Free, before, List.takeWhile_cons_of_pos (by simp), letters_letter]
              intro hwithin
              rcases List.infix_cons_iff.mp hwithin with hstarts | hlater
              · have htext : mark <+: c :: rest := by
                  refine hstarts.trans (List.cons_prefix_cons.mpr ⟨rfl, ?_⟩)
                  have hprefix := letters_before_starts mark (piecesFrom marks 0 rest)
                  rwa [letters_piecesFrom hkeys, List.drop_zero] at hprefix
                rw [longest, List.argmax_eq_none, List.filter_eq_nil_iff] at hlongest
                exact hlongest mark hmark (by simpa using htext)
              · exact ih 0 hlater
          | some key =>
              by_cases hkey : key = mark
              · subst hkey
                rw [Free, before, List.takeWhile_cons_of_neg (by simp)]
                exact hempty
              · rw [Free, before, List.takeWhile_cons_of_pos (by simpa using hkey), letters_field]
                have hspares := hmarks.spares hmark (longest_starts hlongest).1 hkey
                exact fun hwithin => ih _ (hspares.infix_of_append hwithin)

/-- The template with its marks in their first places. -/
def template (marks : List (List α)) (text : List α) : List (Piece α) :=
  firsts [] (Placeholders.pieces marks text)

theorem Signed.letters_template (hmarks : Signed sign marks) (text : List α) :
    letters (template marks text) = text := by
  have hkeys : [] ∉ marks := fun hnil => by
    obtain ⟨rest, hrest, -⟩ := hmarks.head [] hnil
    exact nomatch hrest
  rw [template, letters_firsts, letters_pieces hkeys]

theorem mem_of_field_mem_template {key : List α} (hmem : .field key ∈ template marks text) :
    key ∈ marks :=
  mem_of_field_mem_pieces (mem_of_field_mem_firsts hmem).1

theorem Signed.free_template (hmarks : Signed sign marks) (hmark : mark ∈ marks)
    (text : List α) : Free mark (template marks text) := by
  rw [Free, template, letters_before_firsts List.not_mem_nil]
  exact hmarks.free_piecesFrom hmark 0 text

/-- The first mark of a template is free; the others decide. -/
theorem Signed.fillFirsts_template_iff (hmarks : Signed sign marks) (hmark : mark ∈ marks)
    (hnodup : (table.map Prod.fst).Nodup)
    (htable : ∀ entry ∈ table, entry.1 ∈ marks ∧ Tells marks entry.1 entry.2) (text : List α) :
    fillFirsts ((mark, value) :: table) text =
        filled (fun key => (((mark, value) :: table).lookup key).getD key) (template marks text) ↔
      Placed ((mark, value) :: table) (template marks text) := by
  have hfree := hmarks.free_template hmark text
  have honce : ∀ key, fields key (template marks text) ≤ 1 := fun key => fields_firsts_le [] key _
  rw [← letters_fillIns, Placed, and_iff_right hfree,
    ← fillFirsts_eq_iff hmarks hnodup htable
      (fun key hkey => mem_of_field_mem_template (mem_of_field_mem_fillIn hkey))
      fun key => (fields_fillIn_le _ _ key _).trans (honce key)]
  obtain ⟨tail, rfl, htail⟩ := hmarks.head mark hmark
  rw [← fillFirst_letters htail hfree (honce _), hmarks.letters_template]
  rfl

end Hat.Placeholders
