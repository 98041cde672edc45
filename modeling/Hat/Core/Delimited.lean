import Mathlib.Data.List.Basic

/-!
# Contents between delimiters

A text puts contents between fixed delimiters without quoting them.  Where a content ends is
decided by the letters that contents are made of: if they cannot spell what a delimiter
begins with wherever another delimiter could start inside it, a content and the text behind
it are determined by their concatenation.
-/

namespace Hat.Delimited

variable {α : Type*}

/-- Two words agree as far as both go. -/
def Comparable (left right : List α) : Prop := left <+: right ∨ right <+: left

/-- The word has all letters of one of the keys. -/
def Covered (keys : List (List α)) (word : List α) : Prop :=
  ∃ key ∈ keys, ∀ a ∈ key, a ∈ word

/-- What stands behind a content: an inner delimiter and anything, or an ending. -/
def Tail (inner endings : List (List α)) (text : List α) : Prop :=
  (∃ delimiter ∈ inner, delimiter <+: text) ∨ text ∈ endings

instance [DecidableEq α] (left right : List α) : Decidable (Comparable left right) :=
  inferInstanceAs (Decidable (left <+: right ∨ right <+: left))

instance [DecidableEq α] (keys : List (List α)) (word : List α) :
    Decidable (Covered keys word) :=
  inferInstanceAs (Decidable (∃ key ∈ keys, ∀ a ∈ key, a ∈ word))

/-- A content without a letter of each key cannot spell an inner delimiter, nor its part
before a place where a delimiter could start. -/
structure Separates (keys inner endings : List (List α)) : Prop where
  nonempty : ∀ delimiter ∈ inner ++ endings, delimiter ≠ []
  covered : ∀ delimiter ∈ inner, Covered keys delimiter
  overlap : ∀ delimiter ∈ inner ++ endings, ∀ other ∈ inner ++ endings,
    ∀ place < delimiter.length, 0 < place → Comparable (delimiter.drop place) other →
      Covered keys (delimiter.take place)

instance [DecidableEq α] (keys inner endings : List (List α)) :
    Decidable (Separates keys inner endings) :=
  decidable_of_iff
    ((∀ delimiter ∈ inner ++ endings, delimiter ≠ []) ∧
      (∀ delimiter ∈ inner, Covered keys delimiter) ∧
      ∀ delimiter ∈ inner ++ endings, ∀ other ∈ inner ++ endings,
        ∀ place < delimiter.length, 0 < place → Comparable (delimiter.drop place) other →
          Covered keys (delimiter.take place))
    ⟨fun ⟨hnonempty, hcovered, hoverlap⟩ => ⟨hnonempty, hcovered, hoverlap⟩,
      fun h => ⟨h.nonempty, h.covered, h.overlap⟩⟩

theorem append_ne_append {left right : List α} (h : ¬ Comparable left right)
    (text other : List α) : left ++ text ≠ right ++ other := by
  intro heq
  have hleft : left <+: left ++ text := List.prefix_append left text
  have hright : right <+: left ++ text := heq ▸ List.prefix_append right other
  exact h (List.prefix_or_prefix_of_prefix hleft hright)

/-- Words over the letters of a content. -/
def Over (letters : Set α) (word : List α) : Prop := ∀ a ∈ word, a ∈ letters

instance (letters : Set α) [DecidablePred (· ∈ letters)] (word : List α) :
    Decidable (Over letters word) :=
  List.decidableBAll (· ∈ letters) word

theorem Over.of_subset {letters : Set α} {word part : List α} (hword : Over letters word)
    (hpart : part ⊆ word) : Over letters part :=
  fun a ha => hword a (hpart ha)

/-- Each key has a letter that contents do not have. -/
def Lacks (letters : Set α) (keys : List (List α)) : Prop :=
  ∀ key ∈ keys, ∃ a ∈ key, a ∉ letters

section Cut

variable {letters : Set α} {keys inner endings : List (List α)}

theorem Over.not_covered {word : List α} (hword : Over letters word)
    (hlacks : Lacks letters keys) : ¬ Covered keys word := by
  rintro ⟨key, hkey, hletters⟩
  obtain ⟨a, ha, hnot⟩ := hlacks key hkey
  exact hnot (hword a (hletters a ha))

/-- A tail begins with a delimiter; if that one is no inner one, it is the whole tail. -/
theorem Tail.exists_delimiter {text : List α} (h : Tail inner endings text) :
    ∃ delimiter ∈ inner ++ endings,
      delimiter <+: text ∧ (delimiter ∈ inner ∨ delimiter = text) := by
  rcases h with ⟨delimiter, hmem, hprefix⟩ | hmem
  · exact ⟨delimiter, List.mem_append_left _ hmem, hprefix, Or.inl hmem⟩
  · exact ⟨text, List.mem_append_right _ hmem, List.prefix_refl _, Or.inr rfl⟩

/-- No part of a content stands between two places where tails begin. -/
theorem eq_nil_of_tail (hseparates : Separates keys inner endings) (hlacks : Lacks letters keys)
    {part text : List α} (hpart : Over letters part)
    (hlong : Tail inner endings (part ++ text)) (htail : Tail inner endings text) :
    part = [] := by
  by_contra hne
  obtain ⟨delimiter, hmem, hprefix, hkind⟩ := hlong.exists_delimiter
  obtain ⟨other, hother, hotherPrefix, -⟩ := htail.exists_delimiter
  rcases Nat.lt_or_ge part.length delimiter.length with hlt | hge
  · -- the other delimiter starts inside this one
    obtain ⟨rest, rfl⟩ : part <+: delimiter :=
      List.prefix_of_prefix_length_le (List.prefix_append part text) hprefix (Nat.le_of_lt hlt)
    have hrest : rest <+: text := (List.prefix_append_right_inj part).mp hprefix
    have hcomparable : Comparable ((part ++ rest).drop part.length) other := by
      rw [List.drop_left]
      exact List.prefix_or_prefix_of_prefix hrest hotherPrefix
    have hcovered := hseparates.overlap _ hmem other hother part.length hlt
      (List.length_pos_iff.mpr hne) hcomparable
    rw [List.take_left] at hcovered
    exact hpart.not_covered hlacks hcovered
  · have hinside : delimiter <+: part :=
      List.prefix_of_prefix_length_le hprefix (List.prefix_append part text) hge
    rcases hkind with hinner | hwhole
    · exact (hpart.of_subset hinside.subset).not_covered hlacks
        (hseparates.covered delimiter hinner)
    · -- the ending is the whole tail, so nothing is left for the other one
      have hlength := congrArg List.length hwhole
      rw [List.length_append] at hlength
      have htext : text = [] := List.length_eq_zero_iff.mp (by omega)
      rw [htext] at hotherPrefix
      exact hseparates.nonempty other hother (List.prefix_nil.mp hotherPrefix)

/-- A content and the tail behind it are determined by the text. -/
theorem cut (hseparates : Separates keys inner endings) (hlacks : Lacks letters keys)
    {content other text rest : List α} (hcontent : Over letters content)
    (hother : Over letters other) (htext : Tail inner endings text)
    (hrest : Tail inner endings rest) (heq : content ++ text = other ++ rest) :
    content = other ∧ text = rest := by
  rcases List.append_eq_append_iff.mp heq with ⟨part, rfl, rfl⟩ | ⟨part, rfl, rfl⟩
  · have hnil := eq_nil_of_tail hseparates hlacks
      (hother.of_subset (List.subset_append_right content part)) htext hrest
    rw [hnil, List.append_nil, List.nil_append]
    exact ⟨rfl, rfl⟩
  · have hnil := eq_nil_of_tail hseparates hlacks
      (hcontent.of_subset (List.subset_append_right other part)) hrest htext
    rw [hnil, List.append_nil, List.nil_append]
    exact ⟨rfl, rfl⟩

end Cut

end Hat.Delimited
