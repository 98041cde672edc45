import Mathlib.Data.List.Basic

/-!
# Marking first places

Each key marks its first place in a list of names.  All places are marked exactly when no
name is repeated and every name is a key.
-/

namespace Hat

variable {α : Type*} [DecidableEq α]

def markFirst (names : List α) (flags : List Bool) (key : α) : List Bool :=
  match names.idxOf? key with
  | some place => flags.set place true
  | none => flags

def firstMarks (names keys : List α) : List Bool :=
  keys.foldl (markFirst names) (names.map fun _ => false)

theorem getElem?_markFirst (names : List α) (flags : List Bool) (key : α) (place : ℕ) :
    (markFirst names flags key)[place]? =
      flags[place]?.map fun flag => flag || decide (names.idxOf? key = some place) := by
  rw [markFirst]
  cases hfirst : names.idxOf? key with
  | none => simp
  | some first =>
      dsimp only
      rw [List.getElem?_set']
      by_cases hplace : first = place
      · subst hplace
        cases flags[first]? <;> simp
      · simp [hplace]

theorem getElem?_foldl_markFirst (names keys : List α) (flags : List Bool) (place : ℕ) :
    (keys.foldl (markFirst names) flags)[place]? =
      flags[place]?.map fun flag =>
        flag || decide (∃ key ∈ keys, names.idxOf? key = some place) := by
  induction keys generalizing flags with
  | nil => simp
  | cons key rest ih =>
      rw [List.foldl_cons, ih, getElem?_markFirst, Option.map_map]
      congr 1
      funext flag
      simp only [Function.comp_apply, List.exists_mem_cons_iff, Bool.or_assoc, Bool.decide_or]

theorem all_firstMarks_iff_forall_place (names keys : List α) :
    ((firstMarks names keys).all fun flag => flag) = true ↔
      ∀ place < names.length, ∃ key ∈ keys, names.idxOf? key = some place := by
  have hmarks : ∀ place, (firstMarks names keys)[place]? =
      names[place]?.map fun _ => decide (∃ key ∈ keys, names.idxOf? key = some place) := by
    intro place
    rw [firstMarks, getElem?_foldl_markFirst, List.getElem?_map, Option.map_map]
    congr 1
  rw [List.all_eq_true]
  constructor
  · intro hall place hplace
    have hmark := hmarks place
    rw [List.getElem?_eq_getElem hplace, Option.map_some] at hmark
    exact of_decide_eq_true (hall _ (List.mem_of_getElem? hmark))
  · intro hkeys flag hflag
    obtain ⟨place, hmark⟩ := List.mem_iff_getElem?.mp hflag
    rw [hmarks, Option.map_eq_some_iff] at hmark
    obtain ⟨name, hname, rfl⟩ := hmark
    exact decide_eq_true (hkeys place (List.getElem?_eq_some_iff.mp hname).1)

theorem all_firstMarks_iff (names keys : List α) :
    ((firstMarks names keys).all fun flag => flag) = true ↔
      names.Nodup ∧ ∀ name ∈ names, name ∈ keys := by
  rw [all_firstMarks_iff_forall_place]
  constructor
  · intro hmarked
    constructor
    · rw [List.Nodup, List.pairwise_iff_getElem]
      intro earlier later hearlier hlater hlt hsame
      obtain ⟨key, _, hfirst⟩ := hmarked later hlater
      obtain ⟨_, hkey, hbefore⟩ := List.idxOf?_eq_some_iff.mp hfirst
      exact hbefore earlier hlt (hsame.trans hkey)
    · intro name hname
      obtain ⟨place, hplace, rfl⟩ := List.mem_iff_getElem.mp hname
      obtain ⟨key, hkey, hfirst⟩ := hmarked place hplace
      obtain ⟨_, hsame, _⟩ := List.idxOf?_eq_some_iff.mp hfirst
      rwa [hsame]
  · rintro ⟨hnodup, hkeys⟩ place hplace
    refine ⟨names[place], hkeys _ (List.getElem_mem hplace), ?_⟩
    rw [List.idxOf?_eq_some_iff]
    rw [List.Nodup, List.pairwise_iff_getElem] at hnodup
    refine ⟨hplace, rfl, ?_⟩
    intro earlier hlt
    exact hnodup earlier place (Nat.lt_trans hlt hplace) hplace hlt

end Hat
