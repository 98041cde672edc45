import Mathlib.Data.List.Induction
import Mathlib.Data.List.Nodup

/-!
# Overwriting by key

A list in which an element takes the place of the earlier one with the same key, and comes
last when there is none.  Of the elements written one after the other, those are kept that
are the last ones with their keys.
-/

namespace Hat

variable {ε κ : Type*} [DecidableEq κ] (key : ε → κ)

def overwrite (element : ε) : List ε → List ε
  | [] => [element]
  | head :: rest =>
      if key head = key element then element :: rest else head :: overwrite element rest

def overwriteAll (elements : List ε) : List ε :=
  elements.foldl (fun kept element => overwrite key element kept) []

/-- The last element with the key. -/
def lastWith (k : κ) (elements : List ε) : Option ε :=
  elements.reverse.find? fun element => key element = k

/-- No later element has the key of this one. -/
def Survives (elements : List ε) (element : ε) : Prop :=
  lastWith key (key element) elements = some element

instance [DecidableEq ε] (elements : List ε) : DecidablePred (Survives key elements) :=
  fun _ => inferInstanceAs (Decidable (_ = _))

theorem lastWith_append_singleton (k : κ) (elements : List ε) (element : ε) :
    lastWith key k (elements ++ [element]) =
      if key element = k then some element else lastWith key k elements := by
  rw [lastWith, lastWith, List.reverse_append, List.reverse_singleton, List.singleton_append,
    List.find?_cons]
  split <;> simp_all

theorem map_overwrite (element : ε) (kept : List ε) :
    (overwrite key element kept).map key =
      if key element ∈ kept.map key then kept.map key else kept.map key ++ [key element] := by
  induction kept with
  | nil => rfl
  | cons head rest ih =>
      rw [overwrite]
      by_cases hhead : key head = key element
      · rw [if_pos hhead, List.map_cons, List.map_cons, hhead, if_pos List.mem_cons_self]
      · have hmem : key element ∈ key head :: rest.map key ↔ key element ∈ rest.map key := by
          rw [List.mem_cons, or_iff_right (Ne.symm hhead)]
        rw [if_neg hhead, List.map_cons, List.map_cons, ih]
        simp only [hmem]
        split <;> rfl

theorem nodup_overwrite (element : ε) {kept : List ε} (hnodup : (kept.map key).Nodup) :
    ((overwrite key element kept).map key).Nodup := by
  rw [map_overwrite]
  split
  · exact hnodup
  · rename_i hnew
    rw [← List.concat_eq_append]
    exact List.Nodup.concat hnew hnodup

theorem self_mem_overwrite (element : ε) (kept : List ε) :
    element ∈ overwrite key element kept := by
  induction kept with
  | nil => exact List.mem_singleton_self element
  | cons head rest ih =>
      rw [overwrite]
      split
      · exact List.mem_cons_self
      · exact List.mem_cons_of_mem head ih

/-- The elements of other keys stay. -/
theorem mem_overwrite_of_key_ne {element other : ε} (hkey : key other ≠ key element)
    (kept : List ε) : other ∈ overwrite key element kept ↔ other ∈ kept := by
  have hne : other ≠ element := fun heq => hkey (congrArg key heq)
  induction kept with
  | nil => simp [overwrite, hne]
  | cons head rest ih =>
      rw [overwrite]
      split
      · rename_i hhead
        have hfirst : other ≠ head := by
          rintro rfl
          exact hkey hhead
        simp [hne, hfirst]
      · rw [List.mem_cons, List.mem_cons]
        exact or_congr_right ih

theorem filter_overwrite {element : ε} {p : ε → Bool}
    (hp : ∀ other, key other = key element → p other = false) (kept : List ε) :
    (overwrite key element kept).filter p = kept.filter p := by
  induction kept with
  | nil => simp [overwrite, hp element rfl]
  | cons head rest ih =>
      rw [overwrite]
      split
      · rename_i hhead
        simp [hp element rfl, hp head hhead]
      · rw [List.filter_cons, List.filter_cons, ih]

/-- In a list with one element for each key no other element has the key of the new one. -/
theorem eq_of_mem_overwrite {element other : ε} {kept : List ε} (hnodup : (kept.map key).Nodup)
    (hother : other ∈ overwrite key element kept) (hkey : key other = key element) :
    other = element :=
  List.inj_on_of_nodup_map (nodup_overwrite key element hnodup) hother
    (self_mem_overwrite key element kept) hkey

theorem nodup_foldl_overwrite (elements : List ε) {base : List ε} (hbase : (base.map key).Nodup) :
    ((elements.foldl (fun kept element => overwrite key element kept) base).map key).Nodup := by
  induction elements generalizing base with
  | nil => exact hbase
  | cons element rest ih => exact ih (nodup_overwrite key element hbase)

theorem find?_overwrite (element : ε) (kept : List ε) (k : κ) :
    (overwrite key element kept).find? (fun other => key other = k) =
      if key element = k then some element else kept.find? fun other => key other = k := by
  induction kept with
  | nil =>
      rw [overwrite, List.find?_cons]
      split <;> simp_all
  | cons head rest ih =>
      rw [overwrite]
      by_cases hhead : key head = key element
      · rw [if_pos hhead, List.find?_cons, List.find?_cons, hhead]
        by_cases hk : key element = k <;> simp [hk]
      · rw [if_neg hhead, List.find?_cons, List.find?_cons, ih]
        by_cases hk : key head = k
        · have hother : key element ≠ k := fun helement => hhead (hk.trans helement.symm)
          simp [hk, hother]
        · simp [hk]

/-- What is found in a list that is written over is the last new element, or an old one. -/
theorem find?_foldl_overwrite (elements base : List ε) (k : κ) :
    (elements.foldl (fun kept element => overwrite key element kept) base).find?
        (fun other => key other = k) =
      (lastWith key k elements).or (base.find? fun other => key other = k) := by
  induction elements using List.reverseRecOn with
  | nil => rfl
  | append_singleton elements element ih =>
      rw [lastWith_append_singleton, List.foldl_append, List.foldl_cons, List.foldl_nil,
        find?_overwrite, ih]
      split <;> rfl

theorem find?_eq_some_iff_of_nodup {kept : List ε} (hnodup : (kept.map key).Nodup) (element : ε) :
    kept.find? (fun other => key other = key element) = some element ↔ element ∈ kept := by
  constructor
  · exact List.mem_of_find?_eq_some
  · intro hmem
    cases hfind : kept.find? fun other => key other = key element with
    | none => simpa using List.find?_eq_none.mp hfind element hmem
    | some found =>
        have hkey : key found = key element := by simpa using List.find?_some hfind
        rw [List.inj_on_of_nodup_map hnodup (List.mem_of_find?_eq_some hfind) hmem hkey]

/-- With one element for each key, what is counted with a key is the one that is found. -/
theorem countP_filter_of_nodup {kept : List ε} (hnodup : (kept.map key).Nodup) (p : ε → Bool)
    (k : κ) :
    (kept.filter p).countP (fun element => key element = k) =
      if (kept.find? fun element => key element = k).any p then 1 else 0 := by
  induction kept with
  | nil => rfl
  | cons head rest ih =>
      rw [List.map_cons, List.nodup_cons] at hnodup
      by_cases hhead : key head = k
      · have hfound : (head :: rest).find? (fun element => key element = k) = some head :=
          List.find?_cons_of_pos (p := fun element => decide (key element = k))
            (decide_eq_true hhead)
        have hrest : (rest.filter p).countP (fun element => key element = k) = 0 := by
          rw [List.countP_eq_zero]
          intro element helement hkey
          apply hnodup.1
          rw [hhead, ← of_decide_eq_true hkey]
          exact List.mem_map_of_mem (List.mem_filter.mp helement).1
        rw [hfound, Option.any_some, List.filter_cons]
        split_ifs
        · rw [List.countP_cons, hrest, if_pos (decide_eq_true hhead)]
        · exact hrest
      · have hbehind : (head :: rest).find? (fun element => key element = k) =
            rest.find? fun element => key element = k :=
          List.find?_cons_of_neg (p := fun element => decide (key element = k)) (by simpa)
        rw [hbehind, ← ih hnodup.2, List.filter_cons]
        split_ifs
        · rw [List.countP_cons, if_neg (by simpa), Nat.add_zero]
        · rfl

/-- Of the elements with a new key those are kept that no later one overwrites. -/
theorem mem_foldl_overwrite_iff (elements : List ε) {base : List ε} {element : ε}
    (hbase : (base.map key).Nodup) (hnew : key element ∉ base.map key) :
    element ∈ elements.foldl (fun kept element => overwrite key element kept) base ↔
      Survives key elements element := by
  have hnone : base.find? (fun other => key other = key element) = none := by
    rw [List.find?_eq_none]
    intro other hother hkey
    exact hnew (of_decide_eq_true hkey ▸ List.mem_map_of_mem hother)
  rw [Survives, ← find?_eq_some_iff_of_nodup key (nodup_foldl_overwrite key elements hbase),
    find?_foldl_overwrite, hnone, Option.or_none]

/-- The elements kept are those that no later one overwrites. -/
theorem mem_overwriteAll_iff (elements : List ε) (element : ε) :
    element ∈ overwriteAll key elements ↔ Survives key elements element :=
  mem_foldl_overwrite_iff key elements List.nodup_nil List.not_mem_nil

theorem Survives.mem {elements : List ε} {element : ε} (h : Survives key elements element) :
    element ∈ elements :=
  List.mem_reverse.mp (List.mem_of_find?_eq_some h)

/-- Nothing is lost exactly when no two different elements have one key. -/
theorem forall_survives_iff (elements : List ε) :
    (∀ element ∈ elements, Survives key elements element) ↔
      ∀ left ∈ elements, ∀ right ∈ elements, key left = key right → left = right := by
  constructor
  · intro h left hleft right hright hkey
    have hlast := h left hleft
    rw [Survives, hkey, h right hright] at hlast
    exact (Option.some.inj hlast).symm
  · intro h element helement
    cases hlast : lastWith key (key element) elements with
    | none =>
        rw [lastWith, List.find?_eq_none] at hlast
        exact absurd (decide_eq_true rfl) (hlast element (List.mem_reverse.mpr helement))
    | some last =>
        have hkey : key last = key element := by simpa using List.find?_some hlast
        have hmem : last ∈ elements := List.mem_reverse.mp (List.mem_of_find?_eq_some hlast)
        rw [Survives, hlast, h last hmem element helement hkey]

section Map

variable {δ ι : Type*} [DecidableEq ι] (form : δ → ε) (index : δ → ι)
  (hkey : ∀ left right, key (form left) = key (form right) ↔ index left = index right)

include hkey

theorem lastWith_map (elements : List δ) (element : δ) :
    lastWith key (key (form element)) (elements.map form) =
      (lastWith index (index element) elements).map form := by
  simp only [lastWith, ← List.map_reverse, List.find?_map, Function.comp_def, hkey]

theorem survives_map (hform : form.Injective) (elements : List δ) (element : δ) :
    Survives key (elements.map form) (form element) ↔ Survives index elements element := by
  rw [Survives, Survives, lastWith_map key form index hkey, ← Option.map_some,
    (Option.map_injective hform).eq_iff]

end Map

end Hat
