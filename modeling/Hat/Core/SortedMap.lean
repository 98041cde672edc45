import Mathlib.Order.Lattice
import Mathlib.Data.List.Basic

/-!
# Finite maps kept in key order

An ordered map is the list of its entries with strictly increasing keys, so that
iteration order is part of the value and two maps with the same entries are equal.
The bound on the keys is a field of the structure: an unordered map, or one that
holds a key twice, cannot be built.
-/

namespace Hat

structure SortedMap (κ ν : Type*) [LinearOrder κ] where
  entries : List (κ × ν)
  sorted : entries.Pairwise fun left right => left.1 < right.1

namespace SortedMap

variable {κ ν : Type*} [LinearOrder κ]

instance [DecidableEq ν] : DecidableEq (SortedMap κ ν) := fun left right =>
  decidable_of_iff (left.entries = right.entries) (by cases left; cases right; simp)

def lookupEntry (key : κ) : List (κ × ν) → Option ν
  | [] => none
  | entry :: rest => if entry.1 = key then some entry.2 else lookupEntry key rest

def insertEntry (key : κ) (value : ν) : List (κ × ν) → List (κ × ν)
  | [] => [(key, value)]
  | entry :: rest =>
      if key < entry.1 then (key, value) :: entry :: rest
      else if key = entry.1 then (key, value) :: rest
      else entry :: insertEntry key value rest

theorem mem_insertEntry {key : κ} {value : ν} {entries : List (κ × ν)} {entry : κ × ν}
    (h : entry ∈ insertEntry key value entries) : entry = (key, value) ∨ entry ∈ entries := by
  induction entries with
  | nil => exact Or.inl (List.mem_singleton.mp h)
  | cons head rest ih =>
      simp only [insertEntry] at h
      split at h
      · exact List.mem_cons.mp h
      · split at h
        · exact (List.mem_cons.mp h).imp_right (List.mem_cons_of_mem head)
        · rcases List.mem_cons.mp h with rfl | hrest
          · exact Or.inr List.mem_cons_self
          · exact (ih hrest).imp_right (List.mem_cons_of_mem head)

theorem sorted_insertEntry (key : κ) (value : ν) {entries : List (κ × ν)}
    (h : entries.Pairwise fun left right => left.1 < right.1) :
    (insertEntry key value entries).Pairwise fun left right => left.1 < right.1 := by
  induction entries with
  | nil => exact List.pairwise_singleton _ _
  | cons head rest ih =>
      obtain ⟨hhead, hrest⟩ := List.pairwise_cons.mp h
      simp only [insertEntry]
      split
      · rename_i hlt
        refine List.pairwise_cons.mpr ⟨fun entry hentry => ?_, h⟩
        rcases List.mem_cons.mp hentry with rfl | hmem
        · exact hlt
        · exact lt_trans hlt (hhead entry hmem)
      · rename_i hnlt
        split
        · rename_i heq
          exact List.pairwise_cons.mpr ⟨fun entry hentry => heq ▸ hhead entry hentry, hrest⟩
        · rename_i hne
          refine List.pairwise_cons.mpr ⟨fun entry hentry => ?_, ih hrest⟩
          rcases mem_insertEntry hentry with rfl | hmem
          · exact lt_of_le_of_ne (not_lt.mp hnlt) (Ne.symm hne)
          · exact hhead entry hmem

theorem lookupEntry_insertEntry (key other : κ) (value : ν) (entries : List (κ × ν)) :
    lookupEntry other (insertEntry key value entries) =
      if key = other then some value else lookupEntry other entries := by
  induction entries with
  | nil => rfl
  | cons head rest ih =>
      simp only [insertEntry]
      split
      · rfl
      · split
        · rename_i heq
          by_cases hkey : key = other
          · simp [lookupEntry, hkey]
          · have hhead : head.1 ≠ other := fun h => hkey (heq.trans h)
            simp [lookupEntry, hkey, hhead]
        · rename_i hne
          by_cases hhead : head.1 = other
          · have hkey : key ≠ other := fun h => hne (h.trans hhead.symm)
            simp [lookupEntry, hhead, hkey]
          · simp only [lookupEntry, hhead, if_false]
            exact ih

/-! ## Maps -/

def empty : SortedMap κ ν := ⟨[], List.Pairwise.nil⟩

instance : Inhabited (SortedMap κ ν) := ⟨empty⟩

def find? (map : SortedMap κ ν) (key : κ) : Option ν := lookupEntry key map.entries

def contains (map : SortedMap κ ν) (key : κ) : Bool := (map.find? key).isSome

/-- Assignment through the key: an entry under it is overwritten. -/
def insert (map : SortedMap κ ν) (key : κ) (value : ν) : SortedMap κ ν :=
  ⟨insertEntry key value map.entries, sorted_insertEntry key value map.sorted⟩

/-- Insertion of a new entry: one that is there already stays. -/
def insertNew (map : SortedMap κ ν) (key : κ) (value : ν) : SortedMap κ ν :=
  if map.contains key then map else map.insert key value

def erase (map : SortedMap κ ν) (key : κ) : SortedMap κ ν :=
  ⟨map.entries.filter fun entry => entry.1 ≠ key, map.sorted.filter _⟩

/-- Change every value in place. -/
def mapValues (f : κ → ν → ν) (map : SortedMap κ ν) : SortedMap κ ν where
  entries := map.entries.map fun entry => (entry.1, f entry.1 entry.2)
  sorted := List.pairwise_map.mpr map.sorted

@[simp]
theorem find?_empty (key : κ) : (empty : SortedMap κ ν).find? key = none := rfl

theorem find?_insert (map : SortedMap κ ν) (key other : κ) (value : ν) :
    (map.insert key value).find? other = if key = other then some value else map.find? other :=
  lookupEntry_insertEntry key other value map.entries

@[simp]
theorem find?_insert_self (map : SortedMap κ ν) (key : κ) (value : ν) :
    (map.insert key value).find? key = some value := by
  rw [find?_insert, if_pos rfl]

theorem find?_insert_of_ne (map : SortedMap κ ν) {key other : κ} (value : ν)
    (h : key ≠ other) : (map.insert key value).find? other = map.find? other := by
  rw [find?_insert, if_neg h]

theorem lookupEntry_filter_of_ne {key other : κ} (h : key ≠ other) (entries : List (κ × ν)) :
    lookupEntry other (entries.filter fun entry => entry.1 ≠ key) = lookupEntry other entries := by
  induction entries with
  | nil => rfl
  | cons head rest ih =>
      by_cases hhead : head.1 = key
      · have hne : head.1 ≠ other := fun heq => h (hhead.symm.trans heq)
        rw [List.filter_cons_of_neg (by simp [hhead]), ih, lookupEntry, if_neg hne]
      · rw [List.filter_cons_of_pos (by simp [hhead]), lookupEntry, lookupEntry, ih]

theorem lookupEntry_filter_self (key : κ) (entries : List (κ × ν)) :
    lookupEntry key (entries.filter fun entry => entry.1 ≠ key) = none := by
  induction entries with
  | nil => rfl
  | cons head rest ih =>
      by_cases hhead : head.1 = key
      · rw [List.filter_cons_of_neg (by simp [hhead]), ih]
      · rw [List.filter_cons_of_pos (by simp [hhead]), lookupEntry, if_neg hhead, ih]

theorem find?_erase (map : SortedMap κ ν) (key other : κ) :
    (map.erase key).find? other = if key = other then none else map.find? other := by
  by_cases hkey : key = other
  · rw [if_pos hkey, ← hkey]
    exact lookupEntry_filter_self key map.entries
  · rw [if_neg hkey]
    exact lookupEntry_filter_of_ne hkey map.entries

theorem find?_mapValues (f : κ → ν → ν) (map : SortedMap κ ν) (key : κ) :
    (map.mapValues f).find? key = (map.find? key).map (f key) := by
  obtain ⟨entries, _⟩ := map
  simp only [find?, mapValues]
  induction entries with
  | nil => rfl
  | cons head rest ih =>
      have hrest := ih (List.Pairwise.of_cons ‹_›)
      by_cases hkey : head.1 = key
      · simp [lookupEntry, hkey]
      · simpa only [List.map_cons, lookupEntry, hkey, if_false] using hrest

def keys (map : SortedMap κ ν) : List κ := map.entries.map Prod.fst

theorem mem_keys_iff_contains (map : SortedMap κ ν) (key : κ) :
    key ∈ map.keys ↔ map.contains key := by
  obtain ⟨entries, _⟩ := map
  simp only [keys, contains, find?]
  induction entries with
  | nil => simp [lookupEntry]
  | cons head rest ih =>
      have hrest := ih (List.Pairwise.of_cons ‹_›)
      by_cases hkey : head.1 = key
      · simp [lookupEntry, hkey]
      · simp only [List.map_cons, List.mem_cons, lookupEntry, hkey, if_false]
        rw [← hrest]
        exact or_iff_right fun h => hkey h.symm

theorem nodup_keys (map : SortedMap κ ν) : map.keys.Nodup := by
  rw [keys, List.nodup_iff_pairwise_ne, List.pairwise_map]
  exact map.sorted.imp fun h => h.ne

theorem contains_iff {map : SortedMap κ ν} {key : κ} :
    map.contains key ↔ ∃ value, map.find? key = some value :=
  Option.isSome_iff_exists

theorem contains_insert (map : SortedMap κ ν) (key other : κ) (value : ν) :
    (map.insert key value).contains other ↔ key = other ∨ map.contains other := by
  rw [contains, find?_insert]
  by_cases hkey : key = other
  · simp [hkey]
  · simp [hkey, contains]

theorem contains_erase (map : SortedMap κ ν) (key other : κ) :
    (map.erase key).contains other ↔ key ≠ other ∧ map.contains other := by
  rw [contains, find?_erase]
  by_cases hkey : key = other
  · simp [hkey]
  · simp [hkey, contains]

theorem mem_entries_iff (map : SortedMap κ ν) (key : κ) (value : ν) :
    (key, value) ∈ map.entries ↔ map.find? key = some value := by
  obtain ⟨entries, hsorted⟩ := map
  simp only [find?]
  induction entries with
  | nil => simp [lookupEntry]
  | cons head rest ih =>
      obtain ⟨hhead, hrest⟩ := List.pairwise_cons.mp hsorted
      by_cases hkey : head.1 = key
      · have hnone : (key, value) ∉ rest := fun hmem => (hhead _ hmem).ne hkey
        obtain ⟨first, second⟩ := head
        simp only at hkey
        simp [lookupEntry, hkey, hnone, eq_comm]
      · have hne : (key, value) ≠ head := fun heq => hkey (congrArg Prod.fst heq.symm)
        rw [List.mem_cons, or_iff_right hne, ih hrest, lookupEntry, if_neg hkey]

theorem contains_mapValues (f : κ → ν → ν) (map : SortedMap κ ν) (key : κ) :
    (map.mapValues f).contains key = map.contains key := by
  rw [contains, find?_mapValues, Option.isSome_map, contains]

theorem find?_insertNew (map : SortedMap κ ν) (key other : κ) (value : ν) :
    (map.insertNew key value).find? other =
      if key = other ∧ map.contains key = false then some value else map.find? other := by
  rw [insertNew]
  by_cases hkey : map.contains key = true
  · rw [if_pos hkey, if_neg (by simp [hkey])]
  · rw [if_neg hkey, find?_insert]
    simp only [Bool.not_eq_true] at hkey
    simp only [hkey, and_true]

theorem contains_insertNew (map : SortedMap κ ν) (key other : κ) (value : ν) :
    (map.insertNew key value).contains other ↔ key = other ∨ map.contains other := by
  rw [contains, find?_insertNew]
  by_cases hkey : key = other
  · cases hother : map.contains other with
    | true =>
        rw [if_neg (by rw [hkey, hother]; simp), ← contains, hother]
        simp
    | false => simp [hkey, hother]
  · simp [hkey, contains]

theorem nodup_entries (map : SortedMap κ ν) : map.entries.Nodup :=
  map.sorted.imp fun hlt heq => hlt.ne (congrArg Prod.fst heq)

theorem eq_of_entries {left right : SortedMap κ ν} (h : left.entries = right.entries) :
    left = right := by
  cases left
  cases right
  simpa using h

/-- Maps with the same values under the same keys are equal. -/
theorem eq_of_find? {left right : SortedMap κ ν}
    (h : ∀ key, left.find? key = right.find? key) : left = right := by
  have hmem : ∀ entry, entry ∈ left.entries ↔ entry ∈ right.entries := by
    intro entry
    rw [mem_entries_iff left entry.1 entry.2, mem_entries_iff right entry.1 entry.2, h]
  have hperm : left.entries.Perm right.entries :=
    (List.perm_ext_iff_of_nodup left.nodup_entries right.nodup_entries).mpr hmem
  exact eq_of_entries (hperm.eq_of_pairwise
    (fun _ _ _ _ hlt hgt => absurd hgt (not_lt_of_gt hlt)) left.sorted right.sorted)

/-- A key above all others comes last. -/
theorem insertEntry_of_forall_lt {key : κ} (value : ν) {entries : List (κ × ν)}
    (h : ∀ entry ∈ entries, entry.1 < key) :
    insertEntry key value entries = entries ++ [(key, value)] := by
  induction entries with
  | nil => rfl
  | cons head rest ih =>
      have hhead : head.1 < key := h head List.mem_cons_self
      rw [insertEntry, if_neg (not_lt_of_gt hhead), if_neg hhead.ne',
        ih fun entry hentry => h entry (List.mem_cons_of_mem head hentry), List.cons_append]

/-- An entry above all others is appended. -/
theorem entries_insert_last {map : SortedMap κ ν} {entry : κ × ν}
    (hsorted : (map.entries ++ [entry]).Pairwise fun left right => left.1 < right.1) :
    (map.insert entry.1 entry.2).entries = map.entries ++ [entry] :=
  insertEntry_of_forall_lt entry.2 fun other hother =>
    (List.pairwise_append.mp hsorted).2.2 other hother entry List.mem_cons_self

theorem entries_foldl_insert (entries : List (κ × ν)) (map : SortedMap κ ν)
    (hsorted : (map.entries ++ entries).Pairwise fun left right => left.1 < right.1) :
    (entries.foldl (fun built entry => built.insert entry.1 entry.2) map).entries =
      map.entries ++ entries := by
  induction entries generalizing map with
  | nil => exact (List.append_nil _).symm
  | cons head rest ih =>
      have hlast : (map.insert head.1 head.2).entries = map.entries ++ [head] := by
        refine entries_insert_last (hsorted.sublist ?_)
        exact (List.Sublist.refl _).append (List.singleton_sublist.mpr List.mem_cons_self)
      have happend : (map.insert head.1 head.2).entries ++ rest = map.entries ++ head :: rest := by
        rw [hlast, List.append_assoc, List.singleton_append]
      rw [List.foldl_cons, ih (map.insert head.1 head.2) (happend ▸ hsorted), happend]

/-- Inserting the entries of a map one by one builds the map. -/
theorem foldl_insert_entries (map : SortedMap κ ν) :
    map.entries.foldl (fun built entry => built.insert entry.1 entry.2) empty = map := by
  refine eq_of_entries ?_
  rw [entries_foldl_insert map.entries empty map.sorted]
  exact List.nil_append _

theorem find?_eq_none {map : SortedMap κ ν} {key : κ}
    (h : ∀ entry ∈ map.entries, entry.1 ≠ key) : map.find? key = none := by
  cases hfind : map.find? key with
  | none => rfl
  | some value => exact absurd rfl (h (key, value) ((mem_entries_iff map key value).mpr hfind))

section FilterMapValues

variable {μ : Type*}

/-- Keep the values that have an image, under the same keys. -/
def filterMapValues (f : ν → Option μ) (map : SortedMap κ ν) : SortedMap κ μ where
  entries := map.entries.filterMap fun entry => (f entry.2).map fun value => (entry.1, value)
  sorted := by
    refine map.sorted.filterMap _ fun left right hlt leftImage hleft rightImage hright => ?_
    obtain ⟨_, _, rfl⟩ := Option.map_eq_some_iff.mp hleft
    obtain ⟨_, _, rfl⟩ := Option.map_eq_some_iff.mp hright
    exact hlt

theorem find?_filterMapValues (f : ν → Option μ) (map : SortedMap κ ν) (key : κ) :
    (map.filterMapValues f).find? key = (map.find? key).bind f := by
  refine Option.ext fun image => ?_
  rw [← mem_entries_iff, filterMapValues, List.mem_filterMap, Option.bind_eq_some_iff]
  constructor
  · rintro ⟨⟨_, value⟩, hmem, himage⟩
    obtain ⟨_, hvalue, heq⟩ := Option.map_eq_some_iff.mp himage
    obtain ⟨rfl, rfl⟩ := Prod.mk.inj heq
    exact ⟨value, (mem_entries_iff map _ value).mp hmem, hvalue⟩
  · rintro ⟨value, hfind, hvalue⟩
    exact ⟨(key, value), (mem_entries_iff map key value).mpr hfind, by rw [hvalue]; rfl⟩

theorem filterMapValues_eq_iff (f g : ν → Option μ) (map : SortedMap κ ν) :
    map.filterMapValues f = map.filterMapValues g ↔
      ∀ entry ∈ map.entries, f entry.2 = g entry.2 := by
  constructor
  · intro heq entry hentry
    have hfind : map.find? entry.1 = some entry.2 := (mem_entries_iff map _ _).mp hentry
    have himages := congrArg (fun image => image.find? entry.1) heq
    simpa only [find?_filterMapValues, hfind, Option.bind_some] using himages
  · intro hsame
    refine eq_of_find? fun key => ?_
    rw [find?_filterMapValues, find?_filterMapValues]
    cases hfind : map.find? key with
    | none => rfl
    | some value => exact hsame (key, value) ((mem_entries_iff map key value).mpr hfind)

/-- A loop that inserts the images of the values one by one. -/
theorem foldl_filterMapValues (f : ν → Option μ) (map : SortedMap κ ν) :
    map.entries.foldl (fun built entry => match f entry.2 with
      | some image => built.insert entry.1 image
      | none => built) empty = map.filterMapValues f := by
  rw [← foldl_insert_entries (map.filterMapValues f), filterMapValues, List.foldl_filterMap]
  congr 1
  funext built entry
  cases f entry.2 <;> rfl

end FilterMapValues

end SortedMap

end Hat
