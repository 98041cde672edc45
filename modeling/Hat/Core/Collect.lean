import Mathlib.Data.List.Basic

/-!
# Loops that collect

A loop appends what each step gives to its result, and fails with the first step that fails.
What it gives are the items that pass a test; two tests give the same result only if they
agree on every item, as soon as one of them can be read off what is collected.
-/

namespace Hat

variable {α β γ : Type*}

/-- A loop that fails with no item. -/
theorem mapM_eq_map {f : α → Option β} {g : α → β} {items : List α}
    (hsome : ∀ item ∈ items, f item = some (g item)) : items.mapM f = some (items.map g) := by
  induction items with
  | nil => rfl
  | cons item rest ih =>
      rw [List.mapM_cons, hsome item List.mem_cons_self,
        ih fun other hother => hsome other (List.mem_cons_of_mem item hother)]
      rfl

def collect (step : α → Option (List β)) : List α → Option (List β)
  | [] => some []
  | item :: rest =>
      (step item).bind fun first => (collect step rest).map fun more => first ++ more

section Steps

variable {step : α → Option (List β)}

theorem collect_cons_of_some {item : α} {first : List β} (hitem : step item = some first)
    (rest : List α) :
    collect step (item :: rest) = (collect step rest).map fun more => first ++ more := by
  rw [collect, hitem, Option.bind_some]

theorem collect_append (left right : List α) :
    collect step (left ++ right) =
      (collect step left).bind fun first => (collect step right).map fun more => first ++ more := by
  induction left with
  | nil => simp [collect]
  | cons item rest ih =>
      rw [List.cons_append, collect, collect, ih]
      cases step item with
      | none => rfl
      | some first =>
          cases collect step rest with
          | none => rfl
          | some more =>
              cases collect step right with
              | none => rfl
              | some last => simp

theorem collect_map (f : γ → α) (items : List γ) :
    collect step (items.map f) = collect (fun item => step (f item)) items := by
  induction items with
  | nil => rfl
  | cons item rest ih => rw [List.map_cons, collect, collect, ih]

/-- A loop that comes to its end has collected what its steps give. -/
theorem subset_of_collect {items : List α} {result : List β}
    (hcollect : collect step items = some result) {item : α} (hitem : item ∈ items)
    {part : List β} (hpart : step item = some part) : part ⊆ result := by
  induction items generalizing result with
  | nil => exact absurd hitem List.not_mem_nil
  | cons other rest ih =>
      obtain ⟨first, hfirst, hmore⟩ := Option.bind_eq_some_iff.mp hcollect
      obtain ⟨more, hrest, rfl⟩ := Option.map_eq_some_iff.mp hmore
      rcases List.mem_cons.mp hitem with rfl | hlater
      · rw [Option.some.inj (hpart.symm.trans hfirst)]
        exact List.subset_append_left first more
      · exact List.Subset.trans (ih hrest hlater) (List.subset_append_right first more)

/-- A loop whose steps do not fail. -/
theorem collect_eq_some {f : α → List β} {items : List α}
    (hsteps : ∀ item ∈ items, step item = some (f item)) :
    collect step items = some (items.flatMap f) := by
  induction items with
  | nil => rfl
  | cons item rest ih =>
      obtain ⟨hitem, hrest⟩ := List.forall_mem_cons.mp hsteps
      rw [collect_cons_of_some hitem, ih hrest, Option.map_some, List.flatMap_cons]

/-- Steps that give nothing can be left out. -/
theorem collect_filter {p : α → Bool} {items : List α}
    (hskip : ∀ item ∈ items, p item = false → step item = some []) :
    collect step (items.filter p) = collect step items := by
  induction items with
  | nil => rfl
  | cons item rest ih =>
      obtain ⟨hitem, hrest⟩ := List.forall_mem_cons.mp hskip
      cases hp : p item with
      | true => rw [List.filter_cons_of_pos hp, collect, collect, ih hrest]
      | false =>
          have hid : (fun more : List β => [] ++ more) = id := funext List.nil_append
          rw [List.filter_cons_of_neg (by simp [hp]), collect_cons_of_some (hitem hp), ih hrest,
            hid, Option.map_id, id]

/-- A loop fails exactly when one of its steps does. -/
theorem collect_isSome_iff (items : List α) :
    (collect step items).isSome ↔ ∀ item ∈ items, (step item).isSome := by
  induction items with
  | nil => exact iff_of_true rfl fun item hitem => absurd hitem List.not_mem_nil
  | cons item rest ih =>
      rw [List.forall_mem_cons, ← ih, collect]
      cases step item with
      | none => simp
      | some first => simp

/-- Where each step gives some of its own item, the result is part of the items. -/
theorem collect_subset {step : α → Option (List α)} {items : List α}
    (hstep : ∀ item ∈ items, ∀ part, step item = some part → part ⊆ [item]) {result : List α}
    (h : collect step items = some result) : result ⊆ items := by
  induction items generalizing result with
  | nil =>
      rw [← Option.some.inj h]
      exact List.Subset.refl _
  | cons item rest ih =>
      obtain ⟨hitem, hrest⟩ := List.forall_mem_cons.mp hstep
      rw [collect] at h
      obtain ⟨first, hfirst, htail⟩ := Option.bind_eq_some_iff.mp h
      obtain ⟨more, hmore, rfl⟩ := Option.map_eq_some_iff.mp htail
      intro b hb
      rcases List.mem_append.mp hb with hb | hb
      · rw [List.mem_singleton.mp (hitem first hfirst hb)]
        exact List.mem_cons_self
      · exact List.mem_cons_of_mem item (ih hrest hmore hb)

/-- One result contains the other in its order, and what it has besides is among the extra
elements. -/
def Grown (extra result grown : List β) : Prop :=
  result.Sublist grown ∧ ∀ b ∈ grown, b ∈ result ∨ b ∈ extra

theorem Grown.refl (extra result : List β) : Grown extra result result :=
  ⟨List.Sublist.refl result, fun _ hb => Or.inl hb⟩

theorem Grown.append {extra first first' more more' : List β} (hfirst : Grown extra first first')
    (hmore : Grown extra more more') : Grown extra (first ++ more) (first' ++ more') := by
  refine ⟨hfirst.1.append hmore.1, fun b hb => ?_⟩
  rw [List.mem_append]
  rcases List.mem_append.mp hb with hb | hb
  · exact (hfirst.2 b hb).imp_left Or.inl
  · exact (hmore.2 b hb).imp_left Or.inr

theorem Grown.insert {extra own : List β} (hown : own ⊆ extra) (first more : List β) :
    Grown extra (first ++ more) (first ++ (own ++ more)) := by
  refine ⟨(List.Sublist.refl first).append (List.sublist_append_right own more), fun b hb => ?_⟩
  rw [List.mem_append]
  rcases List.mem_append.mp hb with hfirst | hb
  · exact Or.inl (Or.inl hfirst)
  · rcases List.mem_append.mp hb with hb | hmore
    · exact Or.inr (hown hb)
    · exact Or.inl (Or.inr hmore)

/-- If every step's part grows, the result grows. -/
theorem collect_grown {next : α → Option (List β)} {extra : List β} {items : List α}
    (hsteps : ∀ item ∈ items, ∀ part, step item = some part →
      ∃ part', next item = some part' ∧ Grown extra part part') {result : List β}
    (h : collect step items = some result) :
    ∃ result', collect next items = some result' ∧ Grown extra result result' := by
  induction items generalizing result with
  | nil => exact ⟨result, h, Grown.refl extra result⟩
  | cons item rest ih =>
      obtain ⟨hitem, hrest⟩ := List.forall_mem_cons.mp hsteps
      rw [collect] at h
      obtain ⟨first, hfirst, htail⟩ := Option.bind_eq_some_iff.mp h
      obtain ⟨more, hmore, rfl⟩ := Option.map_eq_some_iff.mp htail
      obtain ⟨first', hfirst', hgrown⟩ := hitem first hfirst
      obtain ⟨more', hmore', hgrownMore⟩ := ih hrest hmore
      refine ⟨first' ++ more', ?_, hgrown.append hgrownMore⟩
      rw [collect_cons_of_some hfirst', hmore', Option.map_some]

end Steps

/-- Two selections are the same only if the tests agree, when what is wanted can be read off
the image. -/
theorem map_filter_eq_iff {f : α → β} {taken wanted : α → Bool} {items : List α}
    (hwanted : ∀ item ∈ items, ∀ other ∈ items, f item = f other → wanted item = wanted other) :
    (items.filter taken).map f = (items.filter wanted).map f ↔
      ∀ item ∈ items, taken item = wanted item := by
  constructor
  · intro heq
    have hsubset : ∀ item ∈ items, taken item = true → wanted item = true := by
      intro item hitem htaken
      have hmem : f item ∈ (items.filter wanted).map f := by
        rw [← heq]
        exact List.mem_map_of_mem (List.mem_filter.mpr ⟨hitem, htaken⟩)
      obtain ⟨other, hother, hf⟩ := List.mem_map.mp hmem
      obtain ⟨hotherMem, hotherWanted⟩ := List.mem_filter.mp hother
      rw [← hwanted other hotherMem item hitem hf]
      exact hotherWanted
    have hsublist : (items.filter taken).Sublist (items.filter wanted) := by
      have hboth : items.filter taken = (items.filter wanted).filter taken := by
        rw [List.filter_filter]
        refine List.filter_congr fun item hitem => ?_
        cases htaken : taken item with
        | false => rfl
        | true => rw [hsubset item hitem htaken, Bool.and_self]
      rw [hboth]
      exact List.filter_sublist
    have hlength : (items.filter taken).length = (items.filter wanted).length := by
      simpa using congrArg List.length heq
    have hsame := hsublist.eq_of_length hlength
    intro item hitem
    refine Bool.eq_iff_iff.mpr ⟨hsubset item hitem, fun hitemWanted => ?_⟩
    have hmem : item ∈ items.filter taken := by
      rw [hsame]
      exact List.mem_filter.mpr ⟨hitem, hitemWanted⟩
    exact (List.mem_filter.mp hmem).2
  · intro hagree
    rw [List.filter_congr hagree]

end Hat
