import Mathlib.Data.List.Count
import Mathlib.Data.List.Pairwise
import Mathlib.Data.List.Perm.Basic
import Mathlib.Order.Lattice

/-!
# Circular intervals

An interval on a circle may run over the origin, when its start does not lie before its
end.  A test that takes it for an interval of the line differs from it then.
-/

namespace Hat

variable {α : Type*} [LinearOrder α]

/-- Both ends belong to the interval; from a point to itself it is the whole circle. -/
def CircularlyBetween (start stop x : α) : Prop :=
  if start < stop then start ≤ x ∧ x ≤ stop else start ≤ x ∨ x ≤ stop

instance (start stop x : α) : Decidable (CircularlyBetween start stop x) :=
  inferInstanceAs (Decidable (if start < stop then _ else _))

theorem circularlyBetween_of_lt {start stop : α} (hlt : start < stop) (x : α) :
    CircularlyBetween start stop x ↔ start ≤ x ∧ x ≤ stop := by
  rw [CircularlyBetween, if_pos hlt]

theorem circularlyBetween_of_le {start stop : α} (hle : stop ≤ start) (x : α) :
    CircularlyBetween start stop x ↔ start ≤ x ∨ x ≤ stop := by
  rw [CircularlyBetween, if_neg (not_lt.mpr hle)]

/-- The interval of the line is that of the circle, or both miss the point, or it is the
only point of the one. -/
theorem between_iff_circularlyBetween_iff (start stop x : α) :
    ((start ≤ x ∧ x ≤ stop) ↔ CircularlyBetween start stop x) ↔
      start < stop ∨ (stop < x ∧ x < start) ∨ (x = start ∧ x = stop) := by
  by_cases hlt : start < stop
  · simp [circularlyBetween_of_lt hlt, hlt]
  have hle : stop ≤ start := not_lt.mp hlt
  rw [circularlyBetween_of_le hle, or_iff_right hlt]
  constructor
  · intro hsame
    by_cases hinside : start ≤ x ∨ x ≤ stop
    · obtain ⟨hstart, hstop⟩ := hsame.mpr hinside
      refine Or.inr ⟨?_, ?_⟩
      · exact le_antisymm (hstop.trans hle) hstart
      · exact le_antisymm hstop (hle.trans hstart)
    · rw [not_or, not_le, not_le] at hinside
      exact Or.inl ⟨hinside.2, hinside.1⟩
  · rintro (⟨hstop, hstart⟩ | ⟨hstart, hstop⟩)
    · simp [not_le.mpr hstop, not_le.mpr hstart]
    · simp [← hstart, ← hstop]

end Hat

/-!
# Partitions of a circle

Points of a circle that is cut open at an origin are in a linear order.  An arc contains its
start and not its stop, and it may run over the origin.  The arcs from each of finitely many
points to the next one, and from the last back to the first, contain every point once.
-/

namespace Hat

variable {α : Type*} [LinearOrder α]

/-- From a point to itself the arc is the whole circle. -/
def InArc (arc : α × α) (x : α) : Prop :=
  if arc.1 < arc.2 then arc.1 ≤ x ∧ x < arc.2 else arc.1 ≤ x ∨ x < arc.2

instance (arc : α × α) (x : α) : Decidable (InArc arc x) :=
  inferInstanceAs (Decidable (if arc.1 < arc.2 then _ else _))

theorem inArc_of_lt {start stop : α} (hlt : start < stop) (x : α) :
    InArc (start, stop) x ↔ start ≤ x ∧ x < stop := by
  rw [InArc, if_pos hlt]

theorem inArc_of_le {start stop : α} (hle : stop ≤ start) (x : α) :
    InArc (start, stop) x ↔ start ≤ x ∨ x < stop := by
  rw [InArc, if_neg (not_lt.mpr hle)]

theorem inArc_self_left (start stop : α) : InArc (start, stop) start := by
  rcases lt_or_ge start stop with hlt | hle
  · exact (inArc_of_lt hlt start).mpr ⟨le_refl start, hlt⟩
  · exact (inArc_of_le hle start).mpr (Or.inl (le_refl start))

/-- The arcs from `point` over the points behind it, and back to the first point. -/
def arcsFrom (first : α) : α → List α → List (α × α)
  | point, [] => [(point, first)]
  | point, next :: rest => (point, next) :: arcsFrom first next rest

/-- The arcs between the points of a circle, listed in any order. -/
def PartitionsCircle (arcs : List (α × α)) : Prop :=
  ∃ first rest, (first :: rest).Pairwise (fun earlier later => earlier < later) ∧
    (arcsFrom first first rest).Perm arcs

theorem countP_arcsFrom {first point : α} {rest : List α} (hfirst : first ≤ point)
    (hincreasing : (point :: rest).Pairwise fun earlier later => earlier < later) (x : α) :
    (arcsFrom first point rest).countP (fun arc => InArc arc x) =
      if point ≤ x ∨ x < first then 1 else 0 := by
  induction rest generalizing point with
  | nil =>
      rw [arcsFrom, List.countP_singleton]
      simp only [inArc_of_le hfirst, decide_eq_true_eq]
  | cons next rest ih =>
      have hnext : point < next := List.rel_of_pairwise_cons hincreasing List.mem_cons_self
      rw [arcsFrom, List.countP_cons, ih (hfirst.trans hnext.le) hincreasing.of_cons]
      simp only [inArc_of_lt hnext, decide_eq_true_eq]
      -- Before the first point, between it and `point`, in the arc, or from `next` on.
      rcases lt_or_ge x first with hx | hx
      · rw [if_pos (Or.inr hx), if_pos (Or.inr hx), if_neg]
        exact fun hboth => absurd (hfirst.trans hboth.1) (not_le.mpr hx)
      rcases lt_or_ge x point with hpoint | hpoint
      · rw [if_neg, if_neg, if_neg]
        · exact not_or.mpr ⟨not_le.mpr hpoint, not_lt.mpr hx⟩
        · exact fun hboth => absurd hboth.1 (not_le.mpr hpoint)
        · exact not_or.mpr ⟨not_le.mpr (hpoint.trans hnext), not_lt.mpr hx⟩
      rcases lt_or_ge x next with hin | hin
      · rw [if_neg, if_pos ⟨hpoint, hin⟩, if_pos (Or.inl hpoint)]
        exact not_or.mpr ⟨not_le.mpr hin, not_lt.mpr hx⟩
      · rw [if_pos (Or.inl hin), if_neg, if_pos (Or.inl hpoint)]
        exact fun hboth => absurd hboth.2 (not_lt.mpr hin)

namespace PartitionsCircle

variable {arcs : List (α × α)}

/-- Every point of the circle is in one arc. -/
theorem countP_eq_one (h : PartitionsCircle arcs) (x : α) :
    arcs.countP (fun arc => InArc arc x) = 1 := by
  obtain ⟨first, rest, hincreasing, hperm⟩ := h
  rw [← hperm.countP_eq, countP_arcsFrom (le_refl first) hincreasing, if_pos]
  exact le_or_gt first x

theorem eq_of_inArc (h : PartitionsCircle arcs) {arc other : α × α} (harc : arc ∈ arcs)
    (hother : other ∈ arcs) {x : α} (hx : InArc arc x) (hx' : InArc other x) : arc = other := by
  have hlength := h.countP_eq_one x
  rw [List.countP_eq_length_filter] at hlength
  obtain ⟨only, honly⟩ := List.length_eq_one_iff.mp hlength
  have hmem : ∀ held ∈ arcs, InArc held x → held = only := by
    intro held hheld hin
    have hfilter : held ∈ arcs.filter fun arc => InArc arc x :=
      List.mem_filter.mpr ⟨hheld, decide_eq_true hin⟩
    rw [honly] at hfilter
    exact List.mem_singleton.mp hfilter
  exact (hmem arc harc hx).trans (hmem other hother hx').symm

/-- Every arc stops where another one, or it itself, starts. -/
theorem exists_fst_eq_snd (h : PartitionsCircle arcs) {arc : α × α} (harc : arc ∈ arcs) :
    ∃ next ∈ arcs, next.1 = arc.2 := by
  obtain ⟨first, rest, -, hperm⟩ := h
  have hchain : ∀ point others, ∀ arc ∈ arcsFrom first point others,
      arc.2 = first ∨ ∃ next ∈ arcsFrom first point others, next.1 = arc.2 := by
    intro point others
    induction others generalizing point with
    | nil =>
        intro arc harc
        rw [List.mem_singleton.mp harc]
        exact Or.inl rfl
    | cons next others ih =>
        intro arc harc
        rcases List.mem_cons.mp harc with rfl | harc
        · cases others with
          | nil =>
              exact Or.inr ⟨(next, first), List.mem_cons_of_mem _ List.mem_cons_self, rfl⟩
          | cons second others =>
              exact Or.inr ⟨(next, second), List.mem_cons_of_mem _ List.mem_cons_self, rfl⟩
        · rcases ih next arc harc with hfirst | ⟨following, hfollowing, heq⟩
          · exact Or.inl hfirst
          · exact Or.inr ⟨following, List.mem_cons_of_mem _ hfollowing, heq⟩
  rcases hchain first rest arc (hperm.mem_iff.mpr harc) with hfirst | ⟨next, hnext, heq⟩
  · cases rest with
    | nil =>
        exact ⟨(first, first), hperm.mem_iff.mp List.mem_cons_self, hfirst.symm⟩
    | cons second rest =>
        exact ⟨(first, second), hperm.mem_iff.mp List.mem_cons_self, hfirst.symm⟩
  · exact ⟨next, hperm.mem_iff.mp hnext, heq⟩

end PartitionsCircle

end Hat
