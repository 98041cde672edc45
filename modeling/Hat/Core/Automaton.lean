import Mathlib.Data.List.Basic
import Mathlib.Logic.Relation

/-!
# Automata with output

A state of an automaton has a list of rows.  On an input the first row for it fires:
its outputs are emitted and a state of the name it gives is entered; without such a row
nothing happens.  Names need not be unique and need not name a state.  A component
follows the automaton when each of its steps is a move of it, and then each of its runs
is a run of it.
-/

namespace Hat

structure Row (ν ι ω : Type*) where
  on : ι
  emits : List ω
  goto : ν
  deriving DecidableEq

structure Automaton (σ ν ι ω : Type*) where
  rows : σ → List (Row ν ι ω)
  Named : σ → ν → Prop

namespace Automaton

variable {σ ν ι ω τ κ ο : Type*} [DecidableEq ι] (A : Automaton σ ν ι ω)

/-- The first row for an input. -/
def fires (state : σ) (input : ι) : Option (Row ν ι ω) :=
  (A.rows state).find? fun row => row.on = input

inductive Goes (state : σ) (input : ι) : σ → List ω → Prop
  | moves {row next} (hfires : A.fires state input = some row) (hnext : A.Named next row.goto) :
      Goes state input next row.emits
  | stays (hfires : A.fires state input = none) : Goes state input state []

inductive Runs : σ → List ι → σ → List (List ω) → Prop
  | nil (state) : Runs state [] state []
  | cons {state input next outputs rest final outputsRest}
      (hgoes : A.Goes state input next outputs) (hrest : Runs next rest final outputsRest) :
      Runs state (input :: rest) final (outputs :: outputsRest)

theorem isSome_fires_iff (state : σ) (input : ι) :
    (A.fires state input).isSome ↔ ∃ row ∈ A.rows state, row.on = input := by
  simp only [fires, List.find?_isSome, decide_eq_true_eq]

section Unique

variable (hunique : ∀ name left right, A.Named left name → A.Named right name → left = right)

include hunique

/-- Unique names leave no choice to a move. -/
theorem Goes.unique {state next other : σ} {input : ι} {outputs others : List ω}
    (hgoes : A.Goes state input next outputs) (hother : A.Goes state input other others) :
    other = next ∧ others = outputs := by
  cases hgoes with
  | moves hfires hnext =>
      cases hother with
      | moves hfires' hnext' =>
          rw [hfires, Option.some.injEq] at hfires'
          subst hfires'
          exact ⟨hunique _ _ _ hnext' hnext, rfl⟩
      | stays hfires' => exact absurd (hfires.symm.trans hfires') (Option.some_ne_none _)
  | stays hfires =>
      cases hother with
      | moves hfires' _ => exact absurd (hfires'.symm.trans hfires) (Option.some_ne_none _)
      | stays _ => exact ⟨rfl, rfl⟩

theorem Runs.unique {state final other : σ} {inputs : List ι} {outputs others : List (List ω)}
    (hruns : A.Runs state inputs final outputs) (hother : A.Runs state inputs other others) :
    other = final ∧ others = outputs := by
  induction hruns generalizing other others with
  | nil =>
      cases hother with
      | nil => exact ⟨rfl, rfl⟩
  | cons hgoes _ ih =>
      cases hother with
      | cons hgoes' hrest' =>
          obtain ⟨rfl, rfl⟩ := Goes.unique A hunique hgoes hgoes'
          obtain ⟨rfl, rfl⟩ := ih hrest'
          exact ⟨rfl, rfl⟩

end Unique

/-- The run of a component that answers each input with an output, as long as its
steps are defined. -/
def produce (step : τ → κ → Option (τ × ο)) : τ → List κ → Option (τ × List ο)
  | state, [] => some (state, [])
  | state, input :: rest =>
      (step state input).bind fun next =>
        (produce step next.1 rest).map fun final => (final.1, next.2 :: final.2)

variable {step : τ → κ → Option (τ × ο)} (place : τ → σ) (read : κ → ι) (shows : ο → List ω)

theorem produce_cons_eq_some {state final : τ} {input : κ} {rest : List κ} {outputs : List ο} :
    produce step state (input :: rest) = some (final, outputs) ↔
      ∃ next output outputsRest, step state input = some (next, output) ∧
        produce step next rest = some (final, outputsRest) ∧ outputs = output :: outputsRest := by
  rw [produce, Option.bind_eq_some_iff]
  constructor
  · rintro ⟨⟨next, output⟩, hstep, hrest⟩
    rw [Option.map_eq_some_iff] at hrest
    obtain ⟨⟨final', outputsRest⟩, hproduce, heq⟩ := hrest
    obtain ⟨rfl, rfl⟩ := Prod.mk.injEq .. ▸ heq
    exact ⟨next, output, outputsRest, hstep, hproduce, rfl⟩
  · rintro ⟨next, output, outputsRest, hstep, hproduce, rfl⟩
    exact ⟨(next, output), hstep, by rw [hproduce, Option.map_some]⟩

/-- What the steps keep holds after every run, and where every step is a move of the
automaton every run is a run of it. -/
theorem produce_follows {I : τ → Prop}
    (hstep : ∀ state input, I state → ∃ next output, step state input = some (next, output) ∧
      I next ∧ A.Goes (place state) (read input) (place next) (shows output))
    (inputs : List κ) {state : τ} (hstate : I state) :
    ∃ final outputs, produce step state inputs = some (final, outputs) ∧ I final ∧
      A.Runs (place state) (inputs.map read) (place final) (outputs.map shows) := by
  induction inputs generalizing state with
  | nil => exact ⟨state, [], rfl, hstate, Runs.nil _⟩
  | cons input rest ih =>
      obtain ⟨next, output, hnext, hI, hgoes⟩ := hstep state input hstate
      obtain ⟨final, outputs, hproduce, hfinal, hruns⟩ := ih hI
      refine ⟨final, output :: outputs, ?_, hfinal, Runs.cons hgoes hruns⟩
      exact produce_cons_eq_some.mpr ⟨next, output, outputs, hnext, hproduce, rfl⟩

end Automaton

end Hat
