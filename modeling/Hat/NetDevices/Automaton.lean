import Hat.NetDevices.Configurator
import Mathlib.Data.List.GetD

/-!
# Cyclic devices

The automaton of a device decides from the status of the components what they are set to.
With the control table of a cyclic device each command ON leads to the next code of the Gray
code, so repeated commands change one component at a time, visit every state of the components
once, and are then back where they have started.
-/

namespace Hat

open Hat.Hsrv

namespace Automaton

def nextState (automaton : MParams) (currentState : String) : String :=
  automaton.getCategory currentState "control"

/-- What the components are set to. -/
def actions (automaton : MParams) (ty v status : String) : NameList :=
  if automaton.getCategory ty "trigger" = "" then []
  else
    let values := NameList.init [] v '+'
    if 1 < values.length then NameList.init [] v '+'
    else if values.length = 1 ∧ v = "ON" then
      NameList.init [] (automaton.getCategory status "control") '+'
    else if values.length = 1 ∧ v = "OFF" then
      (NameList.init [] status '+').map fun _ => "OFF"
    else []

end Automaton

namespace Device

/-- The status of the components in one text. -/
def status (component : List String) : String :=
  component.foldl (fun s st => (if s ≠ "" then s ++ "+" else s) ++ st) ""

/-- A command that all components obey: each takes the value that it is set to. -/
def obeyed (control : MParams) (mtype value : String) (component : List String) : List String :=
  let action := Automaton.actions control mtype value (status component)
  action ++ component.drop action.length

/-- The components of a device, each of which is off or on. -/
def IsState (N : ℕ) (component : List String) : Prop :=
  component.length = N ∧ ∀ st ∈ component, st = "OFF" ∨ st = "ON"

/-- The two codes differ in exactly one component. -/
def OneApart (N : ℕ) (left right : String) : Prop :=
  ∃ before after, IsState N before ∧ IsState N after ∧ GrayCode.DifferInOne before after ∧
    left = NameList.joined before '+' ∧ right = NameList.joined after '+'

/-- What the reader delivers from the control file of a cyclic device: the control table stands
between the attributes of the template, and messages of a type trigger the device. -/
structure Cyclic (N : ℕ) (mtype : String) (control : MParams) : Prop where
  attributes : ∃ before table after, Configurator.controlAttributes "cyclic" N = some table ∧
    control.attributes = before ++ table ++ after ∧
    ∀ attr ∈ before ++ after, attr.category ≠ "control"
  trigger : control.getCategory mtype "trigger" ≠ ""

variable {N : ℕ} {component : List String}

theorem mem_reflected_iff : component ∈ GrayCode.reflected "OFF" "ON" N ↔ IsState N component :=
  GrayCode.mem_reflected_iff "OFF" "ON" N component

/-- The names of the states can be read back from the text. -/
theorem IsState.full (h : IsState N component) :
    ∀ st ∈ component, st ≠ "" ∧ '+' ∉ st.toList := by
  intro st hst
  obtain rfl | rfl := h.2 st hst <;> decide

theorem IsState.ne_nil (h : IsState N component) (hN : 1 ≤ N) : component ≠ [] :=
  List.ne_nil_of_length_pos (by rw [h.1]; omega)

theorem foldl_status {component : List String} (hne : component ≠ []) {s : String}
    (hs : s ≠ "") :
    component.foldl (fun s st => (if s ≠ "" then s ++ "+" else s) ++ st) s =
      s ++ "+" ++ NameList.joined component '+' := by
  induction component generalizing s with
  | nil => exact absurd rfl hne
  | cons st rest ih =>
      rw [List.foldl_cons, if_pos hs]
      by_cases hrest : rest = []
      · rw [hrest, List.foldl_nil, NameList.joined_singleton]
      · have hmore : s ++ "+" ++ st ≠ "" := by
          intro hempty
          have hplus : ("+" : String) = "" :=
            (String.append_eq_empty_iff.mp (String.append_eq_empty_iff.mp hempty).1).2
          exact absurd hplus (by decide)
        rw [ih hrest hmore, NameList.joined_cons st hrest, ← String.append_assoc,
          ← String.append_assoc]
        rfl

/-- The loop of `status` puts a plus between the components. -/
theorem status_eq (hne : component ≠ []) (hfull : ∀ st ∈ component, st ≠ "") :
    status component = NameList.joined component '+' := by
  cases component with
  | nil => exact absurd rfl hne
  | cons st rest =>
      have hst := hfull st List.mem_cons_self
      rw [status, List.foldl_cons]
      simp only [ne_eq, not_true_eq_false, if_false, String.empty_append]
      by_cases hrest : rest = []
      · rw [hrest, List.foldl_nil, NameList.joined_singleton]
      · rw [foldl_status hrest hst, NameList.joined_cons st hrest]
        rfl

/-- The text of a state tells the state. -/
theorem IsState.joined_inj {left right : List String} (hN : 1 ≤ N) (hleft : IsState N left)
    (hright : IsState N right) (h : NameList.joined left '+' = NameList.joined right '+') :
    left = right := by
  rw [← NameList.init_joined (hleft.ne_nil hN) hleft.full [], h,
    NameList.init_joined (hright.ne_nil hN) hright.full []]

theorem nodup_texts (hN : 1 ≤ N) : (Configurator.texts N).Nodup := by
  refine (GrayCode.nodup_reflected "OFF" "ON" (by decide) N).map_on ?_
  intro left hleft right hright h
  exact IsState.joined_inj hN (mem_reflected_iff.mp hleft) (mem_reflected_iff.mp hright) h

theorem joined_ne_empty (hN : 1 ≤ N) (h : IsState N component) :
    NameList.joined component '+' ≠ "" := by
  intro hempty
  have hread := NameList.init_joined (h.ne_nil hN) h.full []
  rw [hempty, NameList.init, if_pos rfl] at hread
  exact h.ne_nil hN hread.symm

theorem getD_texts {i : ℕ} (hi : i < (GrayCode.reflected "OFF" "ON" N).length) :
    (Configurator.texts N).getD i "" =
      NameList.joined ((GrayCode.reflected "OFF" "ON" N).get ⟨i, hi⟩) '+' := by
  rw [Configurator.texts, List.getD_eq_getElem _ _ (by rwa [List.length_map]), List.getElem_map]
  rfl

theorem isState_get {i : ℕ} (hi : i < (GrayCode.reflected "OFF" "ON" N).length) :
    IsState N ((GrayCode.reflected "OFF" "ON" N).get ⟨i, hi⟩) :=
  mem_reflected_iff.mp (List.get_mem _ _)

/-- The control table leads from each code to the next one, and from the last to the first. -/
theorem Cyclic.nextState {mtype : String} {control : MParams} (h : Cyclic N mtype control)
    (hN : 1 ≤ N) (hint : 2 ^ N ≤ Configurator.intMax) {i : ℕ} (hi : i < 2 ^ N) :
    Automaton.nextState control ((Configurator.texts N).getD i "") =
      (Configurator.texts N).getD ((i + 1) % 2 ^ N) "" := by
  obtain ⟨before, table, after, htable, hattributes, hothers⟩ := h.attributes
  have hlength := Configurator.length_texts N
  have hgray : Configurator.generateGrayCode N [] = some (Configurator.texts N) :=
    Configurator.generateGrayCode_eq hN hint []
  rw [Configurator.controlAttributes, if_neg (by decide), if_pos rfl, hgray, Option.map_some,
    hlength, Option.some.injEq] at htable
  have hnext : (Configurator.graySuccessor (Configurator.texts N) i).value =
      (Configurator.texts N).getD ((i + 1) % 2 ^ N) "" := by
    rw [Configurator.graySuccessor, hlength]
    split
    · rw [Nat.mod_eq_of_lt (by omega)]
    · rw [show i + 1 = 2 ^ N by omega, Nat.mod_self]
  have hvalue : (Configurator.texts N).getD ((i + 1) % 2 ^ N) "" ≠ "" := by
    have hlt : (i + 1) % 2 ^ N < (GrayCode.reflected "OFF" "ON" N).length := by
      rw [GrayCode.length_reflected]
      exact Nat.mod_lt _ (Nat.two_pow_pos N)
    rw [getD_texts hlt]
    exact joined_ne_empty hN (isState_get hlt)
  have hread : MParams.getFromCategory ((Configurator.texts N).getD i "") "control" table =
      (Configurator.texts N).getD ((i + 1) % 2 ^ N) "" := by
    rw [← hnext] at hvalue ⊢
    have hmem : Configurator.graySuccessor (Configurator.texts N) i ∈ table := by
      rw [← htable]
      exact List.mem_map.mpr ⟨i, List.mem_range.mpr hi, rfl⟩
    refine MParams.getFromCategory_of_mem hmem hvalue fun other hother hname _ => ?_
    rw [← htable] at hother
    obtain ⟨j, hj, rfl⟩ := List.mem_map.mp hother
    -- The codes are all different, so no other attribute has the name.
    have hjlt : j < (Configurator.texts N).length := hlength ▸ List.mem_range.mp hj
    have hilt : i < (Configurator.texts N).length := hlength ▸ hi
    simp only [Configurator.graySuccessor, List.getD_eq_getElem _ _ hjlt,
      List.getD_eq_getElem _ _ hilt] at hname
    rw [(nodup_texts hN).getElem_inj_iff] at hname
    rw [hname]
  have hbefore : ∀ name, MParams.getFromCategory name "control" before = "" := fun name =>
    MParams.getFromCategory_of_category_ne name fun attr hattr =>
      hothers attr (List.mem_append_left _ hattr)
  rw [Automaton.nextState, MParams.getCategory, hattributes, MParams.getFromCategory_append,
    MParams.getFromCategory_append, if_pos (hbefore _), hread, if_neg hvalue]

/-- A command ON leads from each word of the Gray code to the next. -/
theorem Cyclic.cycles {mtype : String} {control : MParams} (h : Cyclic N mtype control)
    (hN : 1 ≤ N) (hint : 2 ^ N ≤ Configurator.intMax) :
    GrayCode.Cycles (obeyed control mtype "ON") (GrayCode.reflected "OFF" "ON" N) := by
  intro i hi
  have hpow := GrayCode.length_reflected "OFF" "ON" N
  have hstate := isState_get hi
  have hafter := Nat.mod_lt (i + 1) (Nat.zero_lt_of_lt hi)
  have hstatus : status ((GrayCode.reflected "OFF" "ON" N).get ⟨i, hi⟩) =
      (Configurator.texts N).getD i "" := by
    rw [status_eq (hstate.ne_nil hN) fun st hst => (hstate.full st hst).1, getD_texts]
  have hnext : control.getCategory ((Configurator.texts N).getD i "") "control" =
      NameList.joined ((GrayCode.reflected "OFF" "ON" N).get ⟨(i + 1) % _, hafter⟩) '+' := by
    have hstep := h.nextState hN hint (hpow ▸ hi)
    rw [← hpow, getD_texts hafter] at hstep
    exact hstep
  have hnew := isState_get hafter
  have haction : Automaton.actions control mtype "ON"
      (status ((GrayCode.reflected "OFF" "ON" N).get ⟨i, hi⟩)) =
        (GrayCode.reflected "OFF" "ON" N).get ⟨(i + 1) % _, hafter⟩ := by
    have hone : NameList.init [] "ON" '+' = ["ON"] := by decide
    rw [Automaton.actions, if_neg h.trigger]
    simp only [hone, List.length_singleton, lt_irrefl, if_false, true_and, if_true]
    rw [hstatus, hnext, NameList.init_joined (hnew.ne_nil hN) hnew.full]
  have hdrop : ((GrayCode.reflected "OFF" "ON" N).get ⟨i, hi⟩).drop
      ((GrayCode.reflected "OFF" "ON" N).get ⟨(i + 1) % _, hafter⟩).length = [] :=
    List.drop_eq_nil_of_le (by rw [hstate.1, hnew.1])
  rw [obeyed]
  simp only [haction, hdrop, List.append_nil]

/-- The codes of a cyclic device: as many as there are states, all different, and each apart
from the next in one component, the last from the first as well; and so, by repeated commands
ON, a cyclic device goes through all its states once and is then back. -/
theorem gray_cycle (hN : 1 ≤ N) (hint : 2 ^ N ≤ Configurator.intMax) :
    (∀ codes, ∃ new, Configurator.generateGrayCode N codes = some (codes ++ new) ∧
      new.length = 2 ^ N ∧ new.Nodup ∧
      (∀ code ∈ new, ∃ component, IsState N component ∧ code = NameList.joined component '+') ∧
      new.IsChain (OneApart N) ∧
      ∀ first ∈ new.head?, ∀ last ∈ new.getLast?, OneApart N last first) ∧
    ∀ mtype control, Cyclic N mtype control → ∀ start, IsState N start →
      (∀ target, IsState N target →
        ∃! k, k < 2 ^ N ∧ (obeyed control mtype "ON")^[k] start = target) ∧
      (obeyed control mtype "ON")^[2 ^ N] start = start := by
  constructor
  · intro codes
    have hword : ∀ component ∈ GrayCode.reflected "OFF" "ON" N, IsState N component :=
      fun component hmem => mem_reflected_iff.mp hmem
    refine ⟨Configurator.texts N, Configurator.generateGrayCode_eq hN hint codes,
      Configurator.length_texts N, nodup_texts hN, ?_, ?_, ?_⟩
    · intro code hcode
      obtain ⟨component, hmem, rfl⟩ := List.mem_map.mp hcode
      exact ⟨component, hword component hmem, rfl⟩
    · rw [Configurator.texts, List.isChain_map]
      refine (GrayCode.isChain_reflected "OFF" "ON" (by decide) N).imp_of_mem_imp ?_
      intro left right hleft hright hdiffer
      exact ⟨left, right, hword left hleft, hword right hright, hdiffer, rfl, rfl⟩
    · intro first hfirst last hlast
      rw [Configurator.texts, List.head?_map] at hfirst
      rw [Configurator.texts, List.getLast?_map] at hlast
      obtain ⟨left, hleft, rfl⟩ := Option.map_eq_some_iff.mp hfirst
      obtain ⟨right, hright, rfl⟩ := Option.map_eq_some_iff.mp hlast
      refine ⟨right, left, hword right (List.mem_of_getLast? hright),
        hword left (List.mem_of_head? hleft), ?_, rfl, rfl⟩
      obtain ⟨n, rfl⟩ := Nat.exists_eq_succ_of_ne_zero (by omega : N ≠ 0)
      exact GrayCode.differInOne_last_first "OFF" "ON" (by decide) n hleft hright
  · intro mtype control hcyclic start hstart
    have hcycles := hcyclic.cycles hN hint
    have hmem := mem_reflected_iff.mpr hstart
    rw [← GrayCode.length_reflected "OFF" "ON" N]
    refine ⟨fun target htarget => ?_, hcycles.returns hmem⟩
    exact hcycles.visits (GrayCode.nodup_reflected "OFF" "ON" (by decide) N) hmem
      (mem_reflected_iff.mpr htarget)

/-- The automaton of two lamps, from the template of the control file. -/
def lamps : MParams where
  ty := "control"
  attributes := [⟨"cmd", "trigger", "LI_lamps"⟩, ⟨"event", "trigger", "LS_door"⟩] ++
    (Configurator.controlAttributes "cyclic" 2).getD []
  path := none
  pathh := none

theorem cyclic_lamps : Cyclic 2 "cmd" lamps where
  attributes := by
    refine ⟨[⟨"cmd", "trigger", "LI_lamps"⟩, ⟨"event", "trigger", "LS_door"⟩],
      (Configurator.controlAttributes "cyclic" 2).getD [], [], by decide, ?_, by decide⟩
    rw [List.append_nil, lamps]
  trigger := by decide

theorem gray_cycle_lamps :
    Configurator.generateGrayCode 2 [] = some ["OFF+OFF", "OFF+ON", "ON+ON", "ON+OFF"] ∧
      (∃! k, k < 2 ^ 2 ∧ (obeyed lamps "cmd" "ON")^[k] ["OFF", "ON"] = ["ON", "OFF"]) ∧
      (obeyed lamps "cmd" "ON")^[2 ^ 2] ["OFF", "ON"] = ["OFF", "ON"] := by
  have hcycle := (gray_cycle (by decide : 1 ≤ 2) (by decide)).2 "cmd" lamps cyclic_lamps
    ["OFF", "ON"] ⟨rfl, by decide⟩
  exact ⟨by decide, hcycle.1 ["ON", "OFF"] ⟨rfl, by decide⟩, hcycle.2⟩

end Device

end Hat
