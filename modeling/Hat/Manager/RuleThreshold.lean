import Hat.Core.Quota
import Hat.Manager.RuleWindow
import Mathlib.Data.Finset.Dedup

/-!
# The thresholds of the enabling conditions

A rule file names conditions that must be active and conditions that must be inactive, each
list with a minimum of its own.  Reading the file stores the second minimum in the place of
the first.  Conditions that meet the minima are choices from two lists that may overlap, so
that the gate is compared with the file as quotas are.
-/

namespace Hat

open Hat.Hsrv

namespace Rule

def trueNames (params : MParams) : NameList :=
  NameList.init [] (params.get "enabling_true_condition") '+'

def falseNames (params : MParams) : NameList :=
  NameList.init [] (params.get "enabling_false_condition") '+'

/-- The minimum of a list, by default all the conditions that it names. -/
def minimumOf (env : Env) (names : NameList) (text : String) : ℤ :=
  if text = "" then names.dedup.length else a2int env text

/-- The conditions meet both minima, where a list that is empty asks for nothing. -/
structure Meets (env : Env) (params : MParams) (conditions : BooleanConditionSet) : Prop where
  active : trueNames params = [] ∨
    minimumOf env (trueNames params) (params.get "min_enabling_true_conditions") ≤
      countConditions true (trueNames params) conditions
  inactive : falseNames params = [] ∨
    minimumOf env (falseNames params) (params.get "min_enabling_false_conditions") ≤
      countConditions false (falseNames params) conditions

def DistinctNames (conditions : BooleanConditionSet) : Prop :=
  (conditions.map fun condition => condition.params.get "name").Nodup

/-- The two tests of `match` on the enabling conditions. -/
def conditionGate (env : Env) (given : Circumstances) (rule : Rule) (state : MatchState) :
    Except MatchState MatchState := do
  let state ← rule.trueGate given state
  rule.falseGate given (noteTcondition env.gettime state)

/-- Whatever the conditions are, the gate passes exactly when they meet the minima. -/
def PairsMinima (env : Env) (rule : Rule) : Prop :=
  ∀ conditions, DistinctNames conditions → ∀ (given : Circumstances) (state : MatchState),
    given.conditions = some conditions →
      ((rule.conditionGate env given state).isOk = true ↔ Meets env rule.params conditions)

theorem isOk_conditionGate (env : Env) (given : Circumstances) (rule : Rule) (state : MatchState) :
    (rule.conditionGate env given state).isOk = true ↔
      rule.TrueOpen given ∧ rule.FalseOpen given := by
  have hfalse : ∀ seen, (rule.falseGate given seen).isOk = true ↔ rule.FalseOpen given := by
    intro seen
    have hok := rule.falseGate_eq_ok given seen
    cases hgate : rule.falseGate given seen with
    | error failed => simpa [hgate, Except.isOk, Except.toBool] using hok seen
    | ok next => simpa [hgate, Except.isOk, Except.toBool] using ((hok next).mp hgate).1
  simp only [conditionGate, isOk_bind, trueGate_eq_ok, hfalse]
  constructor
  · rintro ⟨seen, ⟨htrue, _⟩, hopen⟩
    exact ⟨htrue, hopen⟩
  · rintro ⟨htrue, hopen⟩
    exact ⟨state, ⟨htrue, rfl⟩, hopen⟩

/-- A minimum as a quota; an empty list has none. -/
def quota (names : NameList) (minimum : ℤ) : ℕ := if names = [] then 0 else minimum.toNat

theorem quota_le_iff (names : NameList) (minimum : ℤ) (count : ℕ) :
    quota names minimum ≤ count ↔ names = [] ∨ minimum ≤ count := by
  rw [quota]
  split
  · rename_i hnil
    simp [hnil]
  · rename_i hnil
    rw [Int.toNat_le, or_iff_right hnil]

/-- The quotas that the file means. -/
def meant (env : Env) (params : MParams) : ℕ × ℕ :=
  (quota (trueNames params)
      (minimumOf env (trueNames params) (params.get "min_enabling_true_conditions")),
    quota (falseNames params)
      (minimumOf env (falseNames params) (params.get "min_enabling_false_conditions")))

/-- The quotas that the gate uses: with a second minimum it stands for the first, and what
`mine_f_cond` happens to hold stands for the second. -/
def used (env : Env) (unsetMin : ℤ) (params : MParams) : ℕ × ℕ :=
  if params.get "min_enabling_false_conditions" = "" then
    (quota (trueNames params)
        (if params.get "min_enabling_true_conditions" = "" then (trueNames params).length
          else a2int env (params.get "min_enabling_true_conditions")),
      quota (falseNames params) (falseNames params).length)
  else
    (quota (trueNames params) (a2int env (params.get "min_enabling_false_conditions")),
      quota (falseNames params) unsetMin)

/-- So many conditions named by the file can be active and inactive at once. -/
def CanMeet (params : MParams) (quota : ℕ × ℕ) : Prop :=
  Attainable (trueNames params).toFinset (falseNames params).toFinset quota

instance (params : MParams) : DecidablePred (CanMeet params) := fun quota =>
  inferInstanceAs (Decidable (Attainable _ _ quota))

/-- The quotas that are used are those that are meant, or neither can ever be met. -/
def MinimaPaired (env : Env) (unsetMin : ℤ) (params : MParams) : Prop :=
  used env unsetMin params = meant env params ∨
    (¬CanMeet params (used env unsetMin params) ∧ ¬CanMeet params (meant env params))

instance (env : Env) (unsetMin : ℤ) : DecidablePred (MinimaPaired env unsetMin) := fun _ =>
  inferInstanceAs (Decidable (_ ∨ _))

def counted (wanted : Bool) (names : NameList) (conditions : BooleanConditionSet) :
    BooleanConditionSet :=
  conditions.filter fun condition =>
    condition.isActive = wanted && names.member (condition.params.get "name")

def counts (params : MParams) (conditions : BooleanConditionSet) : ℕ × ℕ :=
  ((counted true (trueNames params) conditions).length,
    (counted false (falseNames params) conditions).length)

theorem meets_iff (env : Env) (params : MParams) (conditions : BooleanConditionSet) :
    Meets env params conditions ↔ meant env params ≤ counts params conditions := by
  rw [Prod.le_def]
  simp only [meant, counts, quota_le_iff]
  exact ⟨fun h => ⟨h.active, h.inactive⟩, fun h => ⟨h.1, h.2⟩⟩

def countedNames (wanted : Bool) (names : NameList) (conditions : BooleanConditionSet) :
    List String :=
  (counted wanted names conditions).map fun condition => condition.params.get "name"

theorem nodup_countedNames {conditions : BooleanConditionSet}
    (hdistinct : DistinctNames conditions) (wanted : Bool) (names : NameList) :
    (countedNames wanted names conditions).Nodup :=
  hdistinct.sublist (List.filter_sublist.map _)

theorem mem_countedNames {wanted : Bool} {names : NameList} {conditions : BooleanConditionSet}
    {name : String} (hname : name ∈ countedNames wanted names conditions) :
    name ∈ names ∧ ∃ condition ∈ conditions,
      condition.isActive = wanted ∧ condition.params.get "name" = name := by
  obtain ⟨condition, hcounted, rfl⟩ := List.mem_map.mp hname
  obtain ⟨hmem, hboth⟩ := List.mem_filter.mp hcounted
  rw [Bool.and_eq_true, decide_eq_true_iff] at hboth
  refine ⟨?_, condition, hmem, hboth.1, rfl⟩
  obtain ⟨listed, hlisted, hsame⟩ := List.any_eq_true.mp hboth.2
  rwa [← of_decide_eq_true hsame]

theorem canMeet_counts {conditions : BooleanConditionSet} (hdistinct : DistinctNames conditions)
    (params : MParams) : CanMeet params (counts params conditions) := by
  have hcard : ∀ wanted names, (countedNames wanted names conditions).toFinset.card =
      (counted wanted names conditions).length := by
    intro wanted names
    rw [List.toFinset_card_of_nodup (nodup_countedNames hdistinct wanted names), countedNames,
      List.length_map]
  rw [counts, ← hcard, ← hcard]
  apply attainable_of_disjoint
  · intro name hname
    exact List.mem_toFinset.mpr (mem_countedNames (List.mem_toFinset.mp hname)).1
  · intro name hname
    exact List.mem_toFinset.mpr (mem_countedNames (List.mem_toFinset.mp hname)).1
  · rw [Finset.disjoint_left]
    intro name hactive hinactive
    obtain ⟨_, first, hfirst, hon, hname⟩ := mem_countedNames (List.mem_toFinset.mp hactive)
    obtain ⟨_, second, hsecond, hoff, hsame⟩ := mem_countedNames (List.mem_toFinset.mp hinactive)
    have heq : first = second :=
      List.inj_on_of_nodup_map hdistinct hfirst hsecond (hname.trans hsame.symm)
    rw [heq, hoff] at hon
    exact Bool.false_ne_true hon

/-- A condition of that name in that state. -/
def namedCondition (active : Bool) (name : String) : BooleanCondition where
  params := ⟨"event", [⟨"name", "generic", name⟩], none, none⟩
  name := name
  value := if active then 1 else 0
  threshold := 0
  aliases := []
  lastTime := 0

theorem get_name_namedCondition (active : Bool) (name : String) :
    (namedCondition active name).params.get "name" = name := by
  by_cases hempty : name = "" <;>
    simp [namedCondition, MParams.get, MParams.getFrom, MParams.isGeneric, hempty]

theorem isActive_namedCondition (active : Bool) (name : String) :
    (namedCondition active name).isActive = active := by
  cases active <;> simp [namedCondition, BooleanCondition.isActive]

theorem map_name_namedCondition (active : Bool) (chosen : List String) :
    (chosen.map (namedCondition active)).map (fun condition => condition.params.get "name") =
      chosen := by
  rw [List.map_map]
  calc chosen.map ((fun condition => condition.params.get "name") ∘ namedCondition active)
    _ = chosen.map id := by
        congr 1
        funext name
        exact get_name_namedCondition active name
    _ = chosen := List.map_id chosen

theorem counted_append (wanted : Bool) (names : NameList) (first second : List BooleanCondition) :
    counted wanted names (first ++ second) =
      counted wanted names first ++ counted wanted names second :=
  List.filter_append first second

/-- Conditions in the wanted state with names of the list all count. -/
theorem counted_namedCondition (wanted : Bool) {names : NameList} {chosen : List String}
    (hchosen : ∀ name ∈ chosen, name ∈ names) :
    counted wanted names (chosen.map (namedCondition wanted)) =
      chosen.map (namedCondition wanted) := by
  rw [counted, List.filter_eq_self]
  intro condition hcondition
  obtain ⟨name, hname, rfl⟩ := List.mem_map.mp hcondition
  rw [isActive_namedCondition, get_name_namedCondition]
  simpa [NameList.member] using hchosen name hname

theorem counted_namedCondition_of_ne {wanted active : Bool} (hother : active ≠ wanted)
    (names : NameList) (chosen : List String) :
    counted wanted names (chosen.map (namedCondition active)) = [] := by
  rw [counted, List.filter_eq_nil_iff]
  intro condition hcondition
  obtain ⟨name, _, rfl⟩ := List.mem_map.mp hcondition
  simp [isActive_namedCondition, hother]

/-- Every quota that can be met is met by some conditions. -/
theorem exists_counts {params : MParams} {quota : ℕ × ℕ} (hquota : CanMeet params quota) :
    ∃ conditions, DistinctNames conditions ∧ counts params conditions = quota := by
  obtain ⟨on, hon, off, hoff, hdisjoint, honcard, hoffcard⟩ := exists_disjoint_of_attainable hquota
  have hactive : ∀ name ∈ on.toList, name ∈ trueNames params := by
    intro name hname
    exact List.mem_toFinset.mp (hon (Finset.mem_toList.mp hname))
  have hinactive : ∀ name ∈ off.toList, name ∈ falseNames params := by
    intro name hname
    exact List.mem_toFinset.mp (hoff (Finset.mem_toList.mp hname))
  refine ⟨on.toList.map (namedCondition true) ++ off.toList.map (namedCondition false), ?_, ?_⟩
  · rw [DistinctNames, List.map_append, map_name_namedCondition, map_name_namedCondition]
    apply List.Nodup.append on.nodup_toList off.nodup_toList
    intro name hfirst hsecond
    exact Finset.disjoint_left.mp hdisjoint (Finset.mem_toList.mp hfirst)
      (Finset.mem_toList.mp hsecond)
  · apply Prod.ext
    · dsimp only [counts]
      rw [counted_append, counted_namedCondition true hactive,
        counted_namedCondition_of_ne Bool.false_ne_true, List.append_nil, List.length_map,
        Finset.length_toList, honcard]
    · dsimp only [counts]
      rw [counted_append, counted_namedCondition_of_ne Bool.false_ne_true.symm,
        counted_namedCondition false hinactive, List.nil_append, List.length_map,
        Finset.length_toList, hoffcard]

/-! ## The gate after reading a file -/

theorem conditions_new (env : Env) (memory : RuleMemory) (unloaded : MParams) (nm : String) :
    (new env memory unloaded nm).enablingTrueCondition = [] ∧
      (new env memory unloaded nm).enablingFalseCondition = [] ∧
      (new env memory unloaded nm).mineFCond = memory.mineFCond := by
  obtain ⟨params, fromTime, toTime, midnight, _, hwindow⟩ :=
    (unset env memory unloaded nm).setStoredValidityTime_eq
  simp only [new, hwindow]
  exact ⟨rfl, rfl, rfl⟩

/-- After `init` the gate compares the counts with the quotas that are used. -/
theorem isOk_conditionGate_init (env : Env) {rule : Rule}
    (htrue : rule.enablingTrueCondition = []) (hfalse : rule.enablingFalseCondition = [])
    {given : Circumstances} {conditions : BooleanConditionSet}
    (hgiven : given.conditions = some conditions) (state : MatchState) :
    ((rule.init env).conditionGate env given state).isOk = true ↔
      used env rule.mineFCond rule.params ≤ counts rule.params conditions := by
  rw [isOk_conditionGate, Prod.le_def]
  have hopen : ∀ (names : NameList) (minimum : ℤ) (wanted : Bool),
      (∀ found, given.conditions = some found → 0 < names.length →
          minimum ≤ countConditions wanted names found) ↔
        quota names minimum ≤ (counted wanted names conditions).length := by
    intro names minimum wanted
    rw [quota_le_iff, hgiven]
    simp only [Option.some.injEq, forall_eq', List.length_pos_iff]
    exact Decidable.imp_iff_or_not.trans (by rw [not_not, or_comm]; rfl)
  have htrueOpen : (rule.init env).TrueOpen given ↔
      (used env rule.mineFCond rule.params).1 ≤ (counts rule.params conditions).1 := by
    simp only [TrueOpen, init, htrue, hopen, used, counts]
    split_ifs <;> rfl
  have hfalseOpen : (rule.init env).FalseOpen given ↔
      (used env rule.mineFCond rule.params).2 ≤ (counts rule.params conditions).2 := by
    simp only [FalseOpen, init, hfalse, hopen, used, counts]
    split_ifs <;> rfl
  rw [htrueOpen, hfalseOpen]

theorem pairsMinima_init (env : Env) {rule : Rule} (htrue : rule.enablingTrueCondition = [])
    (hfalse : rule.enablingFalseCondition = []) :
    PairsMinima env (rule.init env) ↔ MinimaPaired env rule.mineFCond rule.params := by
  have hmeets : ∀ conditions, Meets env (rule.init env).params conditions ↔
      meant env rule.params ≤ counts rule.params conditions := meets_iff env rule.params
  calc PairsMinima env (rule.init env)
    _ ↔ ∀ quota, CanMeet rule.params quota →
          (used env rule.mineFCond rule.params ≤ quota ↔ meant env rule.params ≤ quota) := by
        constructor
        · intro hpairs quota hquota
          obtain ⟨conditions, hdistinct, rfl⟩ := exists_counts hquota
          have hgate := hpairs conditions hdistinct ⟨[], true, [], some conditions⟩ rule.state rfl
          rwa [isOk_conditionGate_init env htrue hfalse rfl, hmeets] at hgate
        · intro hsame conditions hdistinct given state hgiven
          rw [isOk_conditionGate_init env htrue hfalse hgiven, hmeets]
          exact hsame _ (canMeet_counts hdistinct rule.params)
    _ ↔ MinimaPaired env rule.mineFCond rule.params :=
        forall_le_iff_le_iff (isLowerSet_attainable (trueNames rule.params).toFinset
          (falseNames rule.params).toFinset) (used env rule.mineFCond rule.params)
          (meant env rule.params)

/-- The gate is right for every set of conditions exactly when the quotas of the file end up
in their places, or cannot be met anyway. -/
theorem pairsMinima_iff (env now : Env) (memory : RuleMemory) (unloaded : MParams)
    (nm : String) :
    PairsMinima now ((new env memory unloaded nm).init now) ↔
      MinimaPaired now memory.mineFCond (new env memory unloaded nm).params := by
  obtain ⟨htrue, hfalse, hmin⟩ := conditions_new env memory unloaded nm
  rw [pairsMinima_init now htrue hfalse, hmin]

/-- A rule that asks for one of two active conditions and for both of two inactive ones. -/
def doorRule : MParams :=
  ⟨"rule", [], some ("rule", [⟨"enabling_true_condition", "generic", "dark+night"⟩,
    ⟨"enabling_false_condition", "generic", "home+guest"⟩,
    ⟨"min_enabling_true_conditions", "generic", "1"⟩,
    ⟨"min_enabling_false_conditions", "generic", "2"⟩]), none⟩

/-- It is dark, and nobody is there. -/
def darkAndEmpty : BooleanConditionSet :=
  [namedCondition true "dark", namedCondition false "home", namedCondition false "guest"]

/-- The second minimum is asked of the active conditions. -/
theorem not_pairsMinima_doorRule :
    ¬PairsMinima firstNight ((new firstNight ⟨0, false, false, false, 0⟩ doorRule "door").init
      firstNight) := by
  intro hpairs
  have hdistinct : DistinctNames darkAndEmpty := by
    show List.Nodup _
    decide +kernel
  have hgate := hpairs darkAndEmpty hdistinct ⟨[], true, [], some darkAndEmpty⟩
    (new firstNight ⟨0, false, false, false, 0⟩ doorRule "door").state rfl
  rw [meets_iff] at hgate
  exact absurd hgate (by decide +kernel)

end Rule

end Hat
