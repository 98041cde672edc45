import Hat.Manager.RuleEngine
import Mathlib.Data.List.Induction

/-!
# The status of the rules over runs of the engine

The status of a rule lives twice.  `match` tests a field that only the constructor
writes; the commands write an attribute, which the rules page shows.  This module
follows both through the loop and determines the runs in which they agree.
-/

namespace Hat

open Hat.Hsrv

namespace Rule

/-- What the status commands look at and change. -/
def face (rule : Rule) : (String × String) × Status × String :=
  ((rule.name, rule.aliasName), rule.status, rule.params.get "status")

theorem face_matchRule (env : Env) (given : Circumstances) (rule : Rule)
    (answer : List MMessage) : (rule.matchRule env given answer).2.1.face = rule.face := by
  simp only [matchRule]
  split <;> rfl

theorem face_cycleUpdate (env : Env) (rule : Rule) : (rule.cycleUpdate env).face = rule.face := by
  simp only [cycleUpdate]
  split
  · rfl
  · split
    · rfl
    · split <;> rfl

theorem get_status_window (params : MParams) (asfrom asto : String) :
    ((params.add "from" asfrom).add "to" asto).save.get "status" = params.get "status" := by
  rw [MParams.get_save, MParams.get_add_of_ne _ _ (by decide),
    MParams.get_add_of_ne _ _ (by decide)]

theorem face_setValidityTime (asfrom asto : String) (rule : Rule) :
    (rule.setValidityTime asfrom asto).2.face = rule.face := by
  simp only [setValidityTime]
  split
  · simp only [face, get_status_window]
  · rfl

theorem load_load (params : MParams) : params.load.load = params.load := by
  obtain ⟨ty, attributes, path, pathh⟩ := params
  cases pathh <;> cases path <;> rfl

theorem load_setValidityTime {rule : Rule} (hload : rule.params.load = rule.params)
    (asfrom asto : String) :
    (rule.setValidityTime asfrom asto).2.params.load =
      (rule.setValidityTime asfrom asto).2.params := by
  simp only [setValidityTime]
  split
  · rfl
  · exact hload

theorem load_setStoredValidityTime {rule : Rule} (hload : rule.params.load = rule.params) :
    rule.setStoredValidityTime.2.params.load = rule.setStoredValidityTime.2.params := by
  rw [setStoredValidityTime]
  exact load_setValidityTime hload _ _

theorem load_new (env : Env) (memory : RuleMemory) (unloaded : MParams) (nm : String) :
    (new env memory unloaded nm).params.load = (new env memory unloaded nm).params := by
  simp only [new]
  apply load_setStoredValidityTime
  exact load_load unloaded

theorem status_new (env : Env) (memory : RuleMemory) (unloaded : MParams) (nm : String) :
    (new env memory unloaded nm).params.get "status" = "ON" ↔
      (new env memory unloaded nm).status = .on := by
  simp only [new]
  split
  · rename_i hon
    exact ⟨fun _ => rfl, fun _ => hon⟩
  · rename_i hoff
    exact ⟨fun hon => absurd hon hoff, fun hon => nomatch hon⟩

/-- A rule that has just been loaded tests the status that its attribute tells. -/
theorem status_loaded (env : Env) (file : RuleFile) :
    ((Rule.new env file.memory file.params file.stem).load.init env).params.get "status" = "ON" ↔
      ((Rule.new env file.memory file.params file.stem).load.init env).status = .on := by
  simp only [init, load, load_new]
  exact status_new env file.memory file.params file.stem

end Rule

namespace RuleEngine

theorem face_next {turn : Turn} (hother : ¬IsStatusCommand turn.2) (engine : RuleEngine) :
    (engine.next turn).rule.rules.map Rule.face = engine.rule.rules.map Rule.face := by
  apply map_rules_next Rule.face
  · exact fun given rule answer => Rule.face_matchRule turn.1 given rule answer
  · exact fun rule asfrom asto => Rule.face_setValidityTime asfrom asto rule
  · exact fun _ rule => Rule.face_cycleUpdate turn.1 rule
  · exact fun hcommand => absurd hcommand hother

/-- Name and alias of every rule. -/
def names (engine : RuleEngine) : List (String × String) :=
  engine.rule.rules.map fun rule => (rule.name, rule.aliasName)

/-- The status that a message gives to the rule at a position. -/
def statusGiven (msg : MMessage) (names : List (String × String)) (index : ℕ) : Option String :=
  match branchOf msg with
  | .setrulemode =>
      if (msg.getString "status" = "ON" ∨ msg.getString "status" = "OFF") ∧
          names.findIdx? (fun named => named.1 = msg.getString "name" ∨
            named.2 = msg.getString "name") = some index then
        some (msg.getString "status")
      else none
  | .setrules =>
      names[index]?.bind fun named =>
        if msg.getString named.1 = "" then none else some (msg.getString named.1)
  | .resetrules => names[index]?.map fun _ => "ON"
  | _ => none

/-- What a turn does to one rule: the attribute takes the status it is given,
unless the rule has no such attribute; the tested status stays. -/
structure StatusStep (given : Option String) (before after : Rule) : Prop where
  names : (after.name, after.aliasName) = (before.name, before.aliasName)
  status : after.status = before.status
  kept : given = none → after.params.get "status" = before.params.get "status"
  set : ∀ status, given = some status → after.params.get "status" = status ∨
    (before.params.get "status" = "" ∧ after.params.get "status" = "")

theorem StatusStep.of_face {before after : Rule} (hface : after.face = before.face) :
    StatusStep none before after := by
  simp only [Rule.face, Prod.mk.injEq] at hface
  obtain ⟨⟨hname, halias⟩, hstatus, hget⟩ := hface
  exact ⟨by rw [hname, halias], hstatus, fun _ => hget, fun _ h => nomatch h⟩

theorem get_set_or_missing (params : MParams) {status : String} (hstatus : status ≠ "") :
    (params.set "status" status).save.get "status" = status ∨
      (params.get "status" = "" ∧ (params.set "status" status).save.get "status" = "") := by
  rw [MParams.get_save]
  by_cases hmissing : params.get "status" = ""
  · rcases MParams.get_set_cases params "status" hstatus with hset | hsame
    · exact Or.inl hset
    · exact Or.inr ⟨hmissing, by rw [hsame, hmissing]⟩
  · exact Or.inl (MParams.get_set_self params hstatus hmissing)

theorem statusStep_set (rule : Rule) {status : String} (hstatus : status ≠ "") :
    StatusStep (some status) rule
      { rule with params := (rule.params.set "status" status).save } := by
  refine ⟨rfl, rfl, (fun h => nomatch h), fun given hgiven => ?_⟩
  rw [← Option.some.inj hgiven]
  exact get_set_or_missing rule.params hstatus

theorem statusStep_setFromField (msg : MMessage) (rule : Rule) :
    StatusStep (if msg.getString rule.name = "" then none else some (msg.getString rule.name))
      rule { rule with params := setFromField msg rule.name rule.params } := by
  simp only [setFromField]
  split
  · exact StatusStep.of_face rfl
  · rename_i hvalue
    exact statusStep_set rule hvalue

theorem statusStep_setStatus (rule : Rule) {rstatus : String}
    (hrstatus : rstatus = "ON" ∨ rstatus = "OFF") :
    StatusStep (some rstatus) rule (rule.setStatus rstatus) := by
  refine ⟨rfl, rfl, (fun h => nomatch h), fun given hgiven => Or.inl ?_⟩
  rw [← Option.some.inj hgiven]
  rcases hrstatus with rfl | rfl
  · exact MParams.get_add_self rule.params "status" (by decide)
  · exact MParams.get_add_self rule.params "status" (by decide)

theorem getElem?_modifyNamed (name : String) (change : Rule → Rule) (rules : List Rule)
    (index : ℕ) :
    (RuleSet.modifyNamed name change rules)[index]? =
      if (rules.map fun rule => (rule.name, rule.aliasName)).findIdx?
          (fun named => named.1 = name ∨ named.2 = name) = some index
      then rules[index]?.map change else rules[index]? := by
  induction rules generalizing index with
  | nil => simp [RuleSet.modifyNamed]
  | cons rule rest ih =>
      simp only [RuleSet.modifyNamed, List.map_cons, List.findIdx?_cons]
      by_cases hnamed : rule.name = name ∨ rule.aliasName = name
      · cases index <;> simp [hnamed]
      · cases index with
        | zero => simp [hnamed]
        | succ index => simp [hnamed, ih index]

/-- What a turn does to all rules, given the status that each is given. -/
structure RulesStep (given : ℕ → Option String) (before after : List Rule) : Prop where
  length : after.length = before.length
  step : ∀ index rule, after[index]? = some rule →
    ∃ old, before[index]? = some old ∧ StatusStep (given index) old rule

theorem rulesStep_of_face {before after : List Rule}
    (hface : after.map Rule.face = before.map Rule.face) :
    RulesStep (fun _ => none) before after := by
  constructor
  · simpa using congrArg List.length hface
  intro index rule hrule
  have hlooked : (before.map Rule.face)[index]? = some rule.face := by
    rw [← hface, List.getElem?_map, hrule]
    rfl
  rw [List.getElem?_map, Option.map_eq_some_iff] at hlooked
  obtain ⟨old, hold, holdface⟩ := hlooked
  exact ⟨old, hold, StatusStep.of_face holdface.symm⟩

theorem rulesStep_map {given : ℕ → Option String} {change : Rule → Rule} {rules : List Rule}
    (hchange : ∀ index rule, rules[index]? = some rule →
      StatusStep (given index) rule (change rule)) :
    RulesStep given rules (rules.map change) := by
  constructor
  · exact List.length_map change
  intro index rule hrule
  rw [List.getElem?_map, Option.map_eq_some_iff] at hrule
  obtain ⟨old, hold, rfl⟩ := hrule
  exact ⟨old, hold, hchange index old hold⟩

theorem StatusStep.then_face {given : Option String} {before middle after : Rule}
    (h : StatusStep given before middle) (hface : after.face = middle.face) :
    StatusStep given before after := by
  simp only [Rule.face, Prod.mk.injEq] at hface
  obtain ⟨⟨hname, halias⟩, hstatus, hget⟩ := hface
  constructor
  · rw [hname, halias]
    exact h.names
  · exact hstatus.trans h.status
  · intro hgiven
    exact hget.trans (h.kept hgiven)
  · intro status hgiven
    rw [hget]
    exact h.set status hgiven

theorem RulesStep.then_face {given : ℕ → Option String} {before middle after : List Rule}
    (h : RulesStep given before middle) (hface : after.map Rule.face = middle.map Rule.face) :
    RulesStep given before after := by
  constructor
  · rw [← h.length]
    simpa using congrArg List.length hface
  intro index rule hrule
  have hlooked : (middle.map Rule.face)[index]? = some rule.face := by
    rw [← hface, List.getElem?_map, hrule]
    rfl
  rw [List.getElem?_map, Option.map_eq_some_iff] at hlooked
  obtain ⟨between, hbetween, hbetweenface⟩ := hlooked
  obtain ⟨old, hold, hstep⟩ := h.step index between hbetween
  exact ⟨old, hold, hstep.then_face hbetweenface.symm⟩

theorem RulesStep.map_eq {β : Type*} (look : Rule → β) {given : ℕ → Option String}
    {before after : List Rule} (h : RulesStep given before after)
    (hlook : ∀ given old rule, StatusStep given old rule → look rule = look old) :
    after.map look = before.map look := by
  apply List.ext_getElem?
  intro index
  rw [List.getElem?_map, List.getElem?_map]
  cases hafter : after[index]? with
  | none =>
      rw [List.getElem?_eq_none_iff, h.length, ← List.getElem?_eq_none_iff] at hafter
      rw [hafter]
  | some rule =>
      obtain ⟨old, hold, hstep⟩ := h.step index rule hafter
      rw [hold, Option.map_some, Option.map_some, hlook _ old rule hstep]

theorem rulesStep_setStatus {rstatus : String} (hrstatus : rstatus = "ON" ∨ rstatus = "OFF")
    (name : String) (rules : List Rule) :
    RulesStep (fun index =>
        if (rules.map fun rule => (rule.name, rule.aliasName)).findIdx?
            (fun named => named.1 = name ∨ named.2 = name) = some index then some rstatus
        else none)
      rules (RuleSet.modifyNamed name (Rule.setStatus rstatus) rules) := by
  constructor
  · have hlength : (RuleSet.modifyNamed name (Rule.setStatus rstatus) rules).map (fun _ => ()) =
        rules.map fun _ => () := RuleSet.map_modifyNamed (fun _ => ()) (fun _ => rfl) name rules
    simpa using congrArg List.length hlength
  intro index rule hrule
  rw [getElem?_modifyNamed] at hrule
  split at hrule
  · rename_i hfound
    obtain ⟨old, hold, rfl⟩ := Option.map_eq_some_iff.mp hrule
    refine ⟨old, hold, ?_⟩
    rw [if_pos hfound]
    exact statusStep_setStatus old hrstatus
  · rename_i hother
    refine ⟨rule, hrule, ?_⟩
    rw [if_neg hother]
    exact StatusStep.of_face rfl

theorem rulesStep_setrulemode {msg : MMessage} (hbranch : branchOf msg = .setrulemode)
    (engine : RuleEngine) :
    RulesStep (statusGiven msg engine.names) engine.rule.rules
      (engine.setrulemode msg).rule.rules := by
  have hset : RulesStep (statusGiven msg engine.names) engine.rule.rules
      (if msg.getString "status" = "ON" ∨ msg.getString "status" = "OFF"
        then engine.rule.setStatus (msg.getString "name") (msg.getString "status")
        else engine.rule).rules := by
    have hgiven : statusGiven msg engine.names = fun index =>
        if (msg.getString "status" = "ON" ∨ msg.getString "status" = "OFF") ∧
          engine.names.findIdx? (fun named => named.1 = msg.getString "name" ∨
            named.2 = msg.getString "name") = some index then some (msg.getString "status")
        else none := by
      funext index
      rw [statusGiven, hbranch]
    rw [hgiven]
    split
    · rename_i hrstatus
      simp only [hrstatus, true_and]
      exact rulesStep_setStatus hrstatus (msg.getString "name") engine.rule.rules
    · rename_i hrstatus
      simp only [hrstatus, false_and, if_false]
      exact rulesStep_of_face rfl
  simp only [setrulemode, makeRulePage]
  apply hset.then_face
  split
  · exact RuleSet.map_modifyNamed Rule.face (Rule.face_setValidityTime _ _) _ _
  · rfl

theorem rulesStep_setrules {msg : MMessage} (hbranch : branchOf msg = .setrules)
    (engine : RuleEngine) :
    RulesStep (statusGiven msg engine.names) engine.rule.rules
      (engine.mapRuleParams (setFromField msg)).rule.rules := by
  apply rulesStep_map
  intro index rule hrule
  have hgiven : statusGiven msg engine.names index =
      if msg.getString rule.name = "" then none else some (msg.getString rule.name) := by
    rw [statusGiven, hbranch]
    simp only [names, List.getElem?_map, hrule, Option.map_some, Option.bind_some]
  rw [hgiven]
  exact statusStep_setFromField msg rule

theorem rulesStep_resetrules {msg : MMessage} (hbranch : branchOf msg = .resetrules)
    (engine : RuleEngine) :
    RulesStep (statusGiven msg engine.names) engine.rule.rules
      (engine.mapRuleParams fun _ => resetStatus).rule.rules := by
  apply rulesStep_map
  intro index rule hrule
  have hgiven : statusGiven msg engine.names index = some "ON" := by
    rw [statusGiven, hbranch]
    simp only [names, List.getElem?_map, hrule, Option.map_some]
  rw [hgiven]
  exact statusStep_set rule (by decide)

theorem statusGiven_of_other {msg : MMessage} (hother : ¬IsStatusCommand msg)
    (names : List (String × String)) : statusGiven msg names = fun _ => none := by
  funext index
  simp only [statusGiven]
  cases hbranch : branchOf msg with
  | setrulemode => exact absurd (Or.inl hbranch) hother
  | setrules => exact absurd (Or.inr (Or.inl hbranch)) hother
  | resetrules => exact absurd (Or.inr (Or.inr hbranch)) hother
  | _ => rfl

/-- The step lemma for the status of the rules: every turn of the loop. -/
theorem rulesStep_next (engine : RuleEngine) (turn : Turn) :
    RulesStep (statusGiven turn.2 engine.names) engine.rule.rules
      (engine.next turn).rule.rules := by
  by_cases hcommand : IsStatusCommand turn.2
  · rcases hcommand with hbranch | hbranch | hbranch
    · simp only [next, doWork, hbranch]
      exact rulesStep_setrulemode hbranch engine
    · simp only [next, doWork, hbranch]
      exact rulesStep_setrules hbranch engine
    · simp only [next, doWork, hbranch]
      exact rulesStep_resetrules hbranch engine
  · rw [statusGiven_of_other hcommand]
    exact rulesStep_of_face (face_next hcommand engine)

theorem rulePage_eq_of_face {before after : List Rule}
    (hface : after.map Rule.face = before.map Rule.face) : rulePage after = rulePage before := by
  have hpage : ∀ rules : List Rule,
      rulePage rules = (rules.map Rule.face).map fun face => (face.1.1, face.2.2) := by
    intro rules
    rw [List.map_map]
    rfl
  rw [hpage, hpage, hface]

/-- The rules page shows the status attributes at any time. -/
theorem page_next {engine : RuleEngine} (hpage : engine.pages.rules = rulePage engine.rule.rules)
    (turn : Turn) :
    (engine.next turn).pages.rules = rulePage (engine.next turn).rule.rules := by
  by_cases hcommand : IsStatusCommand turn.2
  · rcases hcommand with hbranch | hbranch | hbranch
    all_goals
      simp only [next, doWork, hbranch]
      rfl
  · rw [page_rules_next hcommand, hpage, rulePage_eq_of_face (face_next hcommand engine)]

/-! ## Runs -/

/-- The status that the messages so far last gave to the rule at a position. -/
def lastSetting (names : List (String × String)) (turns : List Turn) (index : ℕ) :
    Option String :=
  turns.foldl (fun last turn => (statusGiven turn.2 names index).or last) none

/-- A rule last set to OFF contributes nothing to an answer, one last set to ON is
not blocked by its status, and the rules page shows the status that is tested. -/
structure StatusHonoured (engine : RuleEngine) (last : ℕ → Option String) : Prop where
  blocked : ∀ (index : ℕ) (rule : Rule), engine.rule.rules[index]? = some rule →
    last index = some "OFF" → ∀ env given answer, (rule.matchRule env given answer).2.2 = answer
  released : ∀ (index : ℕ) (rule : Rule), engine.rule.rules[index]? = some rule →
    last index = some "ON" → rule.status = .on
  published : ∀ (index : ℕ) (rule : Rule), engine.rule.rules[index]? = some rule →
    ∃ status, engine.pages.rules[index]? = some (rule.name, status) ∧
      (status = "ON" ↔ rule.status = .on)

/-- A message gives every rule that it addresses the status the rule has already. -/
def RepeatsStatus (engine : RuleEngine) (msg : MMessage) : Prop :=
  ∀ index rule status, engine.rule.rules[index]? = some rule →
    statusGiven msg engine.names index = some status → (status = "ON" ↔ rule.status = .on)

/-- What every run keeps, whatever its messages. -/
structure Tracked (start engine : RuleEngine) : Prop where
  names : engine.names = start.names
  status : engine.rule.rules.map Rule.status = start.rule.rules.map Rule.status
  page : engine.pages.rules = rulePage engine.rule.rules

/-- The attribute and the last command tell the status that is tested. -/
def Agree (engine : RuleEngine) (last : ℕ → Option String) : Prop :=
  ∀ index rule, engine.rule.rules[index]? = some rule →
    (rule.params.get "status" = "ON" ↔ rule.status = .on) ∧
      ∀ status, last index = some status → (status = "ON" ↔ rule.status = .on)

theorem run_concat (engine : RuleEngine) (sofar : List Turn) (turn : Turn) :
    engine.run (sofar ++ [turn]) = (engine.run sofar).next turn := by
  rw [run, List.foldl_append]
  rfl

theorem lastSetting_concat (names : List (String × String)) (sofar : List Turn) (turn : Turn) :
    lastSetting names (sofar ++ [turn]) =
      fun index => (statusGiven turn.2 names index).or (lastSetting names sofar index) := by
  funext index
  rw [lastSetting, List.foldl_append]
  rfl

theorem tracked_next {start engine : RuleEngine} (h : Tracked start engine) (turn : Turn) :
    Tracked start (engine.next turn) := by
  have hstep := rulesStep_next engine turn
  constructor
  · have hnames := hstep.map_eq (fun rule : Rule => (rule.name, rule.aliasName))
      fun _ _ _ hone => hone.names
    exact hnames.trans h.names
  · exact (hstep.map_eq Rule.status fun _ _ _ hone => hone.status).trans h.status
  · exact page_next h.page turn

theorem tracked_run {start : RuleEngine} (hpage : start.pages.rules = rulePage start.rule.rules)
    (turns : List Turn) : Tracked start (start.run turns) := by
  induction turns using List.reverseRecOn with
  | nil => exact ⟨rfl, rfl, hpage⟩
  | append_singleton sofar turn ih =>
      rw [run_concat]
      exact tracked_next ih turn

/-- The rule at a position has the status with which it started. -/
theorem Tracked.getElem? {start engine : RuleEngine} (h : Tracked start engine) {index : ℕ}
    {rule : Rule} (hrule : start.rule.rules[index]? = some rule) :
    ∃ now, engine.rule.rules[index]? = some now ∧ now.status = rule.status := by
  have hstatus : (engine.rule.rules.map Rule.status)[index]? = some rule.status := by
    rw [h.status, List.getElem?_map, hrule]
    rfl
  rwa [List.getElem?_map, Option.map_eq_some_iff] at hstatus

theorem Tracked.getElem?_start {start engine : RuleEngine} (h : Tracked start engine)
    {index : ℕ} {now : Rule} (hnow : engine.rule.rules[index]? = some now) :
    ∃ rule, start.rule.rules[index]? = some rule ∧ rule.status = now.status := by
  have hstatus : (start.rule.rules.map Rule.status)[index]? = some now.status := by
    rw [← h.status, List.getElem?_map, hnow]
    rfl
  rwa [List.getElem?_map, Option.map_eq_some_iff] at hstatus

theorem agree_next {start engine : RuleEngine} {last : ℕ → Option String}
    (htracked : Tracked start engine) (hagree : Agree engine last) {turn : Turn}
    (hrepeats : RepeatsStatus start turn.2) :
    Agree (engine.next turn)
      (fun index => (statusGiven turn.2 start.names index).or (last index)) := by
  intro index rule hrule
  obtain ⟨old, hold, hstep⟩ := (rulesStep_next engine turn).step index rule hrule
  obtain ⟨hattr, hlast⟩ := hagree index old hold
  obtain ⟨loaded, hloaded, hsame⟩ := htracked.getElem?_start hold
  rw [htracked.names] at hstep
  rw [hstep.status]
  cases hgiven : statusGiven turn.2 start.names index with
  | none =>
      rw [hstep.kept hgiven]
      refine ⟨hattr, fun status hstatus => hlast status ?_⟩
      simpa only [hgiven, Option.none_or] using hstatus
  | some status =>
      have hstatus : status = "ON" ↔ old.status = .on := by
        rw [← hsame]
        exact hrepeats index loaded status hloaded hgiven
      constructor
      · rcases hstep.set status hgiven with hset | ⟨hmissing, hunset⟩
        · rw [hset]
          exact hstatus
        · rw [hunset, ← hmissing]
          exact hattr
      · intro other hother
        simp only [hgiven, Option.some_or, Option.some.injEq] at hother
        rw [← hother]
        exact hstatus

theorem StatusHonoured.of_agree {engine : RuleEngine} {last : ℕ → Option String}
    (hpage : engine.pages.rules = rulePage engine.rule.rules) (hagree : Agree engine last) :
    StatusHonoured engine last := by
  constructor
  · intro index rule hrule hoff env given answer
    apply (Rule.matchRule_of_not_fires _ answer).2
    rw [Rule.fires_eq_decide_due, decide_eq_false_iff_not]
    intro hdue
    have hon := ((hagree index rule hrule).2 "OFF" hoff).mpr hdue.1.1
    exact absurd hon (by decide)
  · intro index rule hrule hon
    exact ((hagree index rule hrule).2 "ON" hon).mp rfl
  · intro index rule hrule
    refine ⟨rule.params.get "status", ?_, (hagree index rule hrule).1⟩
    rw [hpage, rulePage, List.getElem?_map, hrule]
    rfl

/-- Where the page shows the attributes, an honoured status is the attribute's. -/
theorem StatusHonoured.get_status {engine : RuleEngine} {last : ℕ → Option String}
    (h : StatusHonoured engine last) (hpage : engine.pages.rules = rulePage engine.rule.rules)
    {index : ℕ} {rule : Rule} (hrule : engine.rule.rules[index]? = some rule) :
    rule.params.get "status" = "ON" ↔ rule.status = .on := by
  obtain ⟨status, hshown, hstatus⟩ := h.published index rule hrule
  rw [hpage, rulePage, List.getElem?_map, hrule, Option.map_some, Option.some.injEq,
    Prod.mk.injEq] at hshown
  rw [hshown.2]
  exact hstatus

/-- A turn between two states in which the status is honoured repeats it. -/
theorem RepeatsStatus.of_honoured {start engine : RuleEngine} {last : ℕ → Option String}
    {turn : Turn} (htracked : Tracked start engine) (hbefore : StatusHonoured engine last)
    (hafter : StatusHonoured (engine.next turn)
      (fun index => (statusGiven turn.2 start.names index).or (last index))) :
    RepeatsStatus start turn.2 := by
  intro index loaded status hloaded hgiven
  have hnext := tracked_next htracked turn
  obtain ⟨rule, hrule, hsame⟩ := hnext.getElem? hloaded
  obtain ⟨old, hold, hstep⟩ := (rulesStep_next engine turn).step index rule hrule
  have hattr := hafter.get_status hnext.page hrule
  have holdattr := hbefore.get_status htracked.page hold
  rw [htracked.names] at hstep
  rw [← hsame]
  rcases hstep.set status hgiven with hset | ⟨hmissing, hunset⟩
  · rw [← hset]
    exact hattr
  · constructor
    · intro hon
      apply hafter.released index rule hrule
      rw [hgiven, hon]
      rfl
    · intro hon
      rw [← hattr, hunset] at hon
      exact absurd hon (by decide)

theorem agree_start (env : Env) (files : RuleEngineFiles) :
    Agree (new env files).start fun _ => none := by
  intro index rule hrule
  refine ⟨?_, fun status hstatus => nomatch hstatus⟩
  have hmem : rule ∈ (RuleSet.new env files.unsetWforbid files.rules).rules :=
    List.mem_of_getElem? hrule
  obtain ⟨file, _, rfl⟩ := List.mem_map.mp hmem
  exact Rule.status_loaded env file

/-- In a run of the engine the status is honoured at all times exactly when every
status command gives the rules that it addresses the status they were loaded with. -/
theorem statusHonoured_iff (env : Env) (files : RuleEngineFiles) (turns : List Turn) :
    (∀ sofar, sofar <+: turns →
      StatusHonoured ((new env files).start.run sofar)
        (lastSetting (new env files).start.names sofar)) ↔
      ∀ turn ∈ turns, RepeatsStatus (new env files).start turn.2 := by
  have htracked : ∀ sofar, Tracked (new env files).start ((new env files).start.run sofar) :=
    tracked_run rfl
  constructor
  · intro hhonoured turn hturn
    obtain ⟨before, after, rfl⟩ := List.append_of_mem hturn
    have hbefore := hhonoured before (List.prefix_append before _)
    have hafter := hhonoured (before ++ [turn]) ⟨after, by simp⟩
    rw [run_concat, lastSetting_concat] at hafter
    exact RepeatsStatus.of_honoured (htracked before) hbefore hafter
  · intro hrepeats sofar hsofar
    apply StatusHonoured.of_agree (htracked sofar).page
    have hturns : ∀ turn ∈ sofar, RepeatsStatus (new env files).start turn.2 :=
      fun turn hturn => hrepeats turn (hsofar.subset hturn)
    clear hsofar hrepeats
    induction sofar using List.reverseRecOn with
    | nil => exact agree_start env files
    | append_singleton sofar turn ih =>
        rw [run_concat, lastSetting_concat]
        apply agree_next (htracked sofar)
        · exact ih fun turn hturn => hturns turn (List.mem_append_left _ hturn)
        · exact hturns turn (List.mem_append_right _ (List.mem_singleton_self turn))

/-- One rule, loaded with status ON, that fires at any evaluation. -/
def oneAlarm : RuleEngineFiles where
  params := ⟨"", [], none, none⟩
  timeparams := ⟨"", [], none, none⟩
  eventcounters := []
  conditions := none
  rules := [RuleSet.alarmFile "garden" "GARDEN" "siren"]
  unsetWforbid := 0

def switchOff : Turn :=
  (RuleSet.noon, ((MMessage.mk2 "cmd" "setrulemode").add "name" "garden").add "status" "OFF")

/-- The rule goes on firing after it has been switched off. -/
theorem not_statusHonoured_switchOff :
    ¬∀ sofar, sofar <+: [switchOff] →
      StatusHonoured ((new RuleSet.noon oneAlarm).start.run sofar)
        (lastSetting (new RuleSet.noon oneAlarm).start.names sofar) := by
  intro hhonoured
  have hoff : lastSetting (new RuleSet.noon oneAlarm).start.names [switchOff] 0 = some "OFF" := by
    decide +kernel
  have hfires : (((new RuleSet.noon oneAlarm).start.run [switchOff]).rule.rules[0]?).any
      (fun rule => (rule.matchRule RuleSet.noon ⟨[], false, [], none⟩ []).2.2 ≠ []) = true := by
    decide +kernel
  obtain ⟨rule, hrule, hanswer⟩ := (Option.any_eq_true _ _).mp hfires
  have hblocked := (hhonoured [switchOff] (List.prefix_refl _)).blocked 0 rule hrule hoff
    RuleSet.noon ⟨[], false, [], none⟩ []
  exact absurd hblocked (of_decide_eq_true hanswer)

end RuleEngine

end Hat
