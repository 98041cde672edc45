import Hat.NetDevices.ThreadRequests
import Mathlib.Data.Fintype.EquivFin

/-!
# The events of counters and conditions

A counter or a condition asks to observe the events of its name and of its aliases.  Of the
messages that come in it takes those that name an alias, and it compares the type of its set
of attributes, where its own name would be expected, with the subtype and with the field that
the source of the message names.
-/

namespace Hat

namespace MMessage

/-- The subtype or the source of the message is an alias. -/
def NamesAlias (aliases : NameList) (message : MMessage) : Prop :=
  message.msubtype ∈ aliases ∨ message.getString "source" ∈ aliases

/-- The subtype or the source of the message is the name. -/
def NamesOwn (name : String) (message : MMessage) : Prop :=
  message.msubtype = name ∨ message.getString "source" = name

/-- The subtype of the message, or the field that its source names, is the type of a set. -/
def NamesType (ty : String) (message : MMessage) : Prop :=
  message.msubtype = ty ∨ message.getString (message.getString "source") = ty

/-- A message of any type and subtype, with any value, whose source is none of the names and
names a field that is not `ty`. -/
theorem exists_foreign (mtype msubtype value ty : String) (names : List String) :
    ∃ message : MMessage, message.mtype = mtype ∧ message.msubtype = msubtype ∧
      message.getString "value" = value ∧ message.getString "source" ∉ names ∧
      message.getString (message.getString "source") ≠ ty := by
  obtain ⟨source, hsource⟩ :=
    Infinite.exists_notMem_finset ("value" :: "source" :: names).toFinset
  rw [List.mem_toFinset, List.mem_cons, List.mem_cons, not_or, not_or] at hsource
  have hblank : ∀ field items,
      (mk2 mtype msubtype).fields.find? field ≠ some (.mstringList items) :=
    fun _ _ hfound => absurd hfound.symm (Option.some_ne_none _)
  have hvalue : ((mk2 mtype msubtype).add "value" value).getString "value" = value :=
    getString_add_self _ _ _ (hblank "value")
  have hname : (((mk2 mtype msubtype).add "value" value).add "source" source).getString "source" =
      source := by
    apply getString_add_self
    rw [find?_add_of_ne _ _ (by decide)]
    exact hblank "source"
  have hfield : ((((mk2 mtype msubtype).add "value" value).add "source" source).add source
      (ty ++ "x")).getString source = ty ++ "x" := by
    apply getString_add_self
    rw [find?_add_of_ne _ _ (Ne.symm hsource.2.1), find?_add_of_ne _ _ (Ne.symm hsource.1)]
    exact hblank source
  refine ⟨(((mk2 mtype msubtype).add "value" value).add "source" source).add source (ty ++ "x"),
    ?_, ?_, ?_, ?_, ?_⟩
  · simp only [mtype_add]
    rfl
  · simp only [msubtype_add]
    rfl
  · rw [getString_add_of_ne _ _ hsource.1, getString_add_of_ne _ _ (by decide), hvalue]
  · rw [getString_add_of_ne _ _ hsource.2.1, hname]
    exact hsource.2.2
  · rw [getString_add_of_ne _ _ hsource.2.1, hname, hfield]
    intro heq
    have hlength := congrArg String.length heq
    rw [String.length_append] at hlength
    exact absurd hlength (by simp)

end MMessage

open MMessage

/-- Two conditions joined to the same third one are compared. -/
theorem or_iff_or_right_iff (type own named : Prop) :
    (type ∨ named ↔ own ∨ named) ↔ named ∨ (type ↔ own) := by
  by_cases hnamed : named
  · simp [hnamed]
  · simp [hnamed]

theorem mem_eventRequests {nn : String} {aliases : NameList} {request : ObserverThread.Request} :
    request ∈ eventRequests nn aliases ↔
      request.type = "event" ∧ (request.subtype = nn ∨ request.subtype ∈ aliases) := by
  cases request with
  | mk type subtype =>
      simp only [eventRequests, List.mem_cons, List.mem_map, List.mem_filter, decide_eq_true_eq,
        ObserverThread.Request.mk.injEq]
      constructor
      · rintro (⟨rfl, rfl⟩ | ⟨name, ⟨hname, -⟩, rfl, rfl⟩)
        · exact ⟨rfl, Or.inl rfl⟩
        · exact ⟨rfl, Or.inr hname⟩
      · rintro ⟨rfl, hsubtype⟩
        by_cases hown : nn = subtype
        · exact Or.inl ⟨rfl, hown.symm⟩
        · exact Or.inr ⟨subtype, ⟨hsubtype.resolve_left (Ne.symm hown), hown⟩, rfl, rfl⟩

/-- Requested events are recognised: by their alias, or by the type of the set. -/
theorem recognised_iff (accepted : String → Prop) (nn ty : String) (aliases : NameList) :
    (∀ request ∈ eventRequests nn aliases, ∀ message : MMessage,
        message.mtype = request.type → message.msubtype = request.subtype →
        accepted (message.getString "value") →
        accepted (message.getString "value") ∧
          (message.NamesType ty ∨ message.NamesAlias aliases)) ↔
      (∀ value, ¬accepted value) ∨ nn = ty ∨ nn ∈ aliases := by
  constructor
  · intro hrecognised
    by_contra hnot
    rw [not_or, not_forall, not_or] at hnot
    obtain ⟨⟨value, hvalue⟩, hty, halias⟩ := hnot
    obtain ⟨message, hmtype, hmsubtype, hmvalue, hsource, hfield⟩ :=
      exists_foreign "event" nn value ty aliases
    have hnames := (hrecognised ⟨"event", nn⟩ (mem_eventRequests.mpr ⟨rfl, Or.inl rfl⟩) message
      hmtype hmsubtype (hmvalue ▸ not_not.mp hvalue)).2
    rcases hnames with (hsub | hsub) | hsub | hsub
    · exact hty (hmsubtype.symm.trans hsub)
    · exact hfield hsub
    · exact halias (hmsubtype ▸ hsub)
    · exact hsource hsub
  · intro hcondition request hrequest message _ hmsubtype hvalue
    refine ⟨hvalue, ?_⟩
    have hsubtype := (mem_eventRequests.mp hrequest).2
    rw [← hmsubtype] at hsubtype
    rcases hcondition with hnone | hty | halias
    · exact absurd hvalue (hnone _)
    · rcases hsubtype with hown | halias
      · exact Or.inl (Or.inl (hown.trans hty))
      · exact Or.inr (Or.inl halias)
    · rcases hsubtype with hown | hother
      · exact Or.inr (Or.inl (hown ▸ halias))
      · exact Or.inr (Or.inl hother)

theorem NameList.member_iff (list : NameList) (name : String) :
    list.member name = true ↔ name ∈ list := by
  rw [NameList.member, List.any_eq_true]
  constructor
  · rintro ⟨other, hother, heq⟩
    exact of_decide_eq_true heq ▸ hother
  · exact fun hname => ⟨name, hname, decide_eq_true rfl⟩

namespace EventCounter

theorem matchMessage_iff (counter : EventCounter) (message : MMessage) :
    counter.matchMessage message = true ↔
      message.getString "value" ∈ counter.values ∧
        (message.NamesType counter.params.ty ∨ message.NamesAlias counter.aliases) := by
  simp only [matchMessage, NamesType, NamesAlias, Bool.and_eq_true, Bool.or_eq_true,
    decide_eq_true_eq, NameList.member_iff]
  tauto

/-- The counter takes the messages with an accepted value that name it or an alias. -/
def MatchesAsNamed (counter : EventCounter) (message : MMessage) : Prop :=
  counter.matchMessage message = true ↔
    message.getString "value" ∈ counter.values ∧
      (message.NamesOwn counter.name ∨ message.NamesAlias counter.aliases)

/-- The messages of the events that the counter requests, with an accepted value, are taken. -/
def Recognises (counter : EventCounter) : Prop :=
  ∀ request ∈ counter.observations, ∀ message : MMessage,
    message.mtype = request.type → message.msubtype = request.subtype →
    message.getString "value" ∈ counter.values → counter.matchMessage message = true

theorem matchesAsNamed_iff (counter : EventCounter) (message : MMessage) :
    counter.MatchesAsNamed message ↔
      message.getString "value" ∉ counter.values ∨ message.NamesAlias counter.aliases ∨
        (message.NamesType counter.params.ty ↔ message.NamesOwn counter.name) := by
  rw [MatchesAsNamed, matchMessage_iff, and_congr_right_iff, or_iff_or_right_iff,
    ← imp_iff_not_or]

theorem recognises_iff (counter : EventCounter) :
    counter.Recognises ↔ counter.values = [] ∨ counter.params.get "name" = counter.params.ty ∨
      counter.params.get "name" ∈ counter.aliases := by
  simp only [Recognises, matchMessage_iff, observations]
  rw [recognised_iff, List.eq_nil_iff_forall_not_mem]

end EventCounter

namespace BooleanCondition

theorem matchMessage_iff (condition : BooleanCondition) (message : MMessage) :
    condition.matchMessage message = true ↔
      message.NamesType condition.params.ty ∨ message.NamesAlias condition.aliases := by
  simp only [matchMessage, NamesType, NamesAlias, Bool.or_eq_true, decide_eq_true_eq,
    NameList.member_iff]
  tauto

def MatchesAsNamed (condition : BooleanCondition) (message : MMessage) : Prop :=
  condition.matchMessage message = true ↔
    message.NamesOwn condition.name ∨ message.NamesAlias condition.aliases

def Recognises (condition : BooleanCondition) : Prop :=
  ∀ request ∈ condition.observations, ∀ message : MMessage,
    message.mtype = request.type → message.msubtype = request.subtype →
    condition.matchMessage message = true

theorem matchesAsNamed_iff (condition : BooleanCondition) (message : MMessage) :
    condition.MatchesAsNamed message ↔ message.NamesAlias condition.aliases ∨
      (message.NamesType condition.params.ty ↔ message.NamesOwn condition.name) := by
  rw [MatchesAsNamed, matchMessage_iff, or_iff_or_right_iff]

theorem recognises_iff (condition : BooleanCondition) :
    condition.Recognises ↔ condition.params.get "name" = condition.params.ty ∨
      condition.params.get "name" ∈ condition.aliases := by
  have hall := recognised_iff (fun _ => True) (condition.params.get "name")
    condition.params.ty condition.aliases
  simp only [true_and, not_true_eq_false, forall_const, false_or] at hall
  simp only [Recognises, matchMessage_iff, observations]
  exact hall

end BooleanCondition

/-- When a message is taken as its names say, and when all requested events are recognised,
for the counter and for the condition of a file. -/
theorem namedEvents_iff (env : Hsrv.Env) (unloaded : MParams) (nm : String) (message : MMessage) :
    ((EventCounter.new env unloaded nm).MatchesAsNamed message ↔
        message.getString "value" ∉ (EventCounter.new env unloaded nm).values ∨
          message.NamesAlias (EventCounter.new env unloaded nm).aliases ∨
          (message.NamesType unloaded.load.ty ↔
            message.NamesOwn (EventCounter.new env unloaded nm).name)) ∧
      ((BooleanCondition.new env unloaded nm).MatchesAsNamed message ↔
        message.NamesAlias (BooleanCondition.new env unloaded nm).aliases ∨
          (message.NamesType unloaded.load.ty ↔
            message.NamesOwn (BooleanCondition.new env unloaded nm).name)) ∧
      ((EventCounter.new env unloaded nm).Recognises ↔
        (EventCounter.new env unloaded nm).values = [] ∨
          unloaded.load.get "name" = unloaded.load.ty ∨
          unloaded.load.get "name" ∈ (EventCounter.new env unloaded nm).aliases) ∧
      ((BooleanCondition.new env unloaded nm).Recognises ↔
        unloaded.load.get "name" = unloaded.load.ty ∨
          unloaded.load.get "name" ∈ (BooleanCondition.new env unloaded nm).aliases) := by
  refine ⟨?_, ?_, ?_, ?_⟩
  · exact EventCounter.matchesAsNamed_iff _ message
  · exact BooleanCondition.matchesAsNamed_iff _ message
  · exact EventCounter.recognises_iff _
  · exact BooleanCondition.recognises_iff _

/-- A file of the type `event` with the name `door`. -/
def doorFile : MParams :=
  ⟨"event", [⟨"name", "generic", "door"⟩, ⟨"accepted_values", "generic", "open"⟩],
    some ("event", [⟨"name", "generic", "door"⟩, ⟨"accepted_values", "generic", "open"⟩]), none⟩

/-- The door opens. -/
def doorOpens : MMessage := (MMessage.mk2 "event" "door").add "value" "open"

/-- The counter and the condition ask for the events of the door and take none of them. -/
theorem not_matchesAsNamed_door :
    ¬(EventCounter.new Hsrv.firstNight doorFile "door").MatchesAsNamed doorOpens ∧
      ¬(BooleanCondition.new Hsrv.firstNight doorFile "door").MatchesAsNamed doorOpens ∧
      ¬(EventCounter.new Hsrv.firstNight doorFile "door").Recognises ∧
      ¬(BooleanCondition.new Hsrv.firstNight doorFile "door").Recognises := by
  have hcounter :
      (EventCounter.new Hsrv.firstNight doorFile "door").matchMessage doorOpens = false := by
    decide +kernel
  have hcondition :
      (BooleanCondition.new Hsrv.firstNight doorFile "door").matchMessage doorOpens = false := by
    decide +kernel
  refine ⟨?_, ?_, ?_, ?_⟩
  · intro hmatches
    have htaken := hmatches.mpr ⟨by decide +kernel, Or.inl (Or.inl (by decide +kernel))⟩
    exact absurd (hcounter.symm.trans htaken) Bool.false_ne_true
  · intro hmatches
    have htaken := hmatches.mpr (Or.inl (Or.inl (by decide +kernel)))
    exact absurd (hcondition.symm.trans htaken) Bool.false_ne_true
  · intro hrecognises
    have htaken := hrecognises ⟨"event", "door"⟩ (by decide +kernel) doorOpens (by decide +kernel)
      (by decide +kernel) (by decide +kernel)
    exact absurd (hcounter.symm.trans htaken) Bool.false_ne_true
  · intro hrecognises
    have htaken := hrecognises ⟨"event", "door"⟩ (by decide +kernel) doorOpens (by decide +kernel)
      (by decide +kernel)
    exact absurd (hcondition.symm.trans htaken) Bool.false_ne_true

end Hat
