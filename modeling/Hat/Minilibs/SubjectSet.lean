import Hat.Core.Machine
import Hat.Minilibs.MMessage
import Mathlib.Data.List.Nodup
import Mathlib.Data.Prod.Lex

/-!
# Subjects and observers

The map from message types and subtypes to the observers that are notified of
them.  Registration and notification both look up an exact subject first and fall
back on the wildcard subject of the type, or on all its subjects.  The module also
determines the orders of calls in which every message reaches the observers that
asked for it, and no others.
-/

namespace Hat

open Hat.Hsrv

/-- The observers of a subject, in order of registration. -/
abbrev Subject (O : Type*) := List O

namespace Subject

variable {O : Type*} [DecidableEq O]

def registerObserver (observer : O) (observers : Subject O) : Subject O :=
  if observer ∈ observers then observers else observers ++ [observer]

theorem mem_registerObserver (observer other : O) (observers : Subject O) :
    other ∈ registerObserver observer observers ↔ other = observer ∨ other ∈ observers := by
  rw [registerObserver]
  split
  · rename_i hmem
    exact ⟨Or.inr, fun h => h.elim (fun heq => heq ▸ hmem) id⟩
  · rw [List.mem_append, List.mem_singleton, or_comm]

theorem nodup_registerObserver (observer : O) {observers : Subject O}
    (hnodup : observers.Nodup) : (registerObserver observer observers).Nodup := by
  rw [registerObserver]
  split
  · exact hnodup
  · rename_i hnew
    rw [← List.concat_eq_append]
    exact List.Nodup.concat hnew hnodup

end Subject

/-- Type and subtype, in the order of the map. -/
abbrev SubjectKey := String ×ₗ String

abbrev SubjectSet (O : Type*) := SortedMap SubjectKey (Subject O)

namespace SubjectSet

def isDummy (subtype : String) : Bool := subtype.toList.contains '*'

def key (type subtype : String) : SubjectKey := toLex (type, subtype)

variable {O : Type*}

def addSubject (type subtype : String) (set : SubjectSet O) : SubjectSet O :=
  set.insertNew (key type (if isDummy subtype then "*" else subtype)) []

/-- The keys of all subjects of a type. -/
def ofType (type : String) (set : SubjectSet O) : List SubjectKey :=
  set.keys.filter fun key => (ofLex key).1 = type

/-- The subjects under which `add_observer` files an observer. -/
def registrationKeys (type subtype : String) (set : SubjectSet O) : List SubjectKey :=
  if set.contains (key type subtype) then [key type subtype]
  else if set.contains (key type "*") then [key type "*"]
  else if isDummy subtype then set.ofType type
  else []

def addObserver [DecidableEq O] (type subtype : String) (observer : O) (set : SubjectSet O) :
    Bool × SubjectSet O :=
  let keys := set.registrationKeys type subtype
  (keys ≠ [], set.mapValues fun key observers =>
    if key ∈ keys then observers.registerObserver observer else observers)

/-- The subjects that `notify` consults. -/
def notificationKeys (type subtype : String) (set : SubjectSet O) : List SubjectKey :=
  if set.contains (key type subtype) then [key type subtype]
  else if !isDummy subtype ∧ set.contains (key type "*") then [key type "*"]
  else if isDummy subtype then set.ofType type
  else []

def observersOf (set : SubjectSet O) (key : SubjectKey) : Subject O := (set.find? key).getD []

/-- `notify`: the result and the observers that receive the message, in the order in
which they are called. -/
def notify (status : Status) (type subtype : String) (set : SubjectSet O) : Bool × List O :=
  if status = .off then (false, [])
  else
    let keys := set.notificationKeys type subtype
    (keys ≠ [], keys.flatMap set.observersOf)

theorem nodup_notificationKeys (type subtype : String) (set : SubjectSet O) :
    (set.notificationKeys type subtype).Nodup := by
  rw [notificationKeys]
  split
  · exact List.nodup_singleton _
  · split
    · exact List.nodup_singleton _
    · split
      · exact set.nodup_keys.filter _
      · exact List.nodup_nil

theorem contains_of_mem_ofType {type : String} {set : SubjectSet O} {key : SubjectKey}
    (h : key ∈ set.ofType type) : set.contains key := by
  rw [← SortedMap.mem_keys_iff_contains]
  exact (List.mem_filter.mp h).1

theorem contains_of_mem_notificationKeys {type subtype : String} {set : SubjectSet O}
    {key : SubjectKey} (h : key ∈ set.notificationKeys type subtype) : set.contains key := by
  rw [notificationKeys] at h
  split at h
  · rename_i hexact
    rw [List.mem_singleton.mp h]
    exact hexact
  · split at h
    · rename_i hwild
      rw [List.mem_singleton.mp h]
      exact hwild.2
    · split at h
      · exact contains_of_mem_ofType h
      · exact absurd h List.not_mem_nil

theorem contains_of_mem_registrationKeys {type subtype : String} {set : SubjectSet O}
    {key : SubjectKey} (h : key ∈ set.registrationKeys type subtype) : set.contains key := by
  rw [registrationKeys] at h
  split at h
  · rename_i hexact
    rw [List.mem_singleton.mp h]
    exact hexact
  · split at h
    · rename_i hwild
      rw [List.mem_singleton.mp h]
      exact hwild
    · split at h
      · exact contains_of_mem_ofType h
      · exact absurd h List.not_mem_nil

inductive Call (O : Type*)
  | addSubject (type subtype : String)
  | addObserver (type subtype : String) (observer : O)
  | notify (type subtype : String)

/-- A registration that was accepted, with the subjects under which it was filed. -/
structure Registration (O : Type*) where
  type : String
  subtype : String
  observer : O
  filed : List SubjectKey
  deriving DecidableEq

structure History (O : Type*) where
  set : SubjectSet O
  accepted : List (Registration O)

variable [DecidableEq O]

def History.start : History O := ⟨SortedMap.empty, []⟩

def History.next (history : History O) : Call O → History O
  | .addSubject type subtype => { history with set := history.set.addSubject type subtype }
  | .addObserver type subtype observer =>
      let added := history.set.addObserver type subtype observer
      { set := added.2
        accepted := if added.1 then history.accepted ++
            [⟨type, subtype, observer, history.set.registrationKeys type subtype⟩]
          else history.accepted }
  | .notify _ _ => history

/-- The observer has an accepted registration for the type and the subtype, or for
the type and a wildcard. -/
def History.AskedFor (history : History O) (type subtype : String) (observer : O) : Prop :=
  ∃ registration ∈ history.accepted, registration.observer = observer ∧
    registration.type = type ∧ (registration.subtype = subtype ∨ isDummy registration.subtype)

/-- An accepted registration of the observer was filed under the subject. -/
def History.FiledUnder (history : History O) (observer : O) (key : SubjectKey) : Prop :=
  ∃ registration ∈ history.accepted, registration.observer = observer ∧ key ∈ registration.filed

/-- With the agent on, the message reaches every observer that asked for it exactly
once, and no other. -/
def DeliveredOnce (history : History O) : Call O → Prop
  | .notify type subtype => ∀ observer,
      (history.AskedFor type subtype observer →
        (history.set.notify .on type subtype).2.count observer = 1) ∧
      (¬history.AskedFor type subtype observer →
        observer ∉ (history.set.notify .on type subtype).2)
  | _ => True

/-- An observer that asked for the message was filed under exactly one of the
subjects consulted for it, and every other observer under none of them. -/
def FiledOnce (history : History O) : Call O → Prop
  | .notify type subtype => ∀ observer,
      (history.AskedFor type subtype observer →
        ∃! key, key ∈ history.set.notificationKeys type subtype ∧
          history.FiledUnder observer key) ∧
      (¬history.AskedFor type subtype observer →
        ∀ key ∈ history.set.notificationKeys type subtype, ¬history.FiledUnder observer key)
  | _ => True

/-- The observers of every subject are those that were filed under it, each once. -/
structure Filed (history : History O) : Prop where
  nodup : ∀ key observers, history.set.find? key = some observers → observers.Nodup
  mem : ∀ key observers, history.set.find? key = some observers →
    ∀ observer, observer ∈ observers ↔ history.FiledUnder observer key
  known : ∀ registration ∈ history.accepted, ∀ key ∈ registration.filed,
    history.set.contains key

omit [DecidableEq O] in
theorem filed_start : Filed (History.start : History O) := by
  constructor
  · intro key observers hfound
    exact absurd hfound.symm (Option.some_ne_none observers)
  · intro key observers hfound
    exact absurd hfound.symm (Option.some_ne_none observers)
  · intro registration hmem
    exact absurd hmem List.not_mem_nil

theorem Filed.addSubject {history : History O} (h : Filed history) (type subtype : String) :
    Filed (history.next (.addSubject type subtype)) := by
  have hfound : ∀ key observers,
      (history.set.addSubject type subtype).find? key = some observers →
        history.set.find? key = some observers ∨
          (history.set.contains key = false ∧ observers = []) := by
    intro key observers hsome
    rw [SubjectSet.addSubject] at hsome
    generalize SubjectSet.key type (if isDummy subtype then "*" else subtype) = added at hsome
    rw [SortedMap.find?_insertNew] at hsome
    split at hsome
    · rename_i hnew
      exact Or.inr ⟨hnew.1 ▸ hnew.2, (Option.some.inj hsome).symm⟩
    · exact Or.inl hsome
  constructor
  · intro key observers hsome
    rcases hfound key observers hsome with hold | ⟨_, rfl⟩
    · exact h.nodup key observers hold
    · exact List.nodup_nil
  · intro key observers hsome observer
    rcases hfound key observers hsome with hold | ⟨hnew, rfl⟩
    · exact h.mem key observers hold observer
    · refine ⟨fun hmem => absurd hmem List.not_mem_nil, ?_⟩
      rintro ⟨registration, hmem, _, hkey⟩
      have hknown := h.known registration hmem key hkey
      rw [hnew] at hknown
      exact absurd hknown (Bool.false_ne_true)
  · intro registration hmem key hkey
    exact (SortedMap.contains_insertNew _ _ _ _).mpr (Or.inr (h.known registration hmem key hkey))

theorem Filed.addObserver {history : History O} (h : Filed history) (type subtype : String)
    (observer : O) : Filed (history.next (.addObserver type subtype observer)) := by
  have hfound : ∀ key observers,
      (history.set.addObserver type subtype observer).2.find? key = some observers →
        ∃ before, history.set.find? key = some before ∧
          observers = if key ∈ history.set.registrationKeys type subtype
            then before.registerObserver observer else before := by
    intro key observers hsome
    rw [SubjectSet.addObserver, SortedMap.find?_mapValues, Option.map_eq_some_iff] at hsome
    obtain ⟨before, hbefore, heq⟩ := hsome
    exact ⟨before, hbefore, heq.symm⟩
  have hfiled : ∀ other key, (history.next (.addObserver type subtype observer)).FiledUnder
      other key ↔ (other = observer ∧ key ∈ history.set.registrationKeys type subtype) ∨
        history.FiledUnder other key := by
    intro other key
    simp only [History.FiledUnder, History.next, SubjectSet.addObserver]
    by_cases hnone : history.set.registrationKeys type subtype = []
    · simp [hnone]
    · simp only [hnone, ne_eq, not_false_eq_true, decide_true, if_true, List.mem_append,
        List.mem_singleton, or_and_right, exists_or, exists_eq_left]
      rw [or_comm, eq_comm]
  constructor
  · intro key observers hsome
    obtain ⟨before, hbefore, rfl⟩ := hfound key observers hsome
    split
    · exact Subject.nodup_registerObserver observer (h.nodup key before hbefore)
    · exact h.nodup key before hbefore
  · intro key observers hsome other
    obtain ⟨before, hbefore, rfl⟩ := hfound key observers hsome
    rw [hfiled, ← h.mem key before hbefore]
    split
    · rename_i hkey
      simp only [Subject.mem_registerObserver, hkey, and_true]
    · rename_i hkey
      simp only [hkey, and_false, false_or]
  · intro registration hmem key hkey
    simp only [History.next, SubjectSet.addObserver, SortedMap.contains_mapValues]
    simp only [History.next] at hmem
    split at hmem
    · rcases List.mem_append.mp hmem with hold | hnew
      · exact h.known registration hold key hkey
      · rw [List.mem_singleton.mp hnew] at hkey
        exact contains_of_mem_registrationKeys hkey
    · exact h.known registration hmem key hkey

theorem filed_next {history : History O} (h : Filed history) (call : Call O) :
    Filed (history.next call) := by
  cases call with
  | addSubject type subtype => exact h.addSubject type subtype
  | addObserver type subtype observer => exact h.addObserver type subtype observer
  | notify type subtype => exact h

/-! ## Deliveries -/

/-- Over distinct keys with lists free of duplicates, an element is counted once for
each list that holds it. -/
theorem count_flatMap_eq_countP {κ : Type*} (lists : κ → List O) (keys : List κ)
    (hnodup : ∀ key ∈ keys, (lists key).Nodup) (observer : O) :
    (keys.flatMap lists).count observer = keys.countP fun key => observer ∈ lists key := by
  induction keys with
  | nil => rfl
  | cons key rest ih =>
      rw [List.flatMap_cons, List.count_append, List.countP_cons,
        ih fun other hother => hnodup other (List.mem_cons_of_mem key hother)]
      by_cases hmem : observer ∈ lists key
      · rw [List.count_eq_one_of_mem (hnodup key List.mem_cons_self) hmem]
        simp [hmem, add_comm]
      · rw [List.count_eq_zero_of_not_mem hmem]
        simp [hmem]

theorem countP_eq_one_iff {κ : Type*} {keys : List κ} (hnodup : keys.Nodup) (p : κ → Prop)
    [DecidablePred p] : keys.countP p = 1 ↔ ∃! key, key ∈ keys ∧ p key := by
  rw [List.countP_eq_length_filter, List.length_eq_one_iff]
  constructor
  · rintro ⟨key, hfilter⟩
    have hmem : ∀ other, (other ∈ keys ∧ p other) ↔ other = key := by
      intro other
      rw [← List.mem_singleton, ← hfilter, List.mem_filter, decide_eq_true_iff]
    exact ⟨key, (hmem key).mpr rfl, fun other hother => (hmem other).mp hother⟩
  · rintro ⟨key, hkey, hunique⟩
    refine ⟨key, ?_⟩
    rw [← List.perm_singleton]
    rw [List.perm_ext_iff_of_nodup (hnodup.filter _) (List.nodup_singleton key)]
    intro other
    rw [List.mem_filter, List.mem_singleton, decide_eq_true_iff]
    exact ⟨fun hother => hunique other hother, fun heq => heq ▸ hkey⟩

omit [DecidableEq O] in
theorem Filed.mem_observersOf {history : History O} (h : Filed history) {type subtype : String}
    {key : SubjectKey} (hkey : key ∈ history.set.notificationKeys type subtype) (observer : O) :
    observer ∈ history.set.observersOf key ↔ history.FiledUnder observer key := by
  obtain ⟨observers, hfound⟩ :=
    SortedMap.contains_iff.mp (contains_of_mem_notificationKeys hkey)
  rw [observersOf, hfound, Option.getD_some]
  exact h.mem key observers hfound observer

omit [DecidableEq O] in
theorem Filed.nodup_observersOf {history : History O} (h : Filed history) {type subtype : String}
    {key : SubjectKey} (hkey : key ∈ history.set.notificationKeys type subtype) :
    (history.set.observersOf key).Nodup := by
  obtain ⟨observers, hfound⟩ :=
    SortedMap.contains_iff.mp (contains_of_mem_notificationKeys hkey)
  rw [observersOf, hfound, Option.getD_some]
  exact h.nodup key observers hfound

theorem Filed.count_notify {history : History O} (h : Filed history) (type subtype : String)
    (observer : O) :
    (history.set.notify .on type subtype).2.count observer = 1 ↔
      ∃! key, key ∈ history.set.notificationKeys type subtype ∧
        history.FiledUnder observer key := by
  have hcount : (history.set.notify .on type subtype).2.count observer =
      (history.set.notificationKeys type subtype).countP
        fun key => observer ∈ history.set.observersOf key :=
    count_flatMap_eq_countP _ _ (fun key hkey => h.nodup_observersOf hkey) observer
  rw [hcount, countP_eq_one_iff (nodup_notificationKeys type subtype history.set)]
  apply existsUnique_congr
  intro key
  apply and_congr_right
  intro hkey
  exact h.mem_observersOf hkey observer

omit [DecidableEq O] in
theorem Filed.not_mem_notify {history : History O} (h : Filed history) (type subtype : String)
    (observer : O) :
    observer ∉ (history.set.notify .on type subtype).2 ↔
      ∀ key ∈ history.set.notificationKeys type subtype, ¬history.FiledUnder observer key := by
  have hnotify : (history.set.notify .on type subtype).2 =
      (history.set.notificationKeys type subtype).flatMap history.set.observersOf := rfl
  rw [hnotify, List.mem_flatMap, not_exists]
  apply forall_congr'
  intro key
  rw [not_and]
  apply forall_congr'
  intro hkey
  rw [h.mem_observersOf hkey]

/-- Every message of a sequence of calls is delivered as asked for exactly when, at
each of them, the observers were filed accordingly under the consulted subjects. -/
theorem deliveredOnce_iff (calls : List (Call O)) :
    Machine.Along (Machine.total History.next) DeliveredOnce History.start calls ↔
      Machine.Along (Machine.total History.next) FiledOnce History.start calls := by
  apply Machine.along_iff_of_guarded (I := Filed)
  · intro history call hfiled
    cases call with
    | addSubject type subtype => exact Iff.rfl
    | addObserver type subtype observer => exact Iff.rfl
    | notify type subtype =>
        simp only [DeliveredOnce, FiledOnce, hfiled.count_notify, hfiled.not_mem_notify]
  · intro history call next hfiled _ hnext
    rw [← Option.some.inj hnext]
    exact filed_next hfiled call
  · exact filed_start

/-- The observer registers through the wildcard subject before the exact subject is
added: it misses the message. -/
theorem not_deliveredOnce_late :
    ¬Machine.Along (Machine.total History.next) DeliveredOnce (History.start : History ℕ)
      [.addSubject "event" "*", .addObserver "event" "door" 0, .addSubject "event" "door",
        .notify "event" "door"] := by
  rintro ⟨_, hrest⟩
  obtain ⟨_, hrest⟩ := hrest _ rfl
  obtain ⟨_, hrest⟩ := hrest _ rfl
  obtain ⟨hdelivered, _⟩ := hrest _ rfl
  have hcount := (hdelivered 0).1 ⟨⟨"event", "door", 0, [key "event" "*"]⟩, by decide, rfl, rfl,
    Or.inl rfl⟩
  exact absurd hcount (by decide +kernel)

end SubjectSet

end Hat
