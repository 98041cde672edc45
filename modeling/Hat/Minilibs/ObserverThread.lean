import Hat.Core.Overwrite
import Hat.Minilibs.MParams
import Hat.Minilibs.SubjectSet

/-!
# Observer threads

A thread and the objects in it add the pairs of type and subtype that they observe to one
set of attributes, and the pairs that they announce to another.  The name of an attribute
is the subtype and its value is the type, so of the pairs with one subtype only the last
is kept.  `init` makes subjects of the pairs announced, and `start` registers the thread
for those observed.
-/

namespace Hat

namespace ObserverThread

structure Request where
  type : String
  subtype : String
  deriving DecidableEq

def Request.add (category : String) (params : MParams) (request : Request) : MParams :=
  params.addCategory request.subtype category request.type

/-- What an object adds in `getObservations` and in `getSubjects`, in the order of its calls. -/
structure Hosted where
  observations : List Request
  subjects : List Request
  deriving DecidableEq

end ObserverThread

structure ObserverThread where
  /-- The file of the thread, in the directory `threads`. -/
  param : MParams
  /-- What the class of the thread adds by itself. -/
  own : ObserverThread.Hosted
  hosted : List ObserverThread.Hosted
  deriving DecidableEq

namespace ObserverThread

/-- The attributes of a category in the file of the thread. -/
def fileRequests (category : String) (thread : ObserverThread) : List Request :=
  (thread.param.load.attributes.filter fun attr => attr.category = category).map fun attr =>
    ⟨attr.value, attr.name⟩

/-- The pairs that are requested, in the order in which they are added. -/
def requested (thread : ObserverThread) : List Request :=
  thread.fileRequests "observe" ++ thread.own.observations ++
    thread.hosted.flatMap Hosted.observations

/-- The pairs that are announced, in the order in which they are added. -/
def announced (thread : ObserverThread) : List Request :=
  thread.fileRequests "subject" ++ thread.own.subjects ++ thread.hosted.flatMap Hosted.subjects

def getObservations (thread : ObserverThread) (obs : MParams) : MParams :=
  thread.requested.foldl (Request.add "observe") obs

def getSubjects (thread : ObserverThread) (subj : MParams) : MParams :=
  thread.announced.foldl (Request.add "subject") subj

def extractCategory (category : String) (params : MParams) : List MAttribute :=
  params.attributes.filter fun attr => attr.category = category

def observes (thread : ObserverThread) : List MAttribute :=
  extractCategory "observe" (thread.getObservations ⟨"OBS", [], none, none⟩)

def subjects (thread : ObserverThread) : List MAttribute :=
  extractCategory "subject" (thread.getSubjects ⟨"SUBJ", [], none, none⟩)

section Threads

variable {O : Type*}

def init (thread : ObserverThread) (set : SubjectSet O) : SubjectSet O :=
  thread.subjects.foldl (fun set attr => set.addSubject attr.value attr.name) set

def start [DecidableEq O] (thread : ObserverThread) (observer : O) (set : SubjectSet O) :
    SubjectSet O :=
  thread.observes.foldl (fun set attr => (set.addObserver attr.value attr.name observer).2) set

end Threads

/-- The attribute that a request is kept as. -/
def Request.attribute (category : String) (request : Request) : MAttribute :=
  ⟨request.subtype, category, request.type⟩

theorem Request.attribute_injective (category : String) :
    (Request.attribute category).Injective := by
  intro left right h
  obtain ⟨hsubtype, -, htype⟩ := MAttribute.mk.inj h
  cases left
  cases right
  simp_all

/-- What `add` compares. -/
def attributeKey (attr : MAttribute) : String × String := (attr.name, attr.category)

theorem addFirstCategory_eq_overwrite (name category value : String)
    (attributes : List MAttribute) :
    MParams.addFirstCategory name category value attributes =
      overwrite attributeKey ⟨name, category, value⟩ attributes := by
  induction attributes with
  | nil => rfl
  | cons attr rest ih =>
      have hkey : attributeKey attr = attributeKey ⟨name, category, value⟩ ↔
          attr.name = name ∧ attr.category = category := Prod.mk_inj
      rw [MParams.addFirstCategory, overwrite, ih]
      simp only [hkey]
      split
      · rename_i hsame
        rw [← hsame.1, ← hsame.2]
      · rfl

theorem attributes_foldl_add (category : String) (requests : List Request) (params : MParams) :
    (requests.foldl (Request.add category) params).attributes =
      (requests.map (Request.attribute category)).foldl
        (fun kept attr => overwrite attributeKey attr kept) params.attributes := by
  induction requests generalizing params with
  | nil => rfl
  | cons request rest ih =>
      rw [List.foldl_cons, ih, List.map_cons, List.foldl_cons, Request.add, MParams.addCategory,
        addFirstCategory_eq_overwrite]
      rfl

/-- A set of attributes of one category, filled by requests, keeps those that survive. -/
theorem mem_extractCategory_iff (category ty : String) (requests : List Request)
    (attr : MAttribute) :
    attr ∈ extractCategory category
        (requests.foldl (Request.add category) ⟨ty, [], none, none⟩) ↔
      ∃ request, Survives Request.subtype requests request ∧
        request.attribute category = attr := by
  have hkey : ∀ left right : Request, attributeKey (left.attribute category) =
      attributeKey (right.attribute category) ↔ left.subtype = right.subtype := by
    intro left right
    exact Prod.mk_inj.trans (and_iff_left rfl)
  have hkept : ∀ request : Request, request.attribute category ∈
      overwriteAll attributeKey (requests.map (Request.attribute category)) ↔
        Survives Request.subtype requests request := by
    intro request
    rw [mem_overwriteAll_iff]
    exact survives_map attributeKey _ _ hkey (Request.attribute_injective category) _ _
  rw [extractCategory, List.mem_filter, attributes_foldl_add, decide_eq_true_eq]
  change attr ∈ overwriteAll attributeKey _ ∧ _ ↔ _
  constructor
  · rintro ⟨hmem, _⟩
    have hsurvives := (mem_overwriteAll_iff attributeKey _ attr).mp hmem
    obtain ⟨request, _, rfl⟩ := List.mem_map.mp hsurvives.mem
    exact ⟨request, (hkept request).mp hmem, rfl⟩
  · rintro ⟨request, hsurvives, rfl⟩
    exact ⟨(hkept request).mpr hsurvives, rfl⟩

theorem mem_observes_iff (thread : ObserverThread) (attr : MAttribute) :
    attr ∈ thread.observes ↔ ∃ request, Survives Request.subtype thread.requested request ∧
      request.attribute "observe" = attr :=
  mem_extractCategory_iff "observe" "OBS" thread.requested attr

theorem mem_subjects_iff (thread : ObserverThread) (attr : MAttribute) :
    attr ∈ thread.subjects ↔ ∃ request, Survives Request.subtype thread.announced request ∧
      request.attribute "subject" = attr :=
  mem_extractCategory_iff "subject" "SUBJ" thread.announced attr

/-! ## Subjects and observers -/

section Registration

variable {O : Type*}

/-- The subject that a pair becomes; one with a wildcard is that of all subtypes. -/
def Request.subjectKey (request : Request) : SubjectKey :=
  SubjectSet.key request.type
    (if SubjectSet.isDummy request.subtype then "*" else request.subtype)

/-- The subjects under which a pair is looked up. -/
def Request.keys (request : Request) (set : SubjectSet O) : List SubjectKey :=
  set.registrationKeys request.type request.subtype

/-- The observer is registered for the pair: there are subjects for it, and it is under each. -/
structure Registered (set : SubjectSet O) (observer : O) (request : Request) : Prop where
  found : request.keys set ≠ []
  filed : ∀ key ∈ request.keys set, observer ∈ set.observersOf key

theorem registered_iff {set : SubjectSet O} {observer : O} {request : Request} :
    Registered set observer request ↔ request.keys set ≠ [] ∧
      ∀ key ∈ request.keys set, observer ∈ set.observersOf key := by
  constructor
  · intro h
    exact ⟨h.found, h.filed⟩
  · rintro ⟨hfound, hfiled⟩
    exact ⟨hfound, hfiled⟩

theorem contains_init (thread : ObserverThread) (set : SubjectSet O) (key : SubjectKey) :
    (thread.init set).contains key ↔ set.contains key ∨
      ∃ request, Survives Request.subtype thread.announced request ∧
        request.subjectKey = key := by
  have hfold : ∀ attrs : List MAttribute,
      (attrs.foldl (fun set attr => set.addSubject attr.value attr.name) set).contains key ↔
        set.contains key ∨ ∃ attr ∈ attrs, Request.subjectKey ⟨attr.value, attr.name⟩ = key := by
    intro attrs
    induction attrs generalizing set with
    | nil => simp
    | cons attr rest ih =>
        rw [List.foldl_cons, ih, SubjectSet.addSubject, SortedMap.contains_insertNew,
          List.exists_mem_cons_iff, or_comm (a := SubjectSet.key _ _ = key), or_assoc]
        rfl
  rw [init, hfold]
  refine or_congr_right ⟨?_, ?_⟩
  · rintro ⟨attr, hattr, hkey⟩
    obtain ⟨request, hsurvives, rfl⟩ := (thread.mem_subjects_iff attr).mp hattr
    exact ⟨request, hsurvives, hkey⟩
  · rintro ⟨request, hsurvives, hkey⟩
    exact ⟨_, (thread.mem_subjects_iff _).mpr ⟨request, hsurvives, rfl⟩, hkey⟩

variable [DecidableEq O]

theorem keys_addObserver (set : SubjectSet O) (type subtype : String) (observer : O) :
    (set.addObserver type subtype observer).2.keys = set.keys := by
  simp only [SubjectSet.addObserver, SortedMap.keys, SortedMap.mapValues, List.map_map,
    Function.comp_def]

/-- Registration leaves the subjects as they are. -/
theorem contains_addObserver (set : SubjectSet O) (type subtype : String) (observer : O)
    (key : SubjectKey) :
    (set.addObserver type subtype observer).2.contains key = set.contains key :=
  SortedMap.contains_mapValues _ _ _

theorem Request.keys_addObserver (request : Request) (set : SubjectSet O) (type subtype : String)
    (observer : O) : request.keys (set.addObserver type subtype observer).2 = request.keys set := by
  simp only [Request.keys, SubjectSet.registrationKeys, contains_addObserver, SubjectSet.ofType,
    ObserverThread.keys_addObserver]

theorem mem_observersOf_addObserver (set : SubjectSet O) (type subtype : String) (observer : O)
    (key : SubjectKey) :
    observer ∈ (set.addObserver type subtype observer).2.observersOf key ↔
      observer ∈ set.observersOf key ∨ key ∈ set.registrationKeys type subtype := by
  rw [SubjectSet.observersOf, SubjectSet.addObserver, SortedMap.find?_mapValues]
  cases hfind : set.find? key with
  | none =>
      have hmissing : key ∉ set.registrationKeys type subtype := by
        intro hkey
        have hcontains := SubjectSet.contains_of_mem_registrationKeys hkey
        rw [SortedMap.contains, hfind] at hcontains
        exact absurd hcontains Bool.false_ne_true
      simp [SubjectSet.observersOf, hfind, hmissing]
  | some observers =>
      rw [Option.map_some, Option.getD_some, SubjectSet.observersOf, hfind, Option.getD_some]
      split
      · rename_i hkey
        simp [Subject.mem_registerObserver, hkey]
      · rename_i hkey
        simp [hkey]

/-- What the loop of `start` leaves: the subjects of before, with the thread under those of the
pairs kept. -/
theorem start_spec (thread : ObserverThread) (observer : O) (set : SubjectSet O) :
    (∀ key, (thread.start observer set).contains key = set.contains key) ∧
    (∀ request : Request, request.keys (thread.start observer set) = request.keys set) ∧
    ∀ key, observer ∈ (thread.start observer set).observersOf key ↔
      observer ∈ set.observersOf key ∨
        ∃ request, Survives Request.subtype thread.requested request ∧
          key ∈ request.keys set := by
  have hfold : ∀ attrs : List MAttribute, ∀ after,
      after = attrs.foldl
        (fun set attr => (set.addObserver attr.value attr.name observer).2) set →
      (∀ key, after.contains key = set.contains key) ∧
      (∀ request : Request, request.keys after = request.keys set) ∧
      ∀ key, observer ∈ after.observersOf key ↔ observer ∈ set.observersOf key ∨
        ∃ attr ∈ attrs, key ∈ Request.keys ⟨attr.value, attr.name⟩ set := by
    intro attrs
    induction attrs using List.reverseRecOn with
    | nil => rintro _ rfl; simp
    | append_singleton attrs attr ih =>
        rintro _ rfl
        obtain ⟨hcontains, hkeys, hobservers⟩ := ih _ rfl
        rw [List.foldl_append, List.foldl_cons, List.foldl_nil]
        generalize attrs.foldl
          (fun set attr => (set.addObserver attr.value attr.name observer).2) set = before
            at hcontains hkeys hobservers ⊢
        refine ⟨fun key => ?_, fun request => ?_, fun key => ?_⟩
        · rw [contains_addObserver, hcontains]
        · rw [Request.keys_addObserver, hkeys]
        · have hthis := hkeys ⟨attr.value, attr.name⟩
          rw [Request.keys] at hthis
          rw [mem_observersOf_addObserver, hobservers, or_assoc, hthis]
          simp [or_and_right, exists_or]
  obtain ⟨hcontains, hkeys, hobservers⟩ := hfold thread.observes _ rfl
  refine ⟨hcontains, hkeys, fun key => ?_⟩
  rw [start, hobservers]
  refine or_congr_right ⟨?_, ?_⟩
  · rintro ⟨attr, hattr, hkey⟩
    obtain ⟨request, hsurvives, rfl⟩ := (thread.mem_observes_iff attr).mp hattr
    exact ⟨request, hsurvives, hkey⟩
  · rintro ⟨request, hsurvives, hkey⟩
    exact ⟨_, (thread.mem_observes_iff _).mpr ⟨request, hsurvives, rfl⟩, hkey⟩

end Registration

end ObserverThread

end Hat
