import Hat.Core.Machine
import Hat.WSServer.AuthManager

/-!
# The lock of the users table

Every handler takes the lock of the table, and `addUser` takes it again under the lock
of its caller.  A run of requests never stops on the lock exactly when none of them
reaches an addition.
-/

namespace Hat.AuthManager

open Hat.Guarded Hat.Guarded.Call

variable (readJson : String → Option PTree)

/-- A request with its effect on the lock and the data.  What follows undefined
behaviour is not described. -/
def serve (service : Service AuthManager) (request : Request) : Option (Service AuthManager) :=
  if (handle readJson request).fault service = some .undefined then none
  else some ((handle readJson request).final service)

/-- The request never takes the lock while its thread holds it, and gives it back. -/
def LocksOnce (service : Service AuthManager) (request : Request) : Prop :=
  (handle readJson request).fault service ≠ some .blocked ∧
    ∀ after, serve readJson service request = some after → after.locked = false

/-- The request posts a new user. -/
def Request.Adds : Request → Prop
  | .set [_, _, page, value] _ => page = "Users" ∧ value ≠ ""
  | _ => False

theorem unlocking_firstPiece (text : String) : Unlocking (firstPiece text) :=
  Unlocking.orRaise (by decide) _

theorem unlocking_findUser (capability : String) (passwd : NameList)
    (entries : List (String × User)) : Unlocking (findUser capability passwd entries) := by
  induction entries with
  | nil => exact Unlocking.pure ""
  | cons entry rest ih =>
      apply Unlocking.bind
      · exact Unlocking.orRaise (by decide) _
      · intro first
        exact Unlocking.ite (Unlocking.pure entry.1) ih

theorem unlocking_getUserOf (capability pwd : String) : Unlocking (getUserOf capability pwd) :=
  Unlocking.read.bind fun _ => unlocking_findUser capability _ _

theorem unlocking_deleteUser (name : String) : Unlocking (deleteUser name) := by
  apply Unlocking.ite
  · exact Unlocking.pure false
  · apply Unlocking.bind Unlocking.read
    intro manager
    apply Unlocking.ite
    · exact (Unlocking.write _).bind fun _ => Unlocking.pure true
    · exact Unlocking.raise (by decide)

theorem unlocking_deleteUnlisted (current : List (String × Bool)) :
    Unlocking (deleteUnlisted current) := by
  induction current with
  | nil => exact Unlocking.pure ()
  | cons entry rest ih =>
      apply Unlocking.ite
      · exact ih
      · exact (unlocking_deleteUser entry.1).bind fun _ => ih

theorem unlocking_readUsers (entries : List (String × String)) (current : SortedMap String Bool) :
    Unlocking (readUsers entries current) := by
  induction entries generalizing current with
  | nil => exact Unlocking.pure ()
  | cons entry rest ih =>
      apply Unlocking.bind (Unlocking.write _)
      intro _
      apply Unlocking.bind Unlocking.read
      intro manager
      exact (unlocking_deleteUnlisted _).bind fun _ => ih _

theorem unlocking_uploadUsers (body : String) (res : MMessage) :
    Unlocking (uploadUsers readJson body res) := by
  apply Unlocking.bind
  · exact Unlocking.orRaise (by decide) _
  · intro treeParse
    apply Unlocking.bind (unlocking_readUsers treeParse SortedMap.empty)
    intro _
    exact Unlocking.read.bind fun _ => Unlocking.pure _

theorem unlocking_execUpload (page body : String) :
    Unlocking (execUpload readJson page body) :=
  Unlocking.ite (unlocking_uploadUsers readJson body res) (Unlocking.pure res)

/-- The only addition left has no name, and fails before it takes the lock. -/
theorem unlocking_execAdd {params : List String} (body : String)
    (hadds : ¬(Request.set params body).Adds) (res : MMessage) :
    Unlocking (execAdd readJson params body res) := by
  unfold execAdd
  split
  · rename_i first second value
    have hvalue : value = "" := by
      by_contra hne
      exact hadds ⟨rfl, hne⟩
    rw [hvalue]
    exact Unlocking.raise (by decide)
  · exact Unlocking.pure _

theorem fault_underLock_of_unlocking {σ α : Type} {body : Call σ α} (h : Unlocking body)
    {service : Service σ} (hfree : service.locked = false) :
    (underLock body).fault service ≠ some .blocked := by
  rw [fault_underLock hfree]
  exact (h _).2

/-- An addition waits for the lock that its own handler holds. -/
theorem execSet_of_adds (first second : String) {value : String} (hvalue : value ≠ "")
    (body : String) (manager : AuthManager) :
    execSet readJson [first, second, "Users", value] body ⟨false, manager⟩ =
      .error .blocked ⟨true, manager⟩ := by
  have hpiece : (NameList.init [] value '.').head? = some _ := NameList.head?_init hvalue '.'
  simp [execSet, underLock, execUpload, execAdd, firstPiece, hpiece, orRaise, addUser]

theorem fault_handle_of_not_adds {service : Service AuthManager} (hfree : service.locked = false)
    {request : Request} (hadds : ¬request.Adds) :
    (handle readJson request).fault service ≠ some .blocked := by
  cases request with
  | get params =>
      apply fault_underLock_of_unlocking _ hfree
      split
      · exact Unlocking.read.bind fun _ => Unlocking.pure _
      · apply (unlocking_firstPiece _).bind
        intro name
        apply (Unlocking.write _).bind
        intro _
        exact Unlocking.read.bind fun _ => Unlocking.pure _
      · exact Unlocking.pure _
  | check params =>
      apply fault_underLock_of_unlocking _ hfree
      split
      · apply (unlocking_getUserOf _ _).bind
        intro answer
        exact Unlocking.read.bind fun _ => Unlocking.pure _
      · exact Unlocking.pure _
  | set params body =>
      apply fault_underLock_of_unlocking _ hfree
      split
      · exact Unlocking.pure _
      · apply Unlocking.bind (unlocking_execUpload readJson _ body)
        exact unlocking_execAdd readJson body hadds

theorem locked_serve {service after : Service AuthManager} {request : Request}
    (hfree : service.locked = false)
    (hblocked : (handle readJson request).fault service ≠ some .blocked)
    (hserve : serve readJson service request = some after) : after.locked = false := by
  rw [serve] at hserve
  split at hserve
  · exact absurd hserve.symm (Option.some_ne_none after)
  · rename_i hundefined
    rw [← Option.some.inj hserve]
    cases request <;> exact locked_final_underLock hfree hblocked hundefined

theorem locksOnce_iff_request {service : Service AuthManager} (hfree : service.locked = false)
    (request : Request) : LocksOnce readJson service request ↔ ¬request.Adds := by
  constructor
  · rintro ⟨hblocked, _⟩ hadds
    cases request with
    | set params body =>
        match params, hadds with
        | [first, second, _, value], ⟨rfl, hvalue⟩ =>
            obtain ⟨locked, manager⟩ := service
            obtain rfl : locked = false := hfree
            apply hblocked
            rw [handle, fault, execSet_of_adds readJson first second hvalue body manager]
    | get params => exact hadds
    | check params => exact hadds
  · intro hadds
    have hblocked := fault_handle_of_not_adds readJson hfree hadds
    exact ⟨hblocked, fun after hserve => locked_serve readJson hfree hblocked hserve⟩

/-- A run of requests takes the lock once for each request and gives it back exactly
when no request posts a new user. -/
theorem locksOnce_iff (manager : AuthManager) (requests : List Request) :
    Machine.Along (serve readJson) (LocksOnce readJson) ⟨false, manager⟩ requests ↔
      Machine.Along (serve readJson) (fun _ request => ¬request.Adds) ⟨false, manager⟩
        requests := by
  apply Machine.along_iff_of_guarded (I := fun service => service.locked = false)
  · intro service request hfree
    exact locksOnce_iff_request readJson hfree request
  · intro service request after hfree hadds hserve
    exact locked_serve readJson hfree (fault_handle_of_not_adds readJson hfree hadds) hserve
  · rfl

/-- A new user is posted to a service without users. -/
theorem not_locksOnce_newUser :
    ¬Machine.Along (serve fun _ => none) (LocksOnce fun _ => none)
      ⟨false, init ⟨"authmanager", [], none, none⟩ SortedMap.empty none⟩
      [.set ["horus-ws", "Authmanager", "Users", "bob.json"] ""] := by
  rintro ⟨⟨hblocked, _⟩, _⟩
  apply hblocked
  rw [handle, fault, execSet_of_adds (fun _ => none) "horus-ws" "Authmanager" (by decide)]

end Hat.AuthManager
