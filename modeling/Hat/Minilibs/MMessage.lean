import Hat.Core.SortedMap
import Hat.Minilibs.Hsrv
import Mathlib.Data.String.Basic

/-!
# Messages

A field of a message is either one string or a list of strings.  The type tag of
`MstringList` decides between them; a tagged scalar always holds its one value,
so the two cases are the constructors of the model.
-/

namespace Hat

open Hat.Hsrv

inductive MstringList
  | mstring (value : String)
  | mstringList (items : List String)
  deriving DecidableEq

namespace MstringList

def getString : MstringList → String
  | mstring value => value
  | mstringList items => items.headD ""

def texts : MstringList → List String
  | mstring value => [value]
  | mstringList items => items

/-- A scalar is overwritten, a list grows. -/
def add (value : String) : MstringList → MstringList
  | mstring _ => mstring value
  | mstringList items => mstringList (items ++ [value])

end MstringList

structure MMessage where
  mtype : String
  msubtype : String
  priority : ℤ
  fields : SortedMap String MstringList
  deriving DecidableEq

namespace MMessage

def mk2 (mtype msubtype : String) : MMessage := ⟨mtype, msubtype, 0, SortedMap.empty⟩

def add (field value : String) (message : MMessage) : MMessage :=
  match message.fields.find? field with
  | some list => { message with fields := message.fields.insert field (list.add value) }
  | none => { message with fields := message.fields.insert field (.mstring value) }

/-- A scalar under the same name is left alone. -/
def addList (field : String) (values : List String) (message : MMessage) : MMessage :=
  match message.fields.find? field with
  | some (.mstring _) => message
  | some (.mstringList items) =>
      { message with fields := message.fields.insert field (.mstringList (items ++ values)) }
  | none => { message with fields := message.fields.insert field (.mstringList values) }

def getString (field : String) (message : MMessage) : String :=
  match message.fields.find? field with
  | some list => list.getString
  | none => ""

def getList (field : String) (message : MMessage) : List String :=
  match message.fields.find? field with
  | some (.mstringList items) => items
  | _ => []

def getDouble (env : Env) (field : String) (message : MMessage) : ℚ :=
  match message.fields.find? field with
  | some list => a2double env list.getString
  | none => 0

def addDouble (field : String) (value : ℚ) (message : MMessage) : MMessage :=
  message.add field (double2a value)

@[simp]
theorem mtype_add (field value : String) (message : MMessage) :
    (message.add field value).mtype = message.mtype := by
  simp only [add]
  split <;> rfl

@[simp]
theorem msubtype_add (field value : String) (message : MMessage) :
    (message.add field value).msubtype = message.msubtype := by
  simp only [add]
  split <;> rfl

theorem priority_add (field value : String) (message : MMessage) :
    (message.add field value).priority = message.priority := by
  simp only [add]
  split <;> rfl

@[simp]
theorem mtype_addList (field : String) (values : List String) (message : MMessage) :
    (message.addList field values).mtype = message.mtype := by
  simp only [addList]
  split <;> rfl

@[simp]
theorem msubtype_addList (field : String) (values : List String) (message : MMessage) :
    (message.addList field values).msubtype = message.msubtype := by
  simp only [addList]
  split <;> rfl

/-- The field an `add` leaves behind. -/
def added (value : String) : Option MstringList → MstringList
  | some list => list.add value
  | none => .mstring value

theorem find?_add (field other value : String) (message : MMessage) :
    (message.add field value).fields.find? other =
      if field = other then some (added value (message.fields.find? field))
      else message.fields.find? other := by
  simp only [add]
  cases message.fields.find? field <;> exact SortedMap.find?_insert _ _ _ _

theorem find?_add_of_ne {field other : String} (value : String) (message : MMessage)
    (hne : field ≠ other) :
    (message.add field value).fields.find? other = message.fields.find? other := by
  rw [find?_add, if_neg hne]

theorem find?_addList_of_ne {field other : String} (values : List String) (message : MMessage)
    (hne : field ≠ other) :
    (message.addList field values).fields.find? other = message.fields.find? other := by
  simp only [addList]
  split
  · rfl
  · exact SortedMap.find?_insert_of_ne _ _ hne
  · exact SortedMap.find?_insert_of_ne _ _ hne

theorem getString_add_of_ne {field other : String} (value : String) (message : MMessage)
    (hne : field ≠ other) :
    (message.add field value).getString other = message.getString other := by
  simp only [getString, find?_add_of_ne value message hne]

theorem getString_addList_of_ne {field other : String} (values : List String)
    (message : MMessage) (hne : field ≠ other) :
    (message.addList field values).getString other = message.getString other := by
  simp only [getString, find?_addList_of_ne values message hne]

theorem getList_add_of_ne {field other : String} (value : String) (message : MMessage)
    (hne : field ≠ other) : (message.add field value).getList other = message.getList other := by
  simp only [getList, find?_add_of_ne value message hne]

/-- A field that is not a list reads as the value last added. -/
theorem getString_add_self (field value : String) (message : MMessage)
    (hscalar : ∀ items, message.fields.find? field ≠ some (.mstringList items)) :
    (message.add field value).getString field = value := by
  simp only [getString, find?_add, if_true]
  cases hfield : message.fields.find? field with
  | none => rfl
  | some list =>
      cases list with
      | mstring _ => rfl
      | mstringList items => exact absurd hfield (hscalar items)

/-- A list under a new name is read back. -/
theorem getList_addList_self {field : String} (values : List String) {message : MMessage}
    (hnew : message.fields.find? field = none) :
    (message.addList field values).getList field = values := by
  simp only [getList, addList, hnew, SortedMap.find?_insert_self]

end MMessage

end Hat
