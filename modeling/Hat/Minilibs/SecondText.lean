import Hat.Minilibs.Hsrv

/-!
# Times of day in the width of an `int`

`string2second` multiplies and adds in an `int`, and takes any text.  Here every operation is
checked, so that a text has a result exactly when none of them overflows.
-/

namespace Hat.Hsrv

/-- A value that an `int` can hold. -/
def FitsInt (value : ℤ) : Prop := -2147483648 ≤ value ∧ value ≤ 2147483647

instance : DecidablePred FitsInt := fun _ => inferInstanceAs (Decidable (_ ∧ _))

def toInt (value : ℤ) : Option ℤ := if FitsInt value then some value else none

/-- `sec += atoi(field) * factor`, skipped for an empty field. -/
def addField (field : List Char) (factor sec : ℤ) : Option ℤ :=
  if field = [] then some sec
  else do
    let value ← toInt (atoi field)
    let product ← toInt (value * factor)
    toInt (sec + product)

def hourField (text : String) : List Char := text.toList.takeWhile fun c => !isFieldEnd c

def afterHour (text : String) : List Char :=
  (text.toList.dropWhile fun c => !isFieldEnd c).drop 1

def minuteField (text : String) : List Char := (afterHour text).takeWhile fun c => !isFieldEnd c

def secondField (text : String) : List Char :=
  (((afterHour text).dropWhile fun c => !isFieldEnd c).drop 1).takeWhile fun c => !isFieldEnd c

/-- `string2second` with every operation checked. -/
def checkedSecond (text : String) : Option ℤ := do
  let sec ← addField (hourField text) 3600 0
  let sec ← addField (minuteField text) 60 sec
  addField (secondField text) 1 sec

theorem string2second_eq (text : String) :
    string2second text =
      atoi (hourField text) * 3600 + atoi (minuteField text) * 60 + atoi (secondField text) := rfl

/-- The numbers of a text are small enough: the hours and the minutes on their own, and what
they add up to. -/
structure SmallFields (text : String) : Prop where
  hours : -596523 ≤ atoi (hourField text) ∧ atoi (hourField text) ≤ 596523
  minutes : -35791394 ≤ atoi (minuteField text) ∧ atoi (minuteField text) ≤ 35791394
  seconds : FitsInt (atoi (secondField text))
  hoursMinutes : FitsInt (atoi (hourField text) * 3600 + atoi (minuteField text) * 60)
  total : FitsInt (string2second text)

theorem toInt_bind_eq_some {value result : ℤ} {next : ℤ → Option ℤ} :
    (toInt value >>= next) = some result ↔ FitsInt value ∧ next value = some result := by
  rw [toInt]
  by_cases hfits : FitsInt value
  · simp [hfits]
  · simp [hfits]

theorem addField_eq_some {field : List Char} {factor sec result : ℤ} (hsec : FitsInt sec) :
    addField field factor sec = some result ↔
      FitsInt (atoi field) ∧ FitsInt (atoi field * factor) ∧
        FitsInt (sec + atoi field * factor) ∧ sec + atoi field * factor = result := by
  rw [addField]
  split
  · rename_i hempty
    have hzero : atoi [] = 0 := rfl
    have hfits : FitsInt 0 := by decide
    simp [hempty, hzero, hfits, hsec]
  · rw [toInt_bind_eq_some, toInt_bind_eq_some, toInt]
    by_cases hfits : FitsInt (sec + atoi field * factor)
    · simp [hfits]
    · simp [hfits]

theorem checkedSecond_eq_some {text : String} {result : ℤ} :
    checkedSecond text = some result ↔ SmallFields text ∧ string2second text = result := by
  have hbind : ∀ (first : Option ℤ) (next : ℤ → Option ℤ), (first >>= next) = some result ↔
      ∃ value, first = some value ∧ next value = some result := by
    intro first next
    exact Option.bind_eq_some_iff
  rw [checkedSecond, hbind, string2second_eq]
  constructor
  · rintro ⟨hours, hhours, hrest⟩
    rw [hbind] at hrest
    obtain ⟨minutes, hminutes, hseconds⟩ := hrest
    obtain ⟨_, hhour, hfirst, rfl⟩ := (addField_eq_some (by decide)).mp hhours
    obtain ⟨_, hminute, hsecond, rfl⟩ := (addField_eq_some hfirst).mp hminutes
    obtain ⟨hfits, _, htotal, rfl⟩ := (addField_eq_some hsecond).mp hseconds
    rw [zero_add, mul_one] at *
    refine ⟨⟨?_, ?_, hfits, hsecond, ?_⟩, rfl⟩
    · rw [FitsInt] at hhour
      omega
    · rw [FitsInt] at hminute
      omega
    · rwa [string2second_eq]
  · rintro ⟨hsmall, rfl⟩
    have hhours := hsmall.hours
    have hminutes := hsmall.minutes
    have htotal := hsmall.total
    rw [string2second_eq] at htotal
    have hfirst : FitsInt (0 + atoi (hourField text) * 3600) := by
      rw [FitsInt]
      omega
    refine ⟨_, (addField_eq_some (by decide)).mpr ⟨?_, ?_, hfirst, rfl⟩, ?_⟩
    · rw [FitsInt]
      omega
    · rw [FitsInt]
      omega
    rw [hbind]
    rw [zero_add] at hfirst ⊢
    refine ⟨_, (addField_eq_some hfirst).mpr ⟨?_, ?_, hsmall.hoursMinutes, rfl⟩, ?_⟩
    · rw [FitsInt]
      omega
    · rw [FitsInt]
      omega
    rw [addField_eq_some hsmall.hoursMinutes, mul_one]
    exact ⟨hsmall.seconds, hsmall.seconds, htotal, rfl⟩

/-- A text has checked seconds exactly when its fields are small. -/
theorem isSome_checkedSecond_iff (text : String) :
    (checkedSecond text).isSome = true ↔ SmallFields text := by
  rw [Option.isSome_iff_exists]
  constructor
  · rintro ⟨result, hresult⟩
    exact (checkedSecond_eq_some.mp hresult).1
  · intro hsmall
    exact ⟨string2second text, checkedSecond_eq_some.mpr ⟨hsmall, rfl⟩⟩

end Hat.Hsrv
