import Hat.Minilibs.MParams

/-!
# External names of sensors

The alarm manager and the automatism manager name a sensor by the first part of its name and
the number in its external name, filled up with zeros to three digits.  The digits are
collected from the back and never from the first place, so the number keeps its order only
where it reads the same in both directions.
-/

namespace Hat

/-- No string is longer. -/
def maxSize : ℕ := 2 ^ 63 - 1

namespace ExternalName

def isDigit (c : Char) : Bool :=
  c = '0' || c = '1' || c = '2' || c = '3' || c = '4' || c = '5' || c = '6' || c = '7' ||
    c = '8' || c = '9'

/-- The letter in a place; behind the last one stands a zero byte. -/
def letterAt (text : List Char) (i : ℕ) : Char := text.getD i '\x00'

/-- The loop over the external name, from place `i` down to the place 1. -/
def rnumber (ecname : List Char) : ℕ → List Char
  | 0 => []
  | i + 1 =>
      (if isDigit (letterAt ecname (i + 1)) then [letterAt ecname (i + 1)] else []) ++
        rnumber ecname i

/-- The difference `3 - rnumber.size()` of two numbers without a sign. -/
def missing (size : ℕ) : ℕ := (3 - BitVec.ofNat 64 size).toNat

/-- The zeros that are appended.  Appending more than a string can hold is an exception. -/
def zeros (size : ℕ) : Option (List Char) :=
  if size ≤ maxSize ∧ missing size ≤ maxSize then some (List.replicate (missing size) '0')
  else none

def mkExternalName (mode : ℤ) (sname ecname : String) : Option String :=
  match NameList.init [] sname '_' with
  | first :: second :: _ =>
      if mode = 0 then some (first ++ "_000" ++ second)
      else if 0 < mode then
        let digits := rnumber ecname.toList ecname.toList.length
        (zeros digits.length).map fun front => first ++ "_" ++ String.ofList (front ++ digits)
      else some ""
  | _ => some ""

end ExternalName

def AlarmManager.mkExternalName (mode : ℤ) (sname ecname : String) : Option String :=
  ExternalName.mkExternalName mode sname ecname

def AutomatismManager.mkExternalName (mode : ℤ) (sname ecname : String) : Option String :=
  ExternalName.mkExternalName mode sname ecname

namespace ExternalName

open Hat.Hsrv

/-- The digits of an external name in their order. -/
def number (ecname : String) : List Char := ecname.toList.filter isDigit

/-- A number filled up with zeros on the left to three places. -/
def padded (digits : List Char) : List Char :=
  List.replicate (3 - digits.length) '0' ++ digits

/-- Two sensors that share a first part are named by their numbers, and so told apart where
these are different and have up to three digits. -/
structure TellsApart (mk : ℤ → String → String → Option String) (mode : ℤ)
    (sname part ecname other : String) : Prop where
  named : mk mode sname ecname = some (part ++ "_" ++ String.ofList (padded (number ecname)))
  namedOther : mk mode sname other = some (part ++ "_" ++ String.ofList (padded (number other)))
  apart : (number ecname).length ≤ 3 → (number other).length ≤ 3 →
    digitsValue (number ecname) ≠ digitsValue (number other) →
    mk mode sname ecname ≠ mk mode sname other

/-- An external name whose number reads the same from the back: it has at most three digits,
the first letter is no digit but zero, and the digits behind it are a palindrome. -/
structure Reversible (ecname : String) : Prop where
  few : (number ecname).length ≤ 3
  first : ∀ c, ecname.toList.head? = some c → isDigit c → c = '0'
  palindrome : (ecname.toList.tail.filter isDigit).reverse = ecname.toList.tail.filter isDigit

theorem rnumber_cons (c : Char) (text : List Char) (i : ℕ) :
    rnumber (c :: text) (i + 1) =
      rnumber text i ++ if isDigit (letterAt text 0) then [letterAt text 0] else [] := by
  induction i with
  | zero =>
      rw [rnumber, rnumber, rnumber, List.append_nil, List.nil_append]
      rfl
  | succ i ih =>
      rw [rnumber, ih, rnumber, List.append_assoc]
      rfl

/-- The digits behind the first letter, from the back. -/
theorem rnumber_eq (text : List Char) :
    rnumber text text.length = (text.tail.filter isDigit).reverse := by
  induction text with
  | nil => rfl
  | cons c rest ih =>
      rw [List.length_cons, rnumber_cons, ih, List.tail_cons]
      cases rest with
      | nil => rfl
      | cons d rest =>
          rw [List.tail_cons, List.filter_cons]
          change _ ++ (if isDigit d then [d] else []) = _
          split_ifs
          · rw [List.reverse_cons]
          · rw [List.append_nil]

theorem missing_of_le {size : ℕ} (hsize : size ≤ 3) : missing size = 3 - size := by
  rw [missing]
  bv_omega

theorem maxSize_lt_missing {size : ℕ} (hmany : 3 < size) (hsize : size ≤ maxSize) :
    maxSize < missing size := by
  rw [maxSize] at hsize ⊢
  rw [missing]
  bv_omega

theorem zeros_of_le {size : ℕ} (hsize : size ≤ 3) :
    zeros size = some (List.replicate (3 - size) '0') := by
  rw [zeros, missing_of_le hsize, if_pos]
  rw [maxSize]
  omega

theorem zeros_of_lt {size : ℕ} (hmany : 3 < size) : zeros size = none := by
  rw [zeros, if_neg]
  rintro ⟨hsize, hmissing⟩
  exact absurd hmissing (not_le.mpr (maxSize_lt_missing hmany hsize))

/-! ## Numbers that are told apart -/

/-- Behind a first digit, the digits from the back are the padded number if that digit is
a zero that stands where a zero is filled in. -/
theorem replicate_append_reverse_iff {c : Char} {digits : List Char} (hfew : digits.length ≤ 3) :
    List.replicate (3 - digits.length) '0' ++ digits.reverse = padded (c :: digits) ↔
      digits.length ≤ 2 ∧ c = '0' ∧ digits.reverse = digits := by
  rw [padded, List.length_cons]
  by_cases hlength : digits.length ≤ 2
  · have hplaces : 3 - digits.length = (3 - (digits.length + 1)) + 1 := by
      omega
    rw [hplaces, List.replicate_succ', List.append_assoc, List.append_cancel_left_eq,
      List.singleton_append, List.cons.injEq]
    exact ⟨fun h => ⟨hlength, h.1.symm, h.2⟩, fun h => ⟨h.2.1.symm, h.2.2⟩⟩
  · refine ⟨fun heq => ?_, fun h => absurd h.1 hlength⟩
    have hlengths := congrArg List.length heq
    simp only [List.length_append, List.length_replicate, List.length_reverse,
      List.length_cons] at hlengths
    omega

/-- The collected digits with their zeros are the padded number. -/
theorem zeros_append_rnumber_iff (ecname : String) :
    (zeros (rnumber ecname.toList ecname.toList.length).length).map
        (· ++ rnumber ecname.toList ecname.toList.length) = some (padded (number ecname)) ↔
      Reversible ecname := by
  rw [rnumber_eq, List.length_reverse]
  rcases Nat.lt_or_ge 3 (ecname.toList.tail.filter isDigit).length with hmany | hfew
  · rw [zeros_of_lt hmany, Option.map_none]
    refine iff_of_false (Option.some_ne_none _).symm fun h => ?_
    have hsub : (ecname.toList.tail.filter isDigit).length ≤ (number ecname).length :=
      ((List.tail_sublist _).filter _).length_le
    exact absurd (hsub.trans h.few) (not_le.mpr hmany)
  · rw [zeros_of_le hfew, Option.map_some, Option.some.injEq]
    cases hletters : ecname.toList with
    | nil =>
        refine iff_of_true ?_ ⟨?_, ?_, ?_⟩ <;> simp [number, padded, hletters]
    | cons c rest =>
        rw [hletters, List.tail_cons] at hfew
        by_cases hc : isDigit c
        · have hnumber : number ecname = c :: rest.filter isDigit := by
            rw [number, hletters, List.filter_cons_of_pos hc]
          rw [hnumber, List.tail_cons, replicate_append_reverse_iff hfew]
          constructor
          · rintro ⟨hlength, hzero, hpalindrome⟩
            refine ⟨?_, fun d hd _ => ?_, ?_⟩
            · rw [hnumber, List.length_cons]
              omega
            · rw [hletters, List.head?_cons, Option.some.injEq] at hd
              rw [← hd, hzero]
            · rw [hletters]
              exact hpalindrome
          · intro h
            have hlength := h.few
            have hpalindrome := h.palindrome
            rw [hnumber, List.length_cons] at hlength
            rw [hletters, List.tail_cons] at hpalindrome
            exact ⟨by omega, h.first c (by rw [hletters, List.head?_cons]) hc, hpalindrome⟩
        · have hnumber : number ecname = rest.filter isDigit := by
            rw [number, hletters, List.filter_cons_of_neg hc]
          rw [hnumber, List.tail_cons, padded, List.append_cancel_left_eq]
          constructor
          · intro hpalindrome
            refine ⟨hnumber ▸ hfew, fun d hd hdigit => ?_, ?_⟩
            · rw [hletters, List.head?_cons, Option.some.injEq] at hd
              exact absurd (hd ▸ hdigit) hc
            · rw [hletters]
              exact hpalindrome
          · intro h
            have hpalindrome := h.palindrome
            rw [hletters, List.tail_cons] at hpalindrome
            exact hpalindrome

theorem digitsValue_padded (digits : List Char) :
    digitsValue (padded digits) = digitsValue digits := by
  rw [padded, digitsValue, List.foldl_append]
  have hzeros : ∀ count : ℕ,
      (List.replicate count '0').foldl (fun value c => 10 * value + (c.toNat - 48)) 0 = 0 := by
    intro count
    induction count with
    | zero => rfl
    | succ count ih => exact ih
  rw [hzeros, digitsValue]

theorem eq_of_append_ofList_eq {front : String} {chars others : List Char}
    (h : front ++ String.ofList chars = front ++ String.ofList others) : chars = others := by
  have hlists := congrArg String.toList h
  rw [String.toList_append, String.toList_append, String.toList_ofList,
    String.toList_ofList] at hlists
  exact List.append_cancel_left hlists

/-- The name is the first part with the padded number exactly for reversible ones. -/
theorem mkExternalName_eq_iff {mode : ℤ} (hmode : 0 < mode) {sname first second : String}
    {rest : List String} (hsname : NameList.init [] sname '_' = first :: second :: rest)
    (ecname : String) :
    mkExternalName mode sname ecname =
        some (first ++ "_" ++ String.ofList (padded (number ecname))) ↔
      Reversible ecname := by
  rw [← zeros_append_rnumber_iff, mkExternalName, hsname]
  simp only [if_neg (ne_of_gt hmode), if_pos hmode]
  cases zeros (rnumber ecname.toList ecname.toList.length).length with
  | none => exact iff_of_false (fun h => nomatch h) (fun h => nomatch h)
  | some front =>
      rw [Option.map_some, Option.map_some, Option.some.injEq, Option.some.injEq]
      exact ⟨eq_of_append_ofList_eq, fun h => by rw [h]⟩

/-- Both managers name sensors by their numbers, and tell them apart by these, exactly where
the numbers read the same from the back. -/
theorem tellsApart_iff {mode : ℤ} (hmode : 0 < mode) {sname first second : String}
    {rest : List String} (hsname : NameList.init [] sname '_' = first :: second :: rest)
    (ecname other : String) :
    (TellsApart AlarmManager.mkExternalName mode sname first ecname other ↔
      Reversible ecname ∧ Reversible other) ∧
    (TellsApart AutomatismManager.mkExternalName mode sname first ecname other ↔
      Reversible ecname ∧ Reversible other) := by
  have hiff : TellsApart mkExternalName mode sname first ecname other ↔
      Reversible ecname ∧ Reversible other := by
    rw [← mkExternalName_eq_iff hmode hsname, ← mkExternalName_eq_iff hmode hsname]
    refine ⟨fun h => ⟨h.named, h.namedOther⟩, fun ⟨hnamed, hother⟩ => ⟨hnamed, hother, ?_⟩⟩
    intro _ _ hnumbers hsame
    rw [hnamed, hother, Option.some.injEq] at hsame
    have hvalue := congrArg digitsValue (eq_of_append_ofList_eq hsame)
    rw [digitsValue_padded, digitsValue_padded] at hvalue
    exact hnumbers hvalue
  exact ⟨hiff, hiff⟩

theorem tellsApart_doors :
    TellsApart AlarmManager.mkExternalName 1 "TE_1" "TE" "door7" "door11" ∧
      TellsApart AutomatismManager.mkExternalName 1 "TE_1" "TE" "door7" "door11" := by
  have hsname : NameList.init [] "TE_1" '_' = ["TE", "1"] := by
    decide +kernel
  have hfirst : ∀ digits c, ("door" ++ digits).toList.head? = some c → isDigit c → c = '0' := by
    intro digits c hc hdigit
    obtain rfl : 'd' = c := by
      simpa using hc
    exact absurd hdigit (by decide)
  have hseven : Reversible "door7" := ⟨by decide +kernel, hfirst "7", by decide +kernel⟩
  have heleven : Reversible "door11" := ⟨by decide +kernel, hfirst "11", by decide +kernel⟩
  have hiff := tellsApart_iff (show (0 : ℤ) < 1 by decide) hsname "door7" "door11"
  exact ⟨hiff.1.mpr ⟨hseven, heleven⟩, hiff.2.mpr ⟨hseven, heleven⟩⟩

/-- Two sensors with the numbers 1 and 10 get one name. -/
theorem not_tellsApart_doors :
    ¬TellsApart AlarmManager.mkExternalName 1 "TE_1" "TE" "door1" "door10" ∧
      ¬TellsApart AutomatismManager.mkExternalName 1 "TE_1" "TE" "door1" "door10" := by
  have hother : ExternalName.mkExternalName 1 "TE_1" "door10" = some "TE_001" := by
    decide +kernel
  have hne : some "TE_001" ≠
      some ("TE" ++ "_" ++ String.ofList (padded (number "door10"))) := by
    decide +kernel
  exact ⟨fun h => hne (hother.symm.trans h.namedOther),
    fun h => hne (hother.symm.trans h.namedOther)⟩

end ExternalName

end Hat
