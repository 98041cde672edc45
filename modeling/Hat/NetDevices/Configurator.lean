import Hat.Core.GrayCode
import Hat.Minilibs.MParams
import Mathlib.Logic.Function.Basic

/-!
# The control file of a device

A cyclic device is given a control table that leads through all states of its components.
The table follows a Gray code, which is built in place: each round mirrors what there is and
puts one more component in front.
-/

namespace Hat.Configurator

open Hat.Hsrv

/-- The greatest `int`. -/
def intMax : ℕ := 2147483647

/-- The loop that mirrors: `i` goes up to `n` while `j`, one below the first argument, goes
down to zero. -/
def mirror (n : ℕ) : ℕ → ℕ → (ℕ → String) → ℕ → String
  | 0, _, grey => grey
  | j + 1, i, grey =>
      if i < n then mirror n j (i + 1) (Function.update grey i (grey j)) else grey

/-- The loops that put a component in front, from an index on. -/
def putFront (front : String) : ℕ → ℕ → (ℕ → String) → ℕ → String
  | 0, _, grey => grey
  | count + 1, i, grey =>
      putFront front count (i + 1) (Function.update grey i (front ++ grey i))

/-- The outer loop, for as many rounds as are given. -/
def doubling (size : ℕ) : ℕ → ℕ → (ℕ → String) → Option (ℕ × (ℕ → String))
  | 0, _, _ => none
  | rounds + 1, n, grey =>
      if n < size then
        let n := n * 2
        let grey := mirror n (n / 2) (n / 2) grey
        let grey := putFront "OFF+" (n / 2) 0 grey
        let grey := putFront "ON+" (n - n / 2) (n / 2) grey
        doubling size rounds n grey
      else some (n, grey)

/-- The first two of the codes, which stand there before the loop. -/
def firstTwo : ℕ → String
  | 0 => "OFF"
  | 1 => "ON"
  | _ => ""

/-- A power of two that is no `int` has no defined conversion to one; and without a component
there is no room for the first two codes. -/
def generateGrayCode (N : ℕ) (codes : List String) : Option (List String) :=
  if intMax < 2 ^ N then none
  else (doubling (2 ^ N) N 2 firstTwo).map fun table =>
    codes ++ (List.range table.1).map table.2

/-- The attribute that leads from a code to the next, and from the last to the first. -/
def graySuccessor (gray : List String) (i : ℕ) : MAttribute :=
  ⟨gray.getD i "", "control",
    if i < gray.length - 1 then gray.getD (i + 1) "" else gray.getD 0 ""⟩

/-- The attributes of the control table, by the type of the device. -/
def controlAttributes (devtype : String) (n : ℕ) : Option (List MAttribute) :=
  if devtype = "onoff" then
    let current := NameList.joined (List.replicate n "OFF") '+'
    let next := NameList.joined (List.replicate n "ON") '+'
    some [⟨current, "control", next⟩, ⟨next, "control", current⟩]
  else if devtype = "cyclic" then
    (generateGrayCode n []).map fun gray => (List.range gray.length).map (graySuccessor gray)
  else some []

def attributeText (attr : MAttribute) : String :=
  "<attribute name=\"" ++ attr.name ++ "\" category=\"" ++ attr.category ++ "\" value=\"" ++
    attr.value ++ "\"/>"

/-- The text of the control file: the table takes the place of `$CONTROL` in the template. -/
def mkControl (ctempl devtype : String) (n : ℕ) : Option String :=
  if devtype = "onoff" ∨ devtype = "cyclic" then
    (controlAttributes devtype n).map fun attributes =>
      strReplace ctempl "$CONTROL" (NameList.joined (attributes.map attributeText) '\n')
  else some ctempl

theorem mirror_apply (n j i : ℕ) (hij : i + j = n) (hji : j ≤ i) (grey : ℕ → String) (k : ℕ) :
    mirror n j i grey k = if i ≤ k ∧ k < n then grey (n - 1 - k) else grey k := by
  induction j generalizing i grey with
  | zero =>
      rw [mirror, if_neg (by omega)]
  | succ j ih =>
      rw [mirror, if_pos (by omega), ih (i + 1) (by omega) (by omega)]
      by_cases hk : i + 1 ≤ k ∧ k < n
      · rw [if_pos hk, if_pos (by omega), Function.update_of_ne (by omega)]
      · rw [if_neg hk]
        by_cases hki : k = i
        · rw [hki, Function.update_self, if_pos (by omega), show n - 1 - i = j by omega]
        · rw [Function.update_of_ne hki, if_neg (by omega)]

theorem putFront_apply (front : String) (count i : ℕ) (grey : ℕ → String) (k : ℕ) :
    putFront front count i grey k =
      if i ≤ k ∧ k < i + count then front ++ grey k else grey k := by
  induction count generalizing i grey with
  | zero => rw [putFront, if_neg (by omega)]
  | succ count ih =>
      rw [putFront, ih]
      by_cases hki : k = i
      · rw [hki, if_neg (by omega), if_pos (by omega), Function.update_self]
      · rw [Function.update_of_ne hki]
        by_cases hk : i + 1 ≤ k ∧ k < i + 1 + count
        · rw [if_pos hk, if_pos (by omega)]
        · rw [if_neg hk, if_neg (by omega)]

/-- The table of the codes of a number of components. -/
def texts (n : ℕ) : List String :=
  (GrayCode.reflected "OFF" "ON" n).map fun components => NameList.joined components '+'

theorem length_texts (n : ℕ) : (texts n).length = 2 ^ n := by
  rw [texts, List.length_map, GrayCode.length_reflected]

/-- One more component is put in front of the codes. -/
theorem texts_succ {n : ℕ} (hn : n ≠ 0) :
    texts (n + 1) = (texts n).map ("OFF+" ++ ·) ++ (texts n).reverse.map ("ON+" ++ ·) := by
  have hfront : ∀ front components, components ∈ GrayCode.reflected "OFF" "ON" n →
      NameList.joined (front :: components) '+' =
        front ++ "+" ++ NameList.joined components '+' := by
    intro front components hmem
    have hlength := ((GrayCode.mem_reflected_iff "OFF" "ON" n components).mp hmem).1
    exact NameList.joined_cons front (List.ne_nil_of_length_pos (by omega)) '+'
  rw [texts, GrayCode.reflected, List.map_append, List.map_map, List.map_map, texts,
    ← List.map_reverse, List.map_map, List.map_map]
  congr 1
  · exact List.map_congr_left fun components hmem => hfront "OFF" components hmem
  · exact List.map_congr_left fun components hmem =>
      hfront "ON" components (List.mem_reverse.mp hmem)

/-- A round of the outer loop mirrors the codes and puts a component in front of them. -/
theorem map_round (h : ℕ) (grey : ℕ → String) :
    (List.range (h * 2)).map (putFront "ON+" (h * 2 - h * 2 / 2) (h * 2 / 2)
        (putFront "OFF+" (h * 2 / 2) 0 (mirror (h * 2) (h * 2 / 2) (h * 2 / 2) grey))) =
      ((List.range h).map grey).map ("OFF+" ++ ·) ++
        ((List.range h).map grey).reverse.map ("ON+" ++ ·) := by
  have hhalf : h * 2 / 2 = h := by omega
  rw [hhalf, Nat.mul_two, Nat.add_sub_cancel, List.range_add, List.map_append]
  congr 1
  · rw [List.map_map]
    refine List.map_congr_left fun i hi => ?_
    have hlt := List.mem_range.mp hi
    rw [putFront_apply, if_neg (by omega), putFront_apply, if_pos (by omega),
      mirror_apply _ _ _ rfl le_rfl, if_neg (by omega)]
    rfl
  · rw [List.map_map, ← List.map_reverse, List.map_map, List.range_eq_range',
      List.reverse_range', List.map_map, ← List.range_eq_range']
    refine List.map_congr_left fun i hi => ?_
    have hlt := List.mem_range.mp hi
    simp only [Function.comp_apply]
    rw [putFront_apply, if_pos (by omega), putFront_apply, if_neg (by omega),
      mirror_apply _ _ _ rfl le_rfl, if_pos (by omega)]
    congr 2
    omega

/-- The outer loop ends with the codes of all components. -/
theorem doubling_eq {rounds n N : ℕ} (hrounds : n + rounds = N + 1) (hn : n ≠ 0)
    (hle : n ≤ N) {grey : ℕ → String} (hgrey : (List.range (2 ^ n)).map grey = texts n) :
    ∃ final, doubling (2 ^ N) rounds (2 ^ n) grey = some (2 ^ N, final) ∧
      (List.range (2 ^ N)).map final = texts N := by
  induction rounds generalizing n grey with
  | zero => exact absurd hrounds (by omega)
  | succ rounds ih =>
      rw [doubling]
      by_cases hlt : n < N
      · have hpow : 2 ^ n < 2 ^ N := Nat.pow_lt_pow_right (by decide) hlt
        rw [if_pos hpow]
        have hround := map_round (2 ^ n) grey
        rw [hgrey, ← texts_succ hn, ← Nat.pow_succ] at hround
        exact ih (by omega) (Nat.succ_ne_zero n) (by omega) hround
      · obtain rfl : n = N := by omega
        rw [if_neg (lt_irrefl _)]
        exact ⟨grey, rfl, hgrey⟩

/-- The codes that are appended are those of the reflected Gray code. -/
theorem generateGrayCode_eq {N : ℕ} (hN : 1 ≤ N) (hint : 2 ^ N ≤ intMax) (codes : List String) :
    generateGrayCode N codes = some (codes ++ texts N) := by
  have hfirst : (List.range (2 ^ 1)).map firstTwo = texts 1 := by decide
  obtain ⟨final, hdoubling, hfinal⟩ :=
    doubling_eq (by omega : 1 + N = N + 1) one_ne_zero hN hfirst
  rw [generateGrayCode, if_neg (not_lt.mpr hint)]
  rw [Nat.pow_one] at hdoubling
  rw [hdoubling, Option.map_some, hfinal]

end Hat.Configurator
