import Hat.Minilibs.Hsrv
import Mathlib.Tactic.Ring

/-!
# Numbers printed with five decimals

`double2a` prints a number in fixed notation and `a2double` reads it back: the reading is
the number rounded to five decimals, and rounding keeps the order.
-/

namespace Hat.Hsrv

theorem roundHalfEven_eq_or (value : ℚ) :
    roundHalfEven value = ⌊value⌋.toNat ∨ roundHalfEven value = ⌊value⌋.toNat + 1 := by
  simp only [roundHalfEven]
  split_ifs
  · exact Or.inl rfl
  · exact Or.inr rfl
  · exact Or.inl rfl
  · exact Or.inr rfl

theorem roundHalfEven_mono {low high : ℚ} (hle : low ≤ high) :
    roundHalfEven low ≤ roundHalfEven high := by
  have hfloor : ⌊low⌋.toNat ≤ ⌊high⌋.toNat := Int.toNat_le_toNat (Int.floor_le_floor hle)
  rcases hfloor.eq_or_lt with heq | hlt
  · -- From the same whole number the excess decides, and it grows with the number.
    simp only [roundHalfEven, heq]
    split_ifs
    all_goals first | omega | linarith
  · calc roundHalfEven low
      _ ≤ ⌊low⌋.toNat + 1 := by
          have := roundHalfEven_eq_or low
          omega
      _ ≤ ⌊high⌋.toNat := hlt
      _ ≤ roundHalfEven high := by
          have := roundHalfEven_eq_or high
          omega

/-- The number of the nearest five decimals. -/
def toFive (value : ℚ) : ℚ :=
  (if value < 0 then -1 else 1) * (roundHalfEven (|value| * 100000) : ℚ) / 100000

theorem toFive_of_nonneg {value : ℚ} (hvalue : 0 ≤ value) :
    toFive value = (roundHalfEven (value * 100000) : ℚ) / 100000 := by
  rw [toFive, if_neg (not_lt.mpr hvalue), abs_of_nonneg hvalue, one_mul]

theorem toFive_of_neg {value : ℚ} (hvalue : value < 0) :
    toFive value = -(roundHalfEven (-value * 100000) : ℚ) / 100000 := by
  rw [toFive, if_pos hvalue, abs_of_neg hvalue, neg_one_mul]

theorem toFive_mono {low high : ℚ} (hle : low ≤ high) : toFive low ≤ toFive high := by
  rcases lt_or_ge low 0 with hlow | hlow
  · rcases lt_or_ge high 0 with hhigh | hhigh
    · rw [toFive_of_neg hlow, toFive_of_neg hhigh]
      have hmono : roundHalfEven (-high * 100000) ≤ roundHalfEven (-low * 100000) :=
        roundHalfEven_mono (by linarith)
      have hcast : (roundHalfEven (-high * 100000) : ℚ) ≤ roundHalfEven (-low * 100000) :=
        Nat.cast_le.mpr hmono
      linarith
    · calc toFive low
        _ ≤ 0 := by
            rw [toFive_of_neg hlow]
            have : (0 : ℚ) ≤ roundHalfEven (-low * 100000) := Nat.cast_nonneg _
            linarith
        _ ≤ toFive high := by
            rw [toFive_of_nonneg hhigh]
            exact div_nonneg (Nat.cast_nonneg _) (by norm_num)
  · have hhigh : 0 ≤ high := hlow.trans hle
    rw [toFive_of_nonneg hlow, toFive_of_nonneg hhigh]
    have hmono : roundHalfEven (low * 100000) ≤ roundHalfEven (high * 100000) :=
      roundHalfEven_mono (by linarith)
    have hcast : (roundHalfEven (low * 100000) : ℚ) ≤ roundHalfEven (high * 100000) :=
      Nat.cast_le.mpr hmono
    linarith

theorem digitsValue_eq (digits : List Char) :
    digitsValue digits = Nat.ofDigitChars 10 digits 0 := rfl

theorem all_isDigit_toDigits (n : ℕ) : ∀ c ∈ Nat.toDigits 10 n, c.isDigit = true :=
  fun _ hc => Nat.isDigit_of_mem_toDigits (by decide) (by decide) hc

/-- The decimals: five digits, zeros in front. -/
def fiveDigits (n : ℕ) : List Char :=
  List.replicate (5 - (Nat.toDigits 10 n).length) '0' ++ Nat.toDigits 10 n

theorem all_isDigit_fiveDigits (n : ℕ) : ∀ c ∈ fiveDigits n, c.isDigit = true := by
  intro c hc
  rcases List.mem_append.mp hc with hzero | hdigit
  · rw [List.eq_of_mem_replicate hzero]
    rfl
  · exact all_isDigit_toDigits n c hdigit

theorem length_fiveDigits {n : ℕ} (hn : n < 100000) : (fiveDigits n).length = 5 := by
  have hlength : (Nat.toDigits 10 n).length ≤ 5 :=
    (Nat.length_toDigits_le_iff (by decide) (by decide)).mpr hn
  rw [fiveDigits, List.length_append, List.length_replicate]
  omega

/-- Digits of a whole part and of five decimals are the digits of the scaled number. -/
theorem digitsValue_whole_fiveDigits (whole : ℕ) {decimals : ℕ} (hdecimals : decimals < 100000) :
    digitsValue (Nat.toDigits 10 whole ++ fiveDigits decimals) = whole * 100000 + decimals := by
  have hfive : Nat.ofDigitChars 10 (fiveDigits decimals) 0 = decimals := by
    rw [fiveDigits, Nat.ofDigitChars_append, Nat.ofDigitChars_replicate_zero, Nat.mul_zero,
      Nat.ofDigitChars_ten_toDigits]
  rw [digitsValue_eq, Nat.ofDigitChars_append, Nat.ofDigitChars_ten_toDigits,
    Nat.ofDigitChars_eq_ofDigitChars_zero, hfive, length_fiveDigits hdecimals]
  omega

theorem toList_double2a (value : ℚ) :
    (double2a value).toList =
      (if value < 0 then ['-'] else []) ++
        (Nat.toDigits 10 (roundHalfEven (|value| * 100000) / 100000) ++
          '.' :: fiveDigits (roundHalfEven (|value| * 100000) % 100000)) := by
  simp only [double2a, fiveDigits, String.toList_append, String.toList_ofList,
    Nat.toString_eq_repr, Nat.toList_repr, List.append_assoc]
  split_ifs <;> rfl

theorem takeWhile_digits_dot {digits : List Char} (hdigits : ∀ c ∈ digits, c.isDigit = true)
    (rest : List Char) : (digits ++ '.' :: rest).takeWhile Char.isDigit = digits := by
  rw [List.takeWhile_append_of_pos hdigits, List.takeWhile_cons_of_neg (by decide),
    List.append_nil]

theorem dropWhile_digits_dot {digits : List Char} (hdigits : ∀ c ∈ digits, c.isDigit = true)
    (rest : List Char) : (digits ++ '.' :: rest).dropWhile Char.isDigit = '.' :: rest := by
  rw [List.dropWhile_append_of_pos hdigits, List.dropWhile_cons_of_neg (by decide)]

/-- A minus sign is taken off; a digit at the front is neither a blank nor a sign. -/
theorem scanSign_digits {digits rest : List Char} (hne : digits ≠ [])
    (hdigits : ∀ c ∈ digits, c.isDigit = true) (negative : Prop) [Decidable negative] :
    scanSign (((if negative then ['-'] else []) ++ (digits ++ rest)).dropWhile isSpace) =
      (if negative then -1 else 1, digits ++ rest) := by
  by_cases hnegative : negative
  · rw [if_pos hnegative, if_pos hnegative, List.singleton_append,
      List.dropWhile_cons_of_neg (by decide)]
    rfl
  · rw [if_neg hnegative, if_neg hnegative, List.nil_append]
    cases digits with
    | nil => exact absurd rfl hne
    | cons c digits =>
        have hc : c.isDigit = true := hdigits c List.mem_cons_self
        have hspace : isSpace c = false := by
          by_contra hspace
          simp only [isSpace, Bool.or_eq_true, decide_eq_true_eq, Bool.not_eq_false] at hspace
          rcases hspace with ((((rfl | rfl) | rfl) | rfl) | rfl) | rfl
          all_goals exact absurd hc (by decide)
        rw [List.cons_append, List.dropWhile_cons_of_neg (by rw [hspace]; exact Bool.false_ne_true)]
        rw [scanSign]
        · rintro _ ⟨⟩
          exact absurd hc (by decide)
        · rintro _ ⟨⟩
          exact absurd hc (by decide)

/-- A printed number reads as the number rounded to five decimals. -/
theorem scanDouble_double2a (value : ℚ) :
    scanDouble (double2a value).toList = some (toFive value) := by
  have hwhole := all_isDigit_toDigits (roundHalfEven (|value| * 100000) / 100000)
  have hfive := all_isDigit_fiveDigits (roundHalfEven (|value| * 100000) % 100000)
  have hlt : roundHalfEven (|value| * 100000) % 100000 < 100000 := Nat.mod_lt _ (by decide)
  have htake : (fiveDigits (roundHalfEven (|value| * 100000) % 100000)).takeWhile Char.isDigit =
      fiveDigits (roundHalfEven (|value| * 100000) % 100000) := List.takeWhile_eq_self_iff.mpr hfive
  have hdrop : (fiveDigits (roundHalfEven (|value| * 100000) % 100000)).dropWhile Char.isDigit =
      [] := List.dropWhile_eq_nil_iff.mpr hfive
  simp only [scanDouble, toList_double2a, scanSign_digits Nat.toDigits_ne_nil hwhole,
    takeWhile_digits_dot hwhole, dropWhile_digits_dot hwhole, htake, hdrop,
    digitsValue_whole_fiveDigits _ hlt, length_fiveDigits hlt, Nat.toDigits_ne_nil, false_and,
    if_false, scanExponent, Nat.div_add_mod', toFive]
  congr 1
  split_ifs <;> norm_num <;> ring

theorem a2double_double2a (env : Env) (value : ℚ) :
    a2double env (double2a value) = toFive value := by
  rw [a2double, scanDouble_double2a, Option.getD_some]

end Hat.Hsrv
