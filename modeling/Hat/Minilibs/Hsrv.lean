import Mathlib.Data.Rat.Floor
import Mathlib.Data.List.TakeWhile

/-!
# Service functions: clock readings, numbers and strings

The conversions of class `hsrv` that the engines rely on.  A double is modelled
by the rational number it denotes, and a handler sees one clock reading.
`sscanf` leaves its target unset when the text starts with no number; what such
a variable reads as is part of the environment, so nothing is assumed of it.
-/

namespace Hat.Hsrv

/-- Two states of an agent, a rule or a program: the macros `ON` and `OFF`. -/
inductive Status
  | off
  | on
  deriving DecidableEq, Repr

/-- Local calendar time as `hsrv::CurrentTime` returns it: months from 1, full
years, weekdays from 1 (Monday) to 7.  A leap second may read as 60. -/
structure Tm where
  sec : ℕ
  min : ℕ
  hour : ℕ
  mday : ℕ
  mon : ℕ
  year : ℕ
  wday : ℕ
  sec_le : sec ≤ 60
  min_lt : min < 60
  hour_lt : hour < 24

/-- What one run of a handler reads from its surroundings.  The clock counts the
seconds since the epoch. -/
structure Env where
  gettime : ℚ
  gettime_nonneg : 0 ≤ gettime
  localtime : Tm
  unsetInt : ℤ
  unsetDouble : ℚ

/-- The first night of the epoch. -/
def firstNight : Env where
  gettime := 11045
  gettime_nonneg := by decide +kernel
  localtime := ⟨5, 4, 3, 1, 1, 1970, 4, by decide, by decide, by decide⟩
  unsetInt := 0
  unsetDouble := 0

def daysecond (tm : Tm) : ℤ := tm.hour * 3600 + tm.min * 60 + tm.sec

/-- The cast `(long)` of a time in seconds drops the fraction. -/
def toLong (time : ℚ) : ℤ := if 0 ≤ time then ⌊time⌋ else ⌈time⌉

def isSpace (c : Char) : Bool :=
  c = ' ' || c = '\t' || c = '\n' || c = '\r' || c = '\x0b' || c = '\x0c'

def digitsValue (digits : List Char) : ℕ :=
  digits.foldl (fun value c => 10 * value + (c.toNat - 48)) 0

def scanSign : List Char → ℤ × List Char
  | '-' :: rest => (-1, rest)
  | '+' :: rest => (1, rest)
  | rest => (1, rest)

/-- `%d`: blanks, a sign and digits. -/
def scanInt (text : List Char) : Option ℤ :=
  let signed := scanSign (text.dropWhile isSpace)
  let digits := signed.2.takeWhile Char.isDigit
  if digits = [] then none else some (signed.1 * digitsValue digits)

def scanExponent : List Char → ℤ
  | 'e' :: rest | 'E' :: rest =>
      let signed := scanSign rest
      signed.1 * digitsValue (signed.2.takeWhile Char.isDigit)
  | _ => 0

/-- `%lf` in decimal notation. -/
def scanDouble (text : List Char) : Option ℚ :=
  let signed := scanSign (text.dropWhile isSpace)
  let whole := signed.2.takeWhile Char.isDigit
  let rest := signed.2.dropWhile Char.isDigit
  let fraction := match rest with
    | '.' :: tail => tail.takeWhile Char.isDigit
    | _ => []
  let tail := match rest with
    | '.' :: tail => tail.dropWhile Char.isDigit
    | _ => rest
  if whole = [] ∧ fraction = [] then none
  else some (signed.1 * digitsValue (whole ++ fraction) *
    (10 : ℚ) ^ (scanExponent tail - fraction.length))

def atoi (text : List Char) : ℤ := (scanInt text).getD 0

def a2int (env : Env) (text : String) : ℤ := (scanInt text.toList).getD env.unsetInt

def a2double (env : Env) (text : String) : ℚ := (scanDouble text.toList).getD env.unsetDouble

def roundHalfEven (value : ℚ) : ℕ :=
  let below := ⌊value⌋.toNat
  let excess := value - below
  if excess < 1 / 2 then below
  else if 1 / 2 < excess then below + 1
  else if below % 2 = 0 then below else below + 1

/-- Fixed notation with five decimals. -/
def double2a (value : ℚ) : String :=
  let scaled := roundHalfEven (|value| * 100000)
  let decimals := (toString (scaled % 100000)).toList
  (if value < 0 then "-" else "") ++ toString (scaled / 100000) ++ "." ++
    String.ofList (List.replicate (5 - decimals.length) '0' ++ decimals)

def int2a (value : ℤ) : String := toString value

/-- The number is cut to 32 bits. -/
def unsigned2a (n : ℕ) : String := toString (n % 2 ^ 32)

theorem mod_eq_of_unsigned2a_eq {n m : ℕ} (h : unsigned2a n = unsigned2a m) :
    n % 2 ^ 32 = m % 2 ^ 32 := by
  have hread : ∀ k : ℕ, Nat.ofDigitChars 10 (toString k).toList 0 = k := by
    intro k
    rw [Nat.toString_eq_repr, Nat.toList_repr]
    simp
  rw [← hread (n % 2 ^ 32), ← hread (m % 2 ^ 32)]
  exact congrArg (fun text : String => Nat.ofDigitChars 10 text.toList 0) h

/-- The first occurrence of `dst` becomes `src`. -/
def replaceFirst (dst src : List Char) : List Char → List Char
  | [] => if dst = [] then src else []
  | c :: rest =>
      if dst.isPrefixOf (c :: rest) then src ++ (c :: rest).drop dst.length
      else c :: replaceFirst dst src rest

def strReplace (s dst src : String) : String :=
  String.ofList (replaceFirst dst.toList src.toList s.toList)

/-- A front without the first letter of the part is copied. -/
theorem replaceFirst_append {c : Char} {front : List Char} (hfront : c ∉ front)
    (dst src back : List Char) :
    replaceFirst (c :: dst) src (front ++ (c :: dst) ++ back) = front ++ src ++ back := by
  induction front with
  | nil =>
      rw [List.nil_append, List.nil_append, List.cons_append, replaceFirst, if_pos]
      · rw [List.length_cons, List.drop_succ_cons, List.drop_left]
      · exact List.isPrefixOf_iff_prefix.mpr ⟨back, rfl⟩
  | cons d front ih =>
      rw [List.mem_cons, not_or] at hfront
      rw [List.cons_append, List.cons_append, replaceFirst, if_neg, ih hfront.2]
      · rfl
      · intro hprefix
        obtain ⟨_, hd⟩ := List.isPrefixOf_iff_prefix.mp hprefix
        exact hfront.1 (List.cons.inj hd).1

theorem strReplace_append {c : Char} {dst front : String} {rest : List Char}
    (hdst : dst.toList = c :: rest) (hfront : c ∉ front.toList) (src back : String) :
    strReplace (front ++ dst ++ back) dst src = front ++ src ++ back := by
  rw [strReplace, String.toList_append, String.toList_append, hdst, replaceFirst_append hfront,
    String.ofList_append, String.ofList_append, String.ofList_toList, String.ofList_toList,
    String.ofList_toList]

/-- `find` with a result other than `npos`. -/
def findsChars (part : List Char) : List Char → Bool
  | [] => part.isEmpty
  | c :: rest => part.isPrefixOf (c :: rest) || findsChars part rest

def finds (text part : String) : Bool := findsChars part.toList text.toList

/-- The loop of `filterChar`; the letter of `\\r` is copied as well. -/
def filterChars : List Char → List Char
  | [] => []
  | '\\' :: 'r' :: rest => '\r' :: 'r' :: filterChars rest
  | '\\' :: 'n' :: rest => '\n' :: filterChars rest
  | '\\' :: 't' :: rest => '\t' :: filterChars rest
  | '\\' :: '\\' :: rest => '\\' :: filterChars rest
  | c :: rest => c :: filterChars rest

def filterChar (src : String) : String := String.ofList (filterChars src.toList)

/-! ## Times of day -/

def isFieldEnd (c : Char) : Bool := c = ':' || c = '.'

/-- Hours, minutes and seconds separated by colons or dots; a missing field
counts as zero. -/
def string2second (text : String) : ℤ :=
  let hh := text.toList.takeWhile fun c => !isFieldEnd c
  let afterHh := (text.toList.dropWhile fun c => !isFieldEnd c).drop 1
  let min := afterHh.takeWhile fun c => !isFieldEnd c
  let afterMin := (afterHh.dropWhile fun c => !isFieldEnd c).drop 1
  let ss := afterMin.takeWhile fun c => !isFieldEnd c
  atoi hh * 3600 + atoi min * 60 + atoi ss

/-- `%02d` of a number below one hundred. -/
def twoDigits (n : ℕ) : List Char := [Nat.digitChar (n / 10), Nat.digitChar (n % 10)]

/-- The `hh:mm:ss` part of `ctime`. -/
def getasciitimeday (env : Env) : String :=
  String.ofList (twoDigits env.localtime.hour ++ ':' :: twoDigits env.localtime.min ++
    ':' :: twoDigits env.localtime.sec)

theorem atoi_twoDigits : ∀ n < 100, atoi (twoDigits n) = n := by
  decide +kernel

theorem digitChar_not_fieldEnd : ∀ n < 10, isFieldEnd (Nat.digitChar n) = false := by
  decide

theorem twoDigits_not_fieldEnd (n : ℕ) (hn : n < 100) (c : Char) (hc : c ∈ twoDigits n) :
    isFieldEnd c = false := by
  rw [twoDigits, List.mem_cons, List.mem_singleton] at hc
  rcases hc with rfl | rfl
  · exact digitChar_not_fieldEnd (n / 10) (by omega)
  · exact digitChar_not_fieldEnd (n % 10) (by omega)

private theorem takeWhile_field {n : ℕ} (hn : n < 100) (rest : List Char) :
    (twoDigits n ++ ':' :: rest).takeWhile (fun c => !isFieldEnd c) = twoDigits n := by
  rw [List.takeWhile_append_of_pos fun c hc => by rw [twoDigits_not_fieldEnd n hn c hc]; rfl]
  simp [isFieldEnd]

private theorem dropWhile_field {n : ℕ} (hn : n < 100) (rest : List Char) :
    (twoDigits n ++ ':' :: rest).dropWhile (fun c => !isFieldEnd c) = ':' :: rest := by
  rw [List.dropWhile_append_of_pos fun c hc => by rw [twoDigits_not_fieldEnd n hn c hc]; rfl]
  simp [isFieldEnd]

/-- Reading back the time of day that `ctime` printed gives the second of the day. -/
theorem string2second_getasciitimeday (env : Env) :
    string2second (getasciitimeday env) = daysecond env.localtime := by
  have hhour : env.localtime.hour < 100 := lt_trans env.localtime.hour_lt (by decide)
  have hmin : env.localtime.min < 100 := lt_trans env.localtime.min_lt (by decide)
  have hsec : env.localtime.sec < 100 := lt_of_le_of_lt env.localtime.sec_le (by decide)
  have hlast : (twoDigits env.localtime.sec).takeWhile (fun c => !isFieldEnd c) =
      twoDigits env.localtime.sec :=
    List.takeWhile_eq_self_iff.mpr fun c hc => by
      rw [twoDigits_not_fieldEnd _ hsec c hc]; rfl
  have happ : (getasciitimeday env).toList = twoDigits env.localtime.hour ++
      ':' :: (twoDigits env.localtime.min ++ ':' :: twoDigits env.localtime.sec) := by
    simp [getasciitimeday]
  simp only [string2second, happ, takeWhile_field hhour, dropWhile_field hhour,
    List.drop_one, List.tail_cons, takeWhile_field hmin, dropWhile_field hmin, hlast,
    atoi_twoDigits _ hhour, atoi_twoDigits _ hmin, atoi_twoDigits _ hsec, daysecond]

theorem daysecond_nonneg (tm : Tm) : 0 ≤ daysecond tm := by
  simp only [daysecond]
  omega

end Hat.Hsrv
