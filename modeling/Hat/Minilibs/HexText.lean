import Mathlib.Data.List.Basic
import Mathlib.Data.String.Basic
import Mathlib.Data.UInt

/-!
# Uploads in hexadecimal digits

`AgentConf::hex2ascii` takes two digits of an upload at a time.  Its bound is the size of the
text less one, in an unsigned type, so an empty text has no end.
-/

namespace Hat.AgentConf

def hexCharDecode : Char → ℕ
  | '0' => 0
  | '1' => 1
  | '2' => 2
  | '3' => 3
  | '4' => 4
  | '5' => 5
  | '6' => 6
  | '7' => 7
  | '8' => 8
  | '9' => 9
  | 'A' | 'a' => 10
  | 'B' | 'b' => 11
  | 'C' | 'c' => 12
  | 'D' | 'd' => 13
  | 'E' | 'e' => 14
  | 'F' | 'f' => 15
  | _ => 0

/-- The positions that were read, and the text if all of them could be. -/
structure Reading where
  positions : List ℕ
  text : Option String
  deriving DecidableEq

/-- Behind its last character a string has a null character. -/
def charAt (str : List Char) (i : ℕ) : Char := str.getD i '\x00'

/-- `size()-1` in 64 bits. -/
def sizeLessOne (size : ℕ) : ℕ := if size = 0 then 2 ^ 64 - 1 else size - 1

/-- The sum of the digits is cut to a character. -/
def decodePair (c d : Char) : Char := Char.ofNat ((hexCharDecode c * 16 + hexCharDecode d) % 256)

/-- The second of the two places may be out of reach. -/
def hex2asciiFrom (str : List Char) (i : ℕ) (positions : List ℕ) (tmp : List Char) : Reading :=
  if i < sizeLessOne str.length then
    if i + 1 ≤ str.length then
      hex2asciiFrom str (i + 2) (positions ++ [i, i + 1])
        (tmp ++ [decodePair (charAt str i) (charAt str (i + 1))])
    else ⟨positions ++ [i, i + 1], none⟩
  else ⟨positions, some (String.ofList tmp)⟩
termination_by str.length + 1 - i

def hex2ascii (str : String) : Reading := hex2asciiFrom str.toList 0 [] []

/-- Only places of the text are read. -/
def Reading.InRange (reading : Reading) (str : String) : Prop :=
  ∀ i ∈ reading.positions, i < str.toList.length

def bytesText (bytes : List UInt8) : String :=
  String.ofList (bytes.map fun byte => Char.ofNat byte.toNat)

/-- The digit of a number below sixteen, in lower and in upper case. -/
def digitsOf (v : ℕ) : List Char := [Nat.digitChar v, (Nat.digitChar v).toUpper]

/-- Two digits for each byte, the higher one first. -/
inductive Encodes : List UInt8 → List Char → Prop
  | nil : Encodes [] []
  | cons {byte : UInt8} {bytes : List UInt8} {c d : Char} {digits : List Char}
      (hhigh : c ∈ digitsOf (byte.toNat / 16)) (hlow : d ∈ digitsOf (byte.toNat % 16))
      (h : Encodes bytes digits) : Encodes (byte :: bytes) (c :: d :: digits)

theorem hexCharDecode_of_mem {v : ℕ} (hv : v < 16) {c : Char} (hc : c ∈ digitsOf v) :
    hexCharDecode c = v := by
  have hall : ∀ w < 16, (digitsOf w).all (fun e => hexCharDecode e = w) = true := by decide
  exact of_decide_eq_true (List.all_eq_true.mp (hall v hv) c hc)

theorem decodePair_of_mem {byte : UInt8} {c d : Char} (hc : c ∈ digitsOf (byte.toNat / 16))
    (hd : d ∈ digitsOf (byte.toNat % 16)) : decodePair c d = Char.ofNat byte.toNat := by
  have hbyte : byte.toNat < 256 := byte.toNat_lt
  rw [decodePair, hexCharDecode_of_mem (by omega) hc, hexCharDecode_of_mem (by omega) hd,
    Nat.div_add_mod', Nat.mod_eq_of_lt hbyte]

/-- The characters of a text in pairs; a single last one is left out. -/
def decodePairs : List Char → List Char
  | c :: d :: rest => decodePair c d :: decodePairs rest
  | _ => []

theorem Encodes.decodePairs_eq {bytes : List UInt8} {digits : List Char}
    (h : Encodes bytes digits) :
    decodePairs digits = bytes.map fun byte => Char.ofNat byte.toNat := by
  induction h with
  | nil => rfl
  | cons hhigh hlow _ ih => rw [decodePairs, decodePair_of_mem hhigh hlow, ih, List.map_cons]

theorem drop_eq_charAt_cons {str : List Char} {i : ℕ} (hi : i < str.length) :
    str.drop i = charAt str i :: str.drop (i + 1) := by
  rw [charAt, List.getD_eq_getElem?_getD, List.getElem?_eq_getElem hi, Option.getD_some]
  exact List.drop_eq_getElem_cons hi

theorem sizeLessOne_of_ne_nil {str : List Char} (hstr : str ≠ []) :
    sizeLessOne str.length = str.length - 1 := by
  rw [sizeLessOne, if_neg (List.length_pos_iff.mpr hstr).ne']

/-- In a text that is not empty each turn reads two places of it and decodes them. -/
theorem hex2asciiFrom_eq {str : List Char} (hstr : str ≠ []) (i : ℕ) (positions : List ℕ)
    (tmp : List Char) (hpositions : ∀ place ∈ positions, place < str.length) :
    (∀ place ∈ (hex2asciiFrom str i positions tmp).positions, place < str.length) ∧
      (hex2asciiFrom str i positions tmp).text =
        some (String.ofList (tmp ++ decodePairs (str.drop i))) := by
  have hsize := sizeLessOne_of_ne_nil hstr
  induction i, positions, tmp using hex2asciiFrom.induct str with
  | case1 i positions tmp hi hlast ih =>
      have hplaces : ∀ place ∈ positions ++ [i, i + 1], place < str.length := by
        intro place hplace
        rw [List.mem_append, List.mem_cons, List.mem_singleton] at hplace
        rcases hplace with hplace | rfl | rfl
        · exact hpositions place hplace
        · omega
        · omega
      obtain ⟨hinside, htext⟩ := ih hplaces
      have hdrop : str.drop i = charAt str i :: charAt str (i + 1) :: str.drop (i + 2) := by
        rw [drop_eq_charAt_cons (i := i) (by omega), drop_eq_charAt_cons (i := i + 1) (by omega)]
      rw [hex2asciiFrom, if_pos hi, if_pos hlast]
      refine ⟨hinside, ?_⟩
      rw [htext, hdrop, decodePairs, List.append_assoc, List.singleton_append]
  | case2 i positions tmp hi hlast => omega
  | case3 i positions tmp hi =>
      -- at most one character is left
      have hshort : (str.drop i).length ≤ 1 := by
        rw [List.length_drop]
        omega
      have hnil : decodePairs (str.drop i) = [] := by
        rcases hrest : str.drop i with _ | ⟨c, _ | ⟨d, rest⟩⟩
        · rfl
        · rfl
        · rw [hrest] at hshort
          simp at hshort
      rw [hex2asciiFrom, if_neg hi, hnil, List.append_nil]
      exact ⟨hpositions, rfl⟩

theorem hex2ascii_of_ne {str : String} (hstr : str ≠ "") :
    (hex2ascii str).InRange str ∧
      (hex2ascii str).text = some (String.ofList (decodePairs str.toList)) :=
  hex2asciiFrom_eq (mt String.toList_eq_nil_iff.mp hstr) 0 [] []
    fun _ hplace => absurd hplace List.not_mem_nil

/-- In an empty text the first turn reads the places 0 and 1. -/
theorem hex2ascii_empty : hex2ascii "" = ⟨[0, 1], none⟩ := by
  rw [hex2ascii, hex2asciiFrom]
  rfl

/-- An upload is read within its bounds exactly if it is not empty, and the digits of bytes are
decoded to these bytes exactly if there are any. -/
theorem hex2ascii_iff (str : String) {bytes : List UInt8} {digits : String}
    (hdigits : Encodes bytes digits.toList) :
    ((hex2ascii str).InRange str ↔ str ≠ "") ∧
      ((hex2ascii digits).text = some (bytesText bytes) ↔ bytes ≠ []) := by
  constructor
  · refine ⟨?_, fun hstr => (hex2ascii_of_ne hstr).1⟩
    rintro hinside rfl
    rw [hex2ascii_empty] at hinside
    exact absurd (hinside 0 List.mem_cons_self) (Nat.lt_irrefl 0)
  · constructor
    · rintro htext rfl
      generalize hlist : digits.toList = list at hdigits
      cases hdigits with
      | nil =>
          rw [String.toList_eq_nil_iff.mp hlist, hex2ascii_empty] at htext
          exact absurd htext.symm (Option.some_ne_none _)
    · intro hbytes
      have hne : digits ≠ "" := by
        rintro rfl
        generalize hlist : "".toList = list at hdigits
        cases hdigits with
        | nil => exact hbytes rfl
        | cons _ _ _ => exact absurd hlist (List.cons_ne_nil _ _).symm
      rw [(hex2ascii_of_ne hne).2, hdigits.decodePairs_eq, bytesText]

theorem hex2ascii_iff_upload :
    ((hex2ascii "c3a").InRange "c3a" ↔ "c3a" ≠ "") ∧
      ((hex2ascii "c30A").text = some (bytesText [0xC3, 0x0A]) ↔ [(0xC3 : UInt8), 0x0A] ≠ []) := by
  have hdigits : Encodes [0xC3, 0x0A] "c30A".toList := by
    rw [show "c30A".toList = ['c', '3', '0', 'A'] from rfl]
    exact .cons (by decide) (by decide) (.cons (by decide) (by decide) .nil)
  exact hex2ascii_iff "c3a" hdigits

/-- The digits of no bytes are read beyond their end. -/
theorem not_hex2ascii_empty :
    Encodes [] "".toList ∧ (hex2ascii "").text ≠ some (bytesText []) ∧
      ¬(hex2ascii "").InRange "" := by
  rw [hex2ascii_empty]
  refine ⟨.nil, Option.some_ne_none _ ∘ Eq.symm, fun h => ?_⟩
  exact absurd (h 0 List.mem_cons_self) (Nat.lt_irrefl 0)

end Hat.AgentConf
