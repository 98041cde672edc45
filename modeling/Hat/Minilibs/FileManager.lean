import Mathlib.Data.List.TakeWhile
import Mathlib.Data.String.Basic

/-!
# Parts of file names
-/

namespace Hat.FileManager

/-- What follows the last `c`, or everything. -/
def afterLast (c : Char) (chars : List Char) : List Char :=
  (chars.reverse.takeWhile fun d => d ≠ c).reverse

/-- What stands before the last `c`, or everything. -/
def beforeLast (c : Char) (chars : List Char) : List Char :=
  if c ∈ chars then ((chars.reverse.dropWhile fun d => d ≠ c).drop 1).reverse else chars

theorem notMem_afterLast (c : Char) (chars : List Char) : c ∉ afterLast c chars := by
  rw [afterLast, List.mem_reverse]
  intro hmem
  simpa using List.mem_takeWhile_imp hmem

/-- A text is what stands before the first `c`, that `c` and the rest. -/
theorem exists_dropWhile_eq_cons {c : Char} {chars : List Char} (hmem : c ∈ chars) :
    ∃ rest, (chars.dropWhile fun d => d ≠ c) = c :: rest ∧
      (chars.takeWhile fun d => d ≠ c) ++ c :: rest = chars := by
  have hchars := List.takeWhile_append_dropWhile (p := fun d => d ≠ c) (l := chars)
  cases hdrop : chars.dropWhile fun d => d ≠ c with
  | nil =>
      have hall := List.dropWhile_eq_nil_iff.mp hdrop c hmem
      simp at hall
  | cons d rest =>
      have hd : d = c := by
        have hhead := List.head?_dropWhile_not (fun d => d ≠ c) chars
        rw [hdrop] at hhead
        simpa using hhead
      rw [hdrop, hd] at hchars
      exact ⟨rest, by rw [hd], hchars⟩

/-- A text is what stands before the last `c`, that `c` and what follows it. -/
theorem beforeLast_append_afterLast {c : Char} {chars : List Char} (hmem : c ∈ chars) :
    beforeLast c chars ++ c :: afterLast c chars = chars := by
  obtain ⟨rest, hdrop, hchars⟩ := exists_dropWhile_eq_cons (List.mem_reverse.mpr hmem)
  have hreverse := congrArg List.reverse hchars
  rw [beforeLast, if_pos hmem, afterLast, hdrop]
  simpa using hreverse

theorem beforeLast_append {c : Char} (front : List Char) {back : List Char} (hback : c ∉ back) :
    beforeLast c (front ++ c :: back) = front := by
  have hall : ∀ d ∈ back.reverse, decide (d ≠ c) = true := by
    intro d hd
    exact decide_eq_true fun heq => hback (heq ▸ List.mem_reverse.mp hd)
  have hreverse : (front ++ c :: back).reverse = back.reverse ++ c :: front.reverse := by
    simp
  rw [beforeLast, if_pos (by simp), hreverse, List.dropWhile_append_of_pos hall,
    List.dropWhile_cons_of_neg (by simp), List.drop_one, List.tail_cons, List.reverse_reverse]

theorem afterLast_of_notMem {c : Char} {chars : List Char} (h : c ∉ chars) :
    afterLast c chars = chars := by
  have hall : ∀ d ∈ chars.reverse, decide (d ≠ c) = true := by
    intro d hd
    exact decide_eq_true fun heq => h (heq ▸ List.mem_reverse.mp hd)
  rw [afterLast, List.takeWhile_eq_self_iff.mpr hall, List.reverse_reverse]

def getTail (path : String) : String := String.ofList (afterLast '/' path.toList)

theorem getTail_of_notMem {name : String} (hname : '/' ∉ name.toList) : getTail name = name := by
  rw [getTail, afterLast_of_notMem hname, String.ofList_toList]

/-- The name of a file without its directory and its last extension. -/
def getStem (path : String) : String :=
  let fname := if getTail path = "" then path else getTail path
  String.ofList (beforeLast '.' fname.toList)

theorem getStem_of_notMem {name : String} (hname : '/' ∉ name.toList) :
    getStem name = String.ofList (beforeLast '.' name.toList) := by
  rw [getStem, getTail_of_notMem hname, ite_self]

/-- The last extension of a file name, or the whole name. -/
def getExt (path : String) : String :=
  let fname := if getTail path = "" then path else getTail path
  String.ofList (afterLast '.' fname.toList)

end Hat.FileManager
