import Hat.Core.ShuntingYard
import Mathlib.Algebra.Field.Defs
import Mathlib.Order.Lattice

/-!
# Arithmetic and logical expressions

An expression is read token by token into a vector in postfix form, which is evaluated with a
stack of values.  The tokens are strings all the way: the characters of a symbol are gathered
until something ends it.
-/

namespace Hat.MathExpression

def isMathOperator (s : String) : Bool :=
  s = "+" || s = "-" || s = "*" || s = "/" || s = "^"

def isBoolOperator (s : String) : Bool :=
  s = "<" || s = ">" || s = "==" || s = ">=" || s = "<=" || s = "&&" || s = "||"

def isOperator (s : String) : Bool := isMathOperator s || isBoolOperator s

/-- Neither `>` nor the parentheses are among the delimiters. -/
def isDelim (c : Char) : Bool :=
  c = ' ' || c = '+' || c = '-' || c = '*' || c = '/' || c = '^' || c = '<' || c = '=' ||
    c = '&' || c = '|' || c = ' '

def precedence (s1 s2 : String) : ℤ :=
  if s1 = "^" then
    if s2 = "^" then 0 else 1
  else if s1 = "*" ∨ s1 = "/" then
    if s2 = "^" then -1
    else if s2 = "*" ∨ s2 = "/" then 0
    else 1
  else if s1 = "+" ∨ s1 = "-" then
    if s2 = "^" ∨ s2 = "*" ∨ s2 = "/" then -1
    else if s2 = "+" ∨ s2 = "-" then 0
    else 1
  else if s1 = "<" ∨ s1 = ">" ∨ s1 = "==" ∨ s1 = ">=" ∨ s1 = "<=" then
    if s2 = "<" ∨ s2 = ">" ∨ s2 = "==" ∨ s2 = ">=" ∨ s2 = "<=" then 0
    else if s2 = "||" ∨ s2 = "&&" then 1
    else -1
  else -1

/-- The symbol is pushed unless it is empty. -/
def flush (sym : List Char) : List String := if sym = [] then [] else [String.ofList sym]

/-- The loop over the characters with the symbol gathered so far.  The flag is set when an
operator character is followed by a delimiter, and only a space resets it. -/
def scan (sym : List Char) (flag : Bool) : List Char → List String
  | [] => flush sym
  | [c] =>
      if !isDelim c ∧ c ≠ ')' then flush (sym ++ [c])
      else if c = ')' then String.ofList sym :: flush [c]
      else flush sym
  | c :: following :: rest =>
      if c = ' ' then flush sym ++ scan [] false (following :: rest)
      else if c = '+' ∨ c = '-' ∨ c = '/' ∨ c = '*' ∨ c = '^' ∨ c = '(' ∨ c = ')' then
        flush sym ++ flush [c] ++ scan [] flag (following :: rest)
      else if c = '<' ∨ c = '>' ∨ c = '&' ∨ c = '|' ∨ c = '=' then
        let pushed := if flag then [] else flush sym
        let sym := if flag then sym else []
        if !isDelim following then
          pushed ++ flush (sym ++ [c]) ++ scan [] flag (following :: rest)
        else pushed ++ scan (sym ++ [c]) true (following :: rest)
      else scan (sym ++ [c]) flag (following :: rest)

/-- On an empty text the bound of the loop, one less than the length, wraps around. -/
def tokenize (s : String) : Option (List String) :=
  if s = "" then none else some (scan [] false s.toList)

/-- The vector that is filled, and the stack with its top first. -/
structure Parsing where
  vector : List String
  stack : List String
  deriving DecidableEq

def popWhile (goes : String → Bool) (vector : List String) : List String → Parsing
  | [] => ⟨vector, []⟩
  | top :: stack =>
      if top ≠ "(" ∧ goes top then popWhile goes (vector ++ [top]) stack
      else ⟨vector, top :: stack⟩

def parseToken (p : Parsing) (token : String) : Parsing :=
  if token = "(" then { p with stack := token :: p.stack }
  else if isOperator token ∧ p.stack = [] then { p with stack := token :: p.stack }
  else if isOperator token ∧ p.stack ≠ [] then
    let q := popWhile (fun top => 0 ≤ precedence top token) p.vector p.stack
    { q with stack := token :: q.stack }
  else if token = ")" then
    let q := popWhile (fun _ => true) p.vector p.stack
    { q with stack := q.stack.tail }
  else { p with vector := p.vector ++ [token] }

def parse (vector : List String) (exp : String) : Option (Bool × List String) :=
  (tokenize exp).map fun tokens =>
    let p := tokens.foldl parseToken ⟨vector, []⟩
    let q := popWhile (fun _ => true) p.vector p.stack
    (q.stack.isEmpty, q.vector)

section

variable {K : Type*} [Field K] [LinearOrder K]

def EPSILON : K := 1 / 10 ^ 12

/-- The power of the library is a parameter. -/
def evalOP (pow : K → K → K) (op : String) (a b : K) : K :=
  if op = "+" then a + b
  else if op = "-" then a - b
  else if op = "*" then a * b
  else if op = "/" then (if b ≠ 0 then a / b else 0)
  else if op = "^" then pow a b
  else if op = "<" then (if a < b then 1 else 0)
  else if op = "<=" then (if a ≤ b then 1 else 0)
  else if op = ">" then (if a > b then 1 else 0)
  else if op = ">=" then (if a ≥ b then 1 else 0)
  else if op = "==" then (if a + EPSILON > b ∧ a < b + EPSILON then 1 else 0)
  else if op = "&&" then (if a > 0 ∧ b > 0 then 1 else 0)
  else if op = "||" then (if a > 0 ∨ b > 0 then 1 else 0)
  else 0

/-- A symbol that the table does not have counts as zero. -/
def evalToken (pow : K → K → K) (symtab : String → K) (stack : List K) (token : String) :
    List K :=
  match stack with
  | a :: b :: rest =>
      if isOperator token then evalOP pow token b a :: rest else symtab token :: stack
  | _ => symtab token :: stack

def evaluate (pow : K → K → K) (symtab : String → K) (vector : List String) : K :=
  (vector.foldl (evalToken pow symtab) []).headD 0

end

end Hat.MathExpression

/-!
# The text of an expression

The tokens of an infix expression are written one after the other, each after any number of
spaces.  The tokenizer finds them again unless a comparison or a logical operator is taken to
belong to the operand before it, or an empty token comes before a parenthesis at the end.
-/

namespace Hat.MathExpression

open Hat.ShuntingYard

inductive Operator
  | power
  | times
  | divide
  | plus
  | minus
  | less
  | greater
  | lessEq
  | greaterEq
  | equal
  | and
  | or
  deriving DecidableEq

namespace Operator

def text : Operator → String
  | power => "^"
  | times => "*"
  | divide => "/"
  | plus => "+"
  | minus => "-"
  | less => "<"
  | greater => ">"
  | lessEq => "<="
  | greaterEq => ">="
  | equal => "=="
  | and => "&&"
  | or => "||"

/-- What binds stronger has the greater rank. -/
def rank : Operator → ℕ
  | power => 6
  | times => 5
  | divide => 5
  | plus => 4
  | minus => 4
  | less => 3
  | greater => 3
  | lessEq => 3
  | greaterEq => 3
  | equal => 3
  | and => 2
  | or => 1

def IsLogical (o : Operator) : Prop := o = and ∨ o = or

/-- A comparison or a logical operator. -/
def IsBool (o : Operator) : Prop := isBoolOperator o.text = true

def IsLong (o : Operator) : Prop := o.text.length = 2

instance (o : Operator) : Decidable o.IsLogical := inferInstanceAs (Decidable (_ ∨ _))
instance (o : Operator) : Decidable o.IsBool := inferInstanceAs (Decidable (_ = _))
instance (o : Operator) : Decidable o.IsLong := inferInstanceAs (Decidable (_ = _))

def decode (s : String) : Option Operator :=
  [power, times, divide, plus, minus, less, greater, lessEq, greaterEq, equal, and, or].find?
    (·.text = s)

theorem decode_text (o : Operator) : decode o.text = some o := by cases o <;> decide

theorem text_injective : Function.Injective text := by
  intro o o' h
  have hdecode := decode_text o
  rw [h, decode_text] at hdecode
  exact (Option.some.inj hdecode).symm

theorem exists_char_of_not_isBool {o : Operator} (h : ¬o.IsBool) :
    ∃ c ∈ ['+', '-', '/', '*', '^', '(', ')'], o.text.toList = [c] ∧ ¬o.IsLong := by
  cases o with
  | power => exact ⟨'^', by decide, rfl, by decide⟩
  | times => exact ⟨'*', by decide, rfl, by decide⟩
  | divide => exact ⟨'/', by decide, rfl, by decide⟩
  | plus => exact ⟨'+', by decide, rfl, by decide⟩
  | minus => exact ⟨'-', by decide, rfl, by decide⟩
  | _ => exact absurd (by decide) h

theorem isOperator_text (o : Operator) : isOperator o.text = true := by cases o <;> decide

theorem text_ne_opening (o : Operator) : o.text ≠ "(" := by cases o <;> decide

theorem isLogical_iff_rank (o : Operator) : o.IsLogical ↔ o.rank < 3 := by cases o <;> decide

end Operator

/-- The characters that end a symbol. -/
def reserved : List Char := [' ', '+', '-', '*', '/', '^', '(', ')', '<', '>', '&', '|', '=']

def IsOperand (s : String) : Prop := s ≠ "" ∧ ∀ c ∈ s.toList, c ∉ reserved

/-- A symbol or a numeral. -/
structure Operand where
  text : String
  isOperand : IsOperand text

instance (s : String) : Decidable (IsOperand s) :=
  decidable_of_iff ((s ≠ "" && s.toList.all fun c => !reserved.contains c) = true)
    (by simp [IsOperand])

theorem Operand.text_injective : Function.Injective Operand.text := by
  rintro ⟨w, hw⟩ ⟨w', hw'⟩ h
  cases h
  rfl

/-- A string that is no operator, no parenthesis and no operand. -/
def Broken (s : String) : Prop := isOperator s = false ∧ s ≠ "(" ∧ s ≠ ")" ∧ ¬IsOperand s

theorem exists_text_of_isOperator {s : String} (h : isOperator s = true) :
    ∃ o : Operator, o.text = s := by
  simp only [isOperator, isMathOperator, isBoolOperator, Bool.or_eq_true, decide_eq_true_eq] at h
  obtain ((((rfl | rfl) | rfl) | rfl) | rfl) | ((((((rfl | rfl) | rfl) | rfl) | rfl) | rfl) | rfl)
    := h
  · exact ⟨.plus, rfl⟩
  · exact ⟨.minus, rfl⟩
  · exact ⟨.times, rfl⟩
  · exact ⟨.divide, rfl⟩
  · exact ⟨.power, rfl⟩
  · exact ⟨.less, rfl⟩
  · exact ⟨.greater, rfl⟩
  · exact ⟨.equal, rfl⟩
  · exact ⟨.greaterEq, rfl⟩
  · exact ⟨.lessEq, rfl⟩
  · exact ⟨.and, rfl⟩
  · exact ⟨.or, rfl⟩

theorem Operator.reserved_of_mem (o : Operator) : ∀ c ∈ o.text.toList, c ∈ reserved := by
  have hall : o.text.toList.all (reserved.contains ·) = true := by cases o <;> rfl
  exact fun c hc => List.contains_iff_mem.mp (List.all_eq_true.mp hall c hc)

/-- What begins with a character of an operand is no operator and no parenthesis. -/
theorem not_isOperator_of_head {s : String} {c : Char} (hc : c ∈ s.toList) (hfree : c ∉ reserved) :
    isOperator s = false ∧ s ≠ "(" ∧ s ≠ ")" := by
  refine ⟨Bool.eq_false_iff.mpr fun h => ?_, ?_, ?_⟩
  · obtain ⟨o, rfl⟩ := exists_text_of_isOperator h
    exact hfree (o.reserved_of_mem c hc)
  · rintro rfl
    obtain rfl : c = '(' := List.mem_singleton.mp hc
    exact hfree (by decide)
  · rintro rfl
    obtain rfl : c = ')' := List.mem_singleton.mp hc
    exact hfree (by decide)

theorem Operand.toList_ne_nil (w : Operand) : w.text.toList ≠ [] :=
  mt String.toList_eq_nil_iff.mp w.isOperand.1

theorem Operand.exists_mem (w : Operand) : ∃ c ∈ w.text.toList, c ∉ reserved := by
  obtain ⟨c, hc⟩ := List.exists_mem_of_ne_nil _ w.toList_ne_nil
  exact ⟨c, hc, w.isOperand.2 c hc⟩

theorem broken_empty : Broken "" := by
  refine ⟨by decide, by decide, by decide, fun h => h.1 rfl⟩

theorem Operator.exists_mem (o : Operator) : ∃ c ∈ o.text.toList, c ∈ reserved := by
  obtain ⟨c, hc⟩ := List.exists_mem_of_ne_nil o.text.toList (by cases o <;> decide)
  exact ⟨c, hc, o.reserved_of_mem c hc⟩

theorem broken_merged (w : Operand) (o : Operator) : Broken (w.text ++ o.text) := by
  obtain ⟨c, hc, hfree⟩ := w.exists_mem
  obtain ⟨hoperator, hopening, hclosing⟩ := not_isOperator_of_head (s := w.text ++ o.text)
    (by rw [String.toList_append]; exact List.mem_append_left _ hc) hfree
  refine ⟨hoperator, hopening, hclosing, fun hoperand => ?_⟩
  obtain ⟨d, hd, hreserved⟩ := o.exists_mem
  refine hoperand.2 d ?_ hreserved
  rw [String.toList_append]
  exact List.mem_append_right _ hd

def tokenText : Token Operand Operator → String
  | .atom w => w.text
  | .op o => o.text
  | .opening => "("
  | .closing => ")"

/-- The characters of the tokens, each after a number of spaces. -/
def chars (ts : List (ℕ × Token Operand Operator)) : List Char :=
  ts.flatMap fun t => List.replicate t.1 ' ' ++ (tokenText t.2).toList

def spell (ts : List (ℕ × Token Operand Operator)) : String := String.ofList (chars ts)

/-- Operands and operators alternate, up to the parentheses; the first argument says whether an
operand is to come. -/
def Placed : Bool → List (Token Operand Operator) → Prop
  | true, .atom _ :: ts => Placed false ts
  | true, .opening :: ts => Placed true ts
  | false, .closing :: ts => Placed false ts
  | false, .op _ :: ts => Placed true ts
  | false, [] => True
  | _, _ => False

theorem placed_tokens (e : Expr Operand Operator) (ts : List (Token Operand Operator)) :
    Placed true (e.tokens ++ ts) ↔ Placed false ts := by
  induction e generalizing ts with
  | atom w => exact Iff.rfl
  | paren e ih =>
      rw [Expr.tokens, List.cons_append, List.cons_append, List.append_assoc]
      exact ih (.closing :: ts)
  | bin op l r ihl ihr =>
      rw [Expr.tokens, List.append_assoc]
      exact (ihl (.op op :: (r.tokens ++ ts))).trans (ihr ts)

/-! ## The tokenizer on single tokens -/

section

variable {sym : List Char} {flag : Bool}

theorem scan_gap (sym : List Char) (flag : Bool) (g : ℕ) {cs : List Char} (hne : cs ≠ []) :
    scan sym flag (List.replicate g ' ' ++ cs) =
      (if g = 0 then [] else flush sym) ++
        scan (if g = 0 then sym else []) (flag && decide (g = 0)) cs := by
  induction g generalizing sym flag with
  | zero => simp
  | succ g ih =>
      obtain ⟨c, rest, hcs⟩ := List.exists_cons_of_ne_nil
        (List.append_ne_nil_of_right_ne_nil (List.replicate g ' ') hne)
      have hstep : scan sym flag (' ' :: c :: rest) = flush sym ++ scan [] false (c :: rest) := by
        rw [scan, if_pos rfl]
      rw [List.replicate_succ, List.cons_append, hcs, hstep, ← hcs, ih]
      simp [flush]

theorem scan_operand_cons {c following : Char} (hc : c ∉ reserved) (rest : List Char) :
    scan sym flag (c :: following :: rest) = scan (sym ++ [c]) flag (following :: rest) := by
  simp only [reserved, List.mem_cons, List.not_mem_nil, or_false, not_or] at hc
  simp only [scan, hc, or_false, if_false]

theorem scan_operand {w cs : List Char} (hw : ∀ c ∈ w, c ∉ reserved) (hne : cs ≠ []) :
    scan sym flag (w ++ cs) = scan (sym ++ w) flag cs := by
  induction w generalizing sym with
  | nil => rw [List.nil_append, List.append_nil]
  | cons c w ih =>
      obtain ⟨following, rest, hcs⟩ := List.exists_cons_of_ne_nil
        (List.append_ne_nil_of_right_ne_nil w hne)
      obtain ⟨hc, hw⟩ := List.forall_mem_cons.mp hw
      rw [List.cons_append, hcs, scan_operand_cons hc, ← hcs, ih hw, List.append_assoc]
      rfl

theorem scan_operand_last {w : List Char} (hne : w ≠ []) (hw : ∀ c ∈ w, c ∉ reserved) :
    scan sym flag w = [String.ofList (sym ++ w)] := by
  have hlast := hw _ (List.getLast_mem hne)
  have hfront : ∀ c ∈ w.dropLast, c ∉ reserved := fun c hc => hw c (List.dropLast_subset w hc)
  rw [← List.dropLast_concat_getLast hne, scan_operand hfront (List.cons_ne_nil _ _),
    ← List.append_assoc]
  simp only [reserved, List.mem_cons, List.not_mem_nil, or_false, not_or] at hlast
  simp [scan, isDelim, flush, hlast]

theorem scan_single {c : Char} (hc : c ∈ ['+', '-', '/', '*', '^', '(', ')']) {cs : List Char}
    (hne : cs ≠ []) :
    scan sym flag (c :: cs) = flush sym ++ String.ofList [c] :: scan [] flag cs := by
  obtain ⟨following, rest, rfl⟩ := List.exists_cons_of_ne_nil hne
  have hspace : c ≠ ' ' := by
    rintro rfl
    exact absurd hc (by decide)
  simp only [List.mem_cons, List.not_mem_nil, or_false] at hc
  rw [scan, if_neg hspace, if_pos hc, List.append_assoc]
  rfl

theorem scan_closing_last : scan sym flag [')'] = [String.ofList sym, ")"] := by
  simp [scan, isDelim, flush]

/-- Where the flag is set what is pushed begins with the symbol. -/
def merge (sym : List Char) (flag : Bool) (op : List Char) : List String :=
  if flag then [String.ofList (sym ++ op)] else flush sym ++ [String.ofList op]

theorem scan_bool_char {x : Char} (hx : x ∈ ['<', '>', '&', '|', '=']) (c : Char)
    (rest : List Char) :
    scan sym flag (x :: c :: rest) =
      if isDelim c = false then merge sym flag [x] ++ scan [] flag (c :: rest)
      else (if flag then [] else flush sym) ++
        scan ((if flag then sym else []) ++ [x]) true (c :: rest) := by
  have hspace : x ≠ ' ' := by
    rintro rfl
    exact absurd hx (by decide)
  have hsingle : ¬(x = '+' ∨ x = '-' ∨ x = '/' ∨ x = '*' ∨ x = '^' ∨ x = '(' ∨ x = ')') := by
    rintro (rfl | rfl | rfl | rfl | rfl | rfl | rfl) <;> exact absurd hx (by decide)
  simp only [List.mem_cons, List.not_mem_nil, or_false] at hx
  rw [scan, if_neg hspace, if_neg hsingle, if_pos hx]
  cases flag <;> cases isDelim c <;> simp [merge, flush]

/-- The operator ends where something follows that is no operator character. -/
theorem scan_bool_last {x : Char} (hx : x ∈ ['<', '>', '&', '|', '=']) {c : Char}
    {rest : List Char} (hc : isDelim c = false ∨ c = ' ' ∧ rest ≠ []) :
    scan sym flag (x :: c :: rest) = merge sym flag [x] ++ scan [] flag (c :: rest) := by
  obtain hc | ⟨rfl, hne⟩ := hc
  · rw [scan_bool_char hx, if_pos hc]
  · have hgap : ∀ sym flag, scan sym flag (' ' :: rest) = flush sym ++ scan [] false rest :=
      fun sym flag => by simpa using scan_gap sym flag 1 hne
    rw [scan_bool_char hx, if_neg (by decide), hgap, hgap]
    cases flag <;> simp [merge, flush]

theorem scan_bool {o : Operator} (ho : o.IsBool) {c : Char} {rest : List Char}
    (hc : isDelim c = false ∨ c = ' ' ∧ rest ≠ []) :
    scan sym flag (o.text.toList ++ c :: rest) =
      merge sym flag o.text.toList ++ scan [] (flag || decide o.IsLong) (c :: rest) := by
  have hshort : ∀ x ∈ ['<', '>', '&', '|', '='],
      scan sym flag ([x] ++ c :: rest) =
        merge sym flag [x] ++ scan [] (flag || false) (c :: rest) := by
    intro x hx
    rw [List.singleton_append, scan_bool_last hx hc, Bool.or_false]
  have hlong : ∀ x ∈ ['<', '>', '&', '|', '='], ∀ y ∈ ['&', '|', '='],
      scan sym flag ([x, y] ++ c :: rest) =
        merge sym flag [x, y] ++ scan [] (flag || true) (c :: rest) := by
    intro x hx y hy
    have hdelim : ¬isDelim y = false := by
      simp only [List.mem_cons, List.not_mem_nil, or_false] at hy
      obtain rfl | rfl | rfl := hy <;> decide
    have hy : y ∈ ['<', '>', '&', '|', '='] := List.mem_cons_of_mem _ (List.mem_cons_of_mem _ hy)
    rw [List.cons_append, List.singleton_append, scan_bool_char hx, if_neg hdelim,
      scan_bool_last hy hc, Bool.or_true]
    cases flag <;> simp [merge, flush]
  cases o with
  | less => exact hshort '<' (by decide)
  | greater => exact hshort '>' (by decide)
  | lessEq => exact hlong '<' (by decide) '=' (by decide)
  | greaterEq => exact hlong '>' (by decide) '=' (by decide)
  | equal => exact hlong '=' (by decide) '=' (by decide)
  | and => exact hlong '&' (by decide) '&' (by decide)
  | or => exact hlong '|' (by decide) '|' (by decide)
  | _ => exact absurd ho (by decide)

end

/-! ## Where the tokens are found -/

def isAtom : Token Operand Operator → Bool
  | .atom _ => true
  | _ => false

def isClosing : Token Operand Operator → Bool
  | .closing => true
  | _ => false

def isLong : Token Operand Operator → Bool
  | .op o => decide o.IsLong
  | _ => false

def isBool : Token Operand Operator → Bool
  | .op o => decide o.IsBool
  | _ => false

/-- A comparison or a logical operator follows without a space. -/
def startsBool : List (ℕ × Token Operand Operator) → Bool
  | [] => false
  | (g, t) :: _ => decide (g = 0) && isBool t

/-- Before the next space a comparison or a logical operator comes straight after an operand. -/
def merges : List (ℕ × Token Operand Operator) → Bool
  | [] => false
  | (g, t) :: ts => decide (g = 0) && (isAtom t && startsBool ts || merges ts)

/-- A comparison or a logical operator comes straight after an operand, and between the last
space and that operand there is an operator of two characters. -/
def sticks : List (ℕ × Token Operand Operator) → Bool
  | [] => false
  | (_, t) :: ts => isLong t && merges ts || sticks ts

/-- The text ends with a parenthesis that does not come straight after an operand; the first
argument says whether an operand comes before the text. -/
def endsBare (held : Bool) : List (ℕ × Token Operand Operator) → Bool
  | [] => false
  | (g, t) :: ts =>
      ts.isEmpty && isClosing t && !(held && decide (g = 0)) || endsBare (isAtom t) ts

/-- The tokens are found when the flag is as given and an operand is held or not. -/
def smooth (held flag : Bool) (ts : List (ℕ × Token Operand Operator)) : Bool :=
  !sticks ts && !endsBare held ts && !(flag && merges ts) && !(flag && held && startsBool ts)

section

variable {held flag : Bool} {ts : List (ℕ × Token Operand Operator)}

theorem smooth_gap (g : ℕ) (t : Token Operand Operator) :
    smooth held flag ((g, t) :: ts) =
      smooth (held && decide (g = 0)) (flag && decide (g = 0)) ((0, t) :: ts) := by
  simp only [smooth, sticks, endsBare, merges, startsBool]
  cases held <;> cases flag <;> cases decide (g = 0) <;> simp

theorem smooth_atom (w : Operand) :
    smooth held flag ((0, .atom w) :: ts) = smooth true flag ts := by
  simp only [smooth, sticks, endsBare, merges, startsBool, isAtom, isClosing, isLong, isBool]
  cases flag <;> cases merges ts <;> cases startsBool ts <;> simp

theorem smooth_opening :
    smooth held flag ((0, .opening) :: ts) = smooth false flag ts := by
  simp [smooth, sticks, endsBare, merges, startsBool, isAtom, isClosing, isLong, isBool]

theorem smooth_closing (hne : ts ≠ []) :
    smooth held flag ((0, .closing) :: ts) = smooth false flag ts := by
  have hempty : ts.isEmpty = false := List.isEmpty_eq_false_iff.mpr hne
  simp [smooth, sticks, endsBare, merges, startsBool, isAtom, isClosing, isLong, isBool, hempty]

theorem smooth_closing_last : smooth held flag [(0, .closing)] = held := by
  simp [smooth, sticks, endsBare, merges, startsBool, isAtom, isClosing, isLong, isBool]

theorem smooth_op (o : Operator) :
    smooth held flag ((0, .op o) :: ts) =
      (!(flag && held && decide o.IsBool) && smooth false (flag || decide o.IsLong) ts) := by
  simp only [smooth, sticks, endsBare, merges, startsBool, isAtom, isClosing, isLong, isBool]
  cases flag <;> cases merges ts <;> cases decide o.IsLong <;> cases sticks ts <;>
    simp [Bool.and_comm]

end

/-- Either the expected strings are found or a string that is no token. -/
def Reads (good : Bool) (found expected : List String) : Prop :=
  if good then found = expected else ∃ s ∈ found, Broken s

theorem Reads.append {good : Bool} {found expected : List String}
    (h : Reads good found expected) (front : List String) :
    Reads good (front ++ found) (front ++ expected) := by
  cases good with
  | true => exact congrArg (front ++ ·) h
  | false =>
      obtain ⟨s, hs, hbroken⟩ := h
      exact ⟨s, List.mem_append_right _ hs, hbroken⟩

def texts (ts : List (ℕ × Token Operand Operator)) : List String := ts.map (tokenText ·.2)

section

variable {flag : Bool} {ts : List (ℕ × Token Operand Operator)}

theorem chars_cons (g : ℕ) (t : Token Operand Operator)
    (ts : List (ℕ × Token Operand Operator)) :
    chars ((g, t) :: ts) = List.replicate g ' ' ++ ((tokenText t).toList ++ chars ts) := by
  rw [chars, List.flatMap_cons, List.append_assoc]
  rfl

theorem tokenText_ne_nil (t : Token Operand Operator) : (tokenText t).toList ≠ [] := by
  cases t with
  | atom w => exact w.toList_ne_nil
  | op o => cases o <;> decide
  | opening => decide
  | closing => decide

theorem chars_ne_nil (hne : ts ≠ []) : chars ts ≠ [] := by
  obtain ⟨⟨g, t⟩, ts, rfl⟩ := List.exists_cons_of_ne_nil hne
  rw [chars_cons]
  exact List.append_ne_nil_of_right_ne_nil _
    (List.append_ne_nil_of_left_ne_nil (tokenText_ne_nil t) _)

theorem ne_nil_of_placed (hplaced : Placed true (ts.map Prod.snd)) : ts ≠ [] := by
  rintro rfl
  exact hplaced

/-- What follows an operator begins with a space or with no operator character. -/
theorem exists_chars_of_placed (hplaced : Placed true (ts.map Prod.snd)) :
    ∃ c rest, chars ts = c :: rest ∧ (isDelim c = false ∨ c = ' ' ∧ rest ≠ []) := by
  obtain ⟨⟨g, t⟩, ts, rfl⟩ := List.exists_cons_of_ne_nil
    (ne_nil_of_placed hplaced)
  obtain ⟨c, rest, hchars⟩ := List.exists_cons_of_ne_nil (tokenText_ne_nil t)
  rw [chars_cons]
  cases g with
  | zero =>
      refine ⟨c, rest ++ chars ts, by rw [hchars]; rfl, Or.inl ?_⟩
      cases t with
      | atom w =>
          have hfree := w.isOperand.2 c (hchars ▸ List.mem_cons_self)
          simp only [reserved, List.mem_cons, List.not_mem_nil, or_false, not_or] at hfree
          simp [isDelim, hfree]
      | opening =>
          obtain rfl : '(' = c := (List.cons_eq_cons.mp hchars).1
          decide
      | closing => exact absurd hplaced id
      | op o => exact absurd hplaced id
  | succ g =>
      refine ⟨' ', _, rfl, Or.inr ⟨rfl, ?_⟩⟩
      exact List.append_ne_nil_of_right_ne_nil _
        (List.append_ne_nil_of_left_ne_nil (tokenText_ne_nil t) _)

/-- What is found from a token on, when the symbol and the flag are as given. -/
def ReadsFrom (sym : List Char) (flag : Bool) (ts : List (ℕ × Token Operand Operator)) : Prop :=
  Reads (smooth (!sym.isEmpty) flag ts) (scan sym flag (chars ts)) (flush sym ++ texts ts)

theorem readsFrom_gap {sym : List Char} (g : ℕ) (t : Token Operand Operator)
    (hheld : ReadsFrom sym flag ((0, t) :: ts)) (hspace : ReadsFrom [] false ((0, t) :: ts)) :
    ReadsFrom sym flag ((g, t) :: ts) := by
  cases g with
  | zero => exact hheld
  | succ g =>
      have hne : (tokenText t).toList ++ chars ts ≠ [] :=
        List.append_ne_nil_of_left_ne_nil (tokenText_ne_nil t) _
      have h := Reads.append hspace (flush sym)
      rw [ReadsFrom, smooth_gap, chars_cons, scan_gap _ _ _ hne]
      simpa [chars_cons, flush, texts] using h

theorem flush_operand (w : Operand) : flush w.text.toList = [w.text] := by
  rw [flush, if_neg w.toList_ne_nil, String.ofList_toList]

theorem readsFrom_atom (w : Operand) (hrest : ts ≠ [] → ReadsFrom w.text.toList flag ts) :
    ReadsFrom [] flag ((0, .atom w) :: ts) := by
  have hheld : (!w.text.toList.isEmpty) = true := by
    rw [List.isEmpty_eq_false_iff.mpr w.toList_ne_nil]
    rfl
  have hchars : chars ((0, .atom w) :: ts) = w.text.toList ++ chars ts := chars_cons _ _ _
  rw [ReadsFrom, smooth_atom, hchars]
  by_cases hne : ts = []
  · have hlast : scan [] flag w.text.toList = [w.text] := by
      rw [scan_operand_last w.toList_ne_nil w.isOperand.2, List.nil_append, String.ofList_toList]
    rw [hne, chars, List.flatMap_nil, List.append_nil, hlast]
    cases flag <;> rfl
  · have h := hrest hne
    rw [ReadsFrom, hheld, flush_operand] at h
    rw [scan_operand w.isOperand.2 (chars_ne_nil hne)]
    exact h

theorem readsFrom_opening {sym : List Char} (hne : ts ≠ []) (hrest : ReadsFrom [] flag ts) :
    ReadsFrom sym flag ((0, .opening) :: ts) := by
  have hchars : chars ((0, .opening) :: ts) = '(' :: chars ts := chars_cons _ _ _
  rw [ReadsFrom, smooth_opening, hchars, scan_single (by decide) (chars_ne_nil hne)]
  exact (Reads.append hrest ["("]).append (flush sym)

theorem readsFrom_closing {sym : List Char} (hrest : ts ≠ [] → ReadsFrom [] flag ts) :
    ReadsFrom sym flag ((0, .closing) :: ts) := by
  have hchars : chars ((0, .closing) :: ts) = ')' :: chars ts := chars_cons _ _ _
  rw [ReadsFrom, hchars]
  by_cases hne : ts = []
  · rw [hne, smooth_closing_last, chars, List.flatMap_nil, scan_closing_last]
    cases sym with
    | nil => exact ⟨"", List.mem_cons_self, broken_empty⟩
    | cons c sym => rfl
  · rw [smooth_closing hne, scan_single (by decide) (chars_ne_nil hne)]
    exact (Reads.append (hrest hne) [")"]).append (flush sym)

theorem merge_eq {sym : List Char} {o : Operator} (h : flag = false ∨ sym = []) :
    merge sym flag o.text.toList = flush sym ++ [o.text] := by
  obtain rfl | rfl := h
  · rw [merge, if_neg Bool.false_ne_true, String.ofList_toList]
  · cases flag <;> simp [merge, flush]

theorem readsFrom_op {sym : List Char} (o : Operator) (hplaced : Placed true (ts.map Prod.snd))
    (hsym : sym = [] ∨ ∃ w : Operand, sym = w.text.toList)
    (hrest : ∀ flag, ReadsFrom [] flag ts) : ReadsFrom sym flag ((0, .op o) :: ts) := by
  have hchars : chars ((0, .op o) :: ts) = o.text.toList ++ chars ts := chars_cons _ _ _
  have hfound := (Reads.append (hrest (flag || decide o.IsLong)) [o.text]).append (flush sym)
  rw [ReadsFrom, smooth_op, hchars]
  by_cases ho : o.IsBool
  · obtain ⟨c, rest, hfollow, hc⟩ := exists_chars_of_placed hplaced
    rw [hfollow, scan_bool ho hc, ← hfollow]
    by_cases hmerge : flag = false ∨ sym = []
    · have hgood : (!(flag && !sym.isEmpty && decide o.IsBool)) = true := by
        obtain rfl | rfl := hmerge
        · rfl
        · cases flag <;> rfl
      rw [hgood, Bool.true_and, merge_eq hmerge, List.append_assoc]
      exact hfound
    · -- What the flag glues together is neither an operand nor an operator.
      rw [not_or, Bool.not_eq_false] at hmerge
      obtain ⟨rfl, hne⟩ := hmerge
      obtain ⟨w, rfl⟩ := hsym.resolve_left hne
      have hbad : (!(true && !w.text.toList.isEmpty && decide o.IsBool)) = false := by
        rw [List.isEmpty_eq_false_iff.mpr hne, decide_eq_true ho]
        rfl
      rw [hbad, Bool.false_and, merge, if_pos rfl, ← String.toList_append, String.ofList_toList]
      exact ⟨_, List.mem_append_left _ (List.mem_singleton.mpr rfl), broken_merged w o⟩
  · obtain ⟨c, hc, htext, hlong⟩ := Operator.exists_char_of_not_isBool ho
    have hne := chars_ne_nil (ne_nil_of_placed hplaced)
    rw [decide_eq_false ho, Bool.and_false, Bool.not_false, Bool.true_and, htext,
      List.singleton_append, scan_single hc hne, ← htext, String.ofList_toList]
    rw [decide_eq_false hlong, Bool.or_false] at hfound ⊢
    exact hfound

/-- The symbol is empty, or an operand where no operand is to come. -/
def Holds (b : Bool) (sym : List Char) : Prop :=
  sym = [] ∨ b = false ∧ ∃ w : Operand, sym = w.text.toList

theorem readsFrom_cons {b : Bool} {t : Token Operand Operator} {sym : List Char}
    (hplaced : Placed b (t :: ts.map Prod.snd)) (hsym : Holds b sym)
    (ih : ∀ {b sym flag}, Placed b (ts.map Prod.snd) → ts ≠ [] → Holds b sym →
      ReadsFrom sym flag ts) :
    ReadsFrom sym flag ((0, t) :: ts) := by
  cases b with
  | true =>
      obtain rfl : sym = [] := hsym.resolve_right fun h => absurd h.1 (by decide)
      cases t with
      | atom w =>
          exact readsFrom_atom w fun hne => ih hplaced hne (Or.inr ⟨rfl, w, rfl⟩)
      | opening =>
          have hne := ne_nil_of_placed hplaced
          exact readsFrom_opening hne (ih hplaced hne (Or.inl rfl))
      | closing => exact absurd hplaced id
      | op o => exact absurd hplaced id
  | false =>
      cases t with
      | atom w => exact absurd hplaced id
      | opening => exact absurd hplaced id
      | closing => exact readsFrom_closing fun hne => ih hplaced hne (Or.inl rfl)
      | op o =>
          have hne := ne_nil_of_placed hplaced
          exact readsFrom_op o hplaced (hsym.imp_right And.right) fun flag =>
            ih hplaced hne (Or.inl rfl)

/-- What the tokenizer finds from an operand that it holds, or from nothing. -/
theorem readsFrom_of_placed {b : Bool} (hplaced : Placed b (ts.map Prod.snd)) (hne : ts ≠ [])
    {sym : List Char} (hsym : Holds b sym) : ReadsFrom sym flag ts := by
  induction ts generalizing b sym flag with
  | nil => exact absurd rfl hne
  | cons head ts ih =>
      obtain ⟨g, t⟩ := head
      exact readsFrom_gap g t (readsFrom_cons hplaced hsym fun hp hne hs => ih hp hne hs)
        (readsFrom_cons hplaced (Or.inl rfl) fun hp hne hs => ih hp hne hs)

end

theorem reads_tokenize {e : Expr Operand Operator} {ts : List (ℕ × Token Operand Operator)}
    (hts : ts.map Prod.snd = e.tokens) :
    ∃ tokens, tokenize (spell ts) = some tokens ∧
      Reads (!sticks ts && !endsBare false ts) tokens (texts ts) := by
  have hplaced : Placed true (ts.map Prod.snd) := by
    rw [hts, ← List.append_nil e.tokens, placed_tokens]
    trivial
  have hne := ne_nil_of_placed hplaced
  have hspell : spell ts ≠ "" := fun h => chars_ne_nil hne (String.ofList_eq_empty_iff.mp h)
  refine ⟨scan [] false (chars ts), ?_, ?_⟩
  · rw [tokenize, if_neg hspell, spell, String.toList_ofList]
  · have h : ReadsFrom [] false ts := readsFrom_of_placed hplaced hne (Or.inl rfl)
    simpa [ReadsFrom, smooth, flush] using h

end Hat.MathExpression
