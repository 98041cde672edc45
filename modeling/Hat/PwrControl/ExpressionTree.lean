import Hat.PwrControl.MathExpression
import Mathlib.Algebra.Field.Rat
import Mathlib.Algebra.Order.Ring.Unbundled.Rat

/-!
# The tree of an expression

The loop over the tokens is a shunting yard whose logical operators are never taken off the
stack by another operator.  The vector is the postfix form of the tree exactly when the tokens
are found and no logical operator is, without parentheses, the left operand of another one.
-/

namespace Hat.MathExpression

open Hat.ShuntingYard

/-- The operator `t` takes `s` off the stack. -/
def pops (s t : Operator) : Bool := decide (t.rank ≤ s.rank) && !decide s.IsLogical

theorem pops_iff (s t : Operator) : pops s t = true ↔ t.rank ≤ s.rank ∧ ¬s.IsLogical := by
  rw [pops, Bool.and_eq_true, decide_eq_true_iff, Bool.not_eq_true', decide_eq_false_iff_not]

theorem precedence_text (s t : Operator) :
    decide (0 ≤ precedence s.text t.text) = pops s t := by
  cases s <;> cases t <;> rfl

def itemText : Operand ⊕ Operator → String := Sum.elim Operand.text Operator.text

def stackText : Option Operator → String
  | none => "("
  | some o => o.text

theorem Operand.not_isOperator (w : Operand) :
    isOperator w.text = false ∧ w.text ≠ "(" ∧ w.text ≠ ")" := by
  obtain ⟨c, hc, hfree⟩ := w.exists_mem
  exact not_isOperator_of_head hc hfree

theorem itemText_injective : Function.Injective itemText := by
  have hne : ∀ (w : Operand) (o : Operator), w.text ≠ o.text := fun w o h =>
    Bool.false_ne_true (w.not_isOperator.1.symm.trans (h ▸ o.isOperator_text))
  exact Operand.text_injective.sumElim Operator.text_injective hne

def toParsing (st : State Operand Operator) : Parsing :=
  ⟨st.out.map itemText, st.stack.map stackText⟩

theorem popWhile_map (goes : String → Bool) (p : Operator → Bool) (h : ∀ o, goes o.text = p o)
    (vector : List String) (stack : List (Option Operator)) :
    popWhile goes vector (stack.map stackText) =
      ⟨vector ++ (popped p stack).map Operator.text, (left p stack).map stackText⟩ := by
  induction stack generalizing vector with
  | nil => simp [popWhile, popped, left]
  | cons top stack ih =>
      cases top with
      | none => simp [popWhile, popped, left, stackText]
      | some o =>
          rw [List.map_cons, popWhile, popped, left, stackText, h]
          by_cases hp : p o = true
          · rw [if_pos ⟨o.text_ne_opening, hp⟩, if_pos hp, if_pos hp, ih, List.map_cons,
              List.append_assoc]
            rfl
          · rw [if_neg fun hboth => hp hboth.2, if_neg hp, if_neg hp, List.map_nil,
              List.append_nil]
            rfl

theorem map_itemText_inr (ops : List Operator) :
    (ops.map .inr).map itemText = ops.map Operator.text := by
  rw [List.map_map]
  rfl

theorem popWhile_toParsing (goes : String → Bool) (p : Operator → Bool)
    (h : ∀ o, goes o.text = p o) (st : State Operand Operator) :
    popWhile goes (toParsing st).vector (toParsing st).stack =
      toParsing ⟨st.out ++ (popped p st.stack).map .inr, left p st.stack⟩ := by
  rw [toParsing, popWhile_map goes p h, toParsing, List.map_append, map_itemText_inr]

/-- On an empty stack there is nothing to take off. -/
theorem parseToken_operator (p : Parsing) (o : Operator) :
    parseToken p o.text =
      let q := popWhile (fun top => 0 ≤ precedence top o.text) p.vector p.stack
      { q with stack := o.text :: q.stack } := by
  obtain ⟨vector, stack⟩ := p
  rw [parseToken, if_neg o.text_ne_opening]
  cases stack with
  | nil => exact if_pos ⟨o.isOperator_text, rfl⟩
  | cons top stack =>
      have hne : top :: stack ≠ [] := List.cons_ne_nil _ _
      rw [if_neg fun h => hne h.2, if_pos ⟨o.isOperator_text, hne⟩]

theorem parseToken_text (st : State Operand Operator) (t : Token Operand Operator) :
    parseToken (toParsing st) (tokenText t) = toParsing (step pops st t) := by
  cases t with
  | atom w =>
      obtain ⟨hoperator, hopening, hclosing⟩ := w.not_isOperator
      simp [parseToken, tokenText, toParsing, step, hoperator, hopening, hclosing, itemText]
  | op o =>
      rw [tokenText, parseToken_operator,
        popWhile_toParsing (fun top => 0 ≤ precedence top o.text) (pops · o) (precedence_text · o)]
      rfl
  | opening => rfl
  | closing =>
      have hparse : parseToken (toParsing st) ")" =
          let q := popWhile (fun _ => true) (toParsing st).vector (toParsing st).stack
          { q with stack := q.stack.tail } := rfl
      rw [tokenText, hparse, popWhile_toParsing _ (fun _ => true) fun _ => rfl, step, toParsing,
        toParsing, List.map_tail]

theorem foldl_parseToken (ts : List (Token Operand Operator)) (st : State Operand Operator) :
    (ts.map tokenText).foldl parseToken (toParsing st) = toParsing (run pops st ts) := by
  rw [List.foldl_map]
  exact List.foldl_hom toParsing fun st t => parseToken_text st t

theorem parse_eq {exp : String} {ts : List (Token Operand Operator)}
    (h : tokenize exp = some (ts.map tokenText)) :
    parse [] exp =
      some (Prod.map id (List.map itemText) (finish (run pops ⟨[], []⟩ ts))) := by
  have hstart : (⟨[], []⟩ : Parsing) = toParsing ⟨[], []⟩ := rfl
  have hall := popWhile_toParsing (fun _ => true) (fun _ => true) (fun _ => rfl)
    (run pops ⟨[], []⟩ ts)
  rw [parse, h, Option.map_some, hstart, foldl_parseToken]
  simp only [hall]
  rw [toParsing, List.isEmpty_map]
  rfl

theorem mem_popWhile {s : String} {goes : String → Bool} {vector : List String}
    (h : s ∈ vector) (stack : List String) : s ∈ (popWhile goes vector stack).vector := by
  induction stack generalizing vector with
  | nil => exact h
  | cons top stack ih =>
      rw [popWhile]
      split
      · exact ih (List.mem_append_left _ h)
      · exact h

theorem mem_parseToken {s : String} {p : Parsing} (h : s ∈ p.vector) (token : String) :
    s ∈ (parseToken p token).vector := by
  rw [parseToken]
  split
  · exact h
  split
  · exact h
  split
  · exact mem_popWhile h _
  split
  · exact mem_popWhile h _
  · exact List.mem_append_left _ h

theorem Broken.mem_parseToken {s : String} (h : Broken s) (p : Parsing) :
    s ∈ (parseToken p s).vector := by
  obtain ⟨hoperator, hopening, hclosing, -⟩ := h
  have hnot : ¬isOperator s = true := Bool.eq_false_iff.mp hoperator
  rw [parseToken, if_neg hopening, if_neg fun h => hnot h.1, if_neg fun h => hnot h.1,
    if_neg hclosing]
  exact List.mem_append_right _ (List.mem_singleton.mpr rfl)

theorem mem_foldl_parseToken {s : String} {tokens : List String} {p : Parsing}
    (h : s ∈ p.vector ∨ s ∈ tokens ∧ Broken s) : s ∈ (tokens.foldl parseToken p).vector := by
  induction tokens generalizing p with
  | nil => exact h.resolve_right fun h => absurd h.1 List.not_mem_nil
  | cons token tokens ih =>
      refine ih ?_
      obtain h | ⟨hs, hbroken⟩ := h
      · exact Or.inl (mem_parseToken h token)
      · obtain rfl | hs := List.mem_cons.mp hs
        · exact Or.inl (hbroken.mem_parseToken p)
        · exact Or.inr ⟨hs, hbroken⟩

/-- A string that is no token comes into the vector. -/
theorem mem_parse {exp s : String} {tokens vector : List String} {ok : Bool}
    (htokens : tokenize exp = some tokens) (hs : s ∈ tokens) (hbroken : Broken s)
    (hparse : parse [] exp = some (ok, vector)) : s ∈ vector := by
  rw [parse, htokens, Option.map_some] at hparse
  obtain rfl : _ = vector := (Prod.mk.inj (Option.some.inj hparse)).2
  exact mem_popWhile (mem_foldl_parseToken (Or.inr ⟨hs, hbroken⟩)) _

theorem not_broken_itemText (item : Operand ⊕ Operator) : ¬Broken (itemText item) := by
  rintro ⟨hoperator, -, -, hoperand⟩
  cases item with
  | inl w => exact hoperand w.isOperand
  | inr o => exact Bool.false_ne_true (hoperator.symm.trans o.isOperator_text)

/-- No logical operator is, outside parentheses, the outermost one of a left operand. -/
def Separated (e : Expr Operand Operator) : Prop :=
  e.EveryBin fun _ l _ => ∀ t ∈ l.root?, ¬t.IsLogical

instance (e : Expr Operand Operator) : Decidable (Separated e) :=
  inferInstanceAs (Decidable (e.EveryBin _))

theorem guarded_of_ranked {e : Expr Operand Operator} (he : e.Ranked Operator.rank) :
    e.Guarded pops := he.guarded fun s t h => ((pops_iff s t).mp h).1

/-- With a logical operator outermost on its left an operator leaves something behind. -/
theorem fits_iff {e : Expr Operand Operator} (he : e.Ranked Operator.rank) :
    e.Fits pops ↔ Separated e := by
  induction e with
  | atom w => exact Iff.rfl
  | paren e ih => exact ih he
  | bin op l r ihl ihr =>
      obtain ⟨⟨hleft, -⟩, hl, hr⟩ := he
      refine and_congr ⟨fun h t ht => ?_, fun h t ht => ?_⟩ (and_congr (ihl hl) (ihr hr))
      · refine ((pops_iff t op).mp (h t ?_)).2
        cases l with
        | atom w => exact nomatch ht
        | paren l => exact nomatch ht
        | bin o l₁ l₂ =>
            obtain rfl : o = t := Option.some.inj ht
            exact List.mem_append_right _ List.mem_cons_self
      · have htop := Expr.mem_topOps_of_mem_pending ht
        obtain ⟨o, ho⟩ := Expr.exists_root_of_mem_topOps htop
        have hroot := hleft o ho
        have hrank := Expr.Ranked.rank_root_le hl t htop o ho
        have hlogical := h o ho
        rw [Operator.isLogical_iff_rank] at hlogical
        rw [pops_iff, Operator.isLogical_iff_rank]
        exact ⟨le_trans hroot hrank, fun hlow => hlogical (lt_of_le_of_lt hrank hlow)⟩

/-- A well-formed expression, whichever way its operands are grouped, has one tree. -/
theorem existsUnique_tree (e : Expr Operand Operator) :
    ∃! t, ∃ e' : Expr Operand Operator,
      e'.Ranked Operator.rank ∧ e'.tokens = e.tokens ∧ e'.tree = t := by
  obtain ⟨e', he', htokens⟩ := exists_ranked Operator.rank e
  refine ⟨e'.tree, ⟨e', he', htokens, rfl⟩, ?_⟩
  rintro _ ⟨e'', he'', htokens'', rfl⟩
  exact he''.tree_eq he' (htokens''.trans htokens.symm)

section

variable {K : Type*} [Field K] [LinearOrder K] (pow : K → K → K)

/-- What the operator means: comparisons and logical operators have the values one and zero,
equality leaves a tolerance and nothing is divided by zero. -/
def Operator.value : Operator → K → K → K
  | power, a, b => pow a b
  | times, a, b => a * b
  | divide, a, b => if b = 0 then 0 else a / b
  | plus, a, b => a + b
  | minus, a, b => a - b
  | less, a, b => if a < b then 1 else 0
  | greater, a, b => if b < a then 1 else 0
  | lessEq, a, b => if a ≤ b then 1 else 0
  | greaterEq, a, b => if b ≤ a then 1 else 0
  | equal, a, b => if b < a + EPSILON ∧ a < b + EPSILON then 1 else 0
  | and, a, b => if 0 < a ∧ 0 < b then 1 else 0
  | or, a, b => if 0 < a ∨ 0 < b then 1 else 0

/-- The value of a tree with the values of the symbols. -/
def value (symtab : String → K) (t : Tree Operand Operator) : K :=
  t.fold (fun w => symtab w.text) (Operator.value pow)

theorem evalOP_text (o : Operator) (a b : K) : evalOP pow o.text a b = o.value pow a b := by
  cases o with
  | divide => simp only [evalOP, Operator.text, Operator.value, ne_eq, ite_not]; simp
  | _ => simp [evalOP, Operator.text, Operator.value]

theorem evalToken_itemText (symtab : String → K) (stack : List K) (item : Operand ⊕ Operator) :
    evalToken pow symtab stack (itemText item) =
      evalItem (fun w => symtab w.text) (Operator.value pow) (fun o => symtab o.text) stack
        item := by
  cases item with
  | inl w =>
      match stack with
      | [] => rfl
      | [_] => rfl
      | _ :: _ :: _ => exact if_neg (Bool.eq_false_iff.mp w.not_isOperator.1)
  | inr o =>
      match stack with
      | [] => rfl
      | [_] => rfl
      | _ :: _ :: _ =>
          rw [evalItem, ← evalOP_text]
          exact if_pos o.isOperator_text

theorem evaluate_postorder (symtab : String → K) (t : Tree Operand Operator) :
    evaluate pow symtab (t.postorder.map itemText) = value pow symtab t := by
  have hstep : (fun stack item => evalToken pow symtab stack (itemText item)) =
      evalItem (fun w => symtab w.text) (Operator.value pow) (fun o => symtab o.text) := by
    funext stack item
    apply evalToken_itemText
  calc evaluate pow symtab (t.postorder.map itemText)
      = (t.postorder.foldl (evalItem (fun w => symtab w.text) (Operator.value pow)
          fun o => symtab o.text) []).headD 0 := by rw [evaluate, List.foldl_map, hstep]
    _ = value pow symtab t := by
        rw [foldl_evalItem_postorder]
        rfl

end

/-! ## What the parser makes of an expression -/

section

variable {e : Expr Operand Operator} {ts : List (ℕ × Token Operand Operator)}

theorem parse_of_smooth (he : e.Ranked Operator.rank) (hts : ts.map Prod.snd = e.tokens)
    (hsmooth : (!sticks ts && !endsBare false ts) = true) :
    parse [] (spell ts) =
      some (true, (e.emitted pops ++ (e.pending pops).map Sum.inr).map itemText) := by
  obtain ⟨tokens, htokens, hreads⟩ := reads_tokenize hts
  rw [hsmooth] at hreads
  have hfound : tokens = e.tokens.map tokenText := by
    rw [show tokens = texts ts from hreads, ← hts, List.map_map]
    rfl
  rw [hfound] at htokens
  calc parse [] (spell ts)
      = some (Prod.map id (List.map itemText) (finish (run pops ⟨[], []⟩ e.tokens))) :=
        parse_eq htokens
    _ = some (true, _) := by
        rw [finish_run_tokens (guarded_of_ranked he)]
        rfl

theorem parse_ne_of_not_smooth (hts : ts.map Prod.snd = e.tokens)
    (hsmooth : (!sticks ts && !endsBare false ts) = false) (ok : Bool)
    (items : List (Operand ⊕ Operator)) : parse [] (spell ts) ≠ some (ok, items.map itemText) := by
  obtain ⟨tokens, htokens, hreads⟩ := reads_tokenize hts
  rw [hsmooth] at hreads
  obtain ⟨s, hs, hbroken⟩ := hreads
  intro hparse
  obtain ⟨item, -, rfl⟩ := List.mem_map.mp (mem_parse htokens hs hbroken hparse)
  exact not_broken_itemText item hbroken

/-- The vector is the postfix form of the tree, and evaluates to its value, exactly for the
expressions whose tokens are found and whose logical operators are separated. -/
theorem parse_spell_iff {K : Type*} [Field K] [LinearOrder K] (pow : K → K → K)
    (he : e.Ranked Operator.rank) (hts : ts.map Prod.snd = e.tokens) :
    (parse [] (spell ts) = some (true, e.tree.postorder.map itemText) ∧
      ∀ symtab, (parse [] (spell ts)).map (fun result => evaluate pow symtab result.2) =
        some (value pow symtab e.tree)) ↔
      sticks ts = false ∧ endsBare false ts = false ∧ Separated e := by
  have hvalue : parse [] (spell ts) = some (true, e.tree.postorder.map itemText) →
      ∀ symtab, (parse [] (spell ts)).map (fun result => evaluate pow symtab result.2) =
        some (value pow symtab e.tree) := fun h symtab => by
    rw [h, Option.map_some, evaluate_postorder]
  rw [and_iff_left_of_imp hvalue, ← and_assoc]
  have hgood : (!sticks ts && !endsBare false ts) = true ↔
      sticks ts = false ∧ endsBare false ts = false := by
    rw [Bool.and_eq_true, Bool.not_eq_true', Bool.not_eq_true']
  rw [← hgood]
  cases hsmooth : !sticks ts && !endsBare false ts with
  | true =>
      rw [parse_of_smooth he hts hsmooth, Option.some.injEq, Prod.mk.injEq, ← fits_iff he,
        ← emitted_append_pending_iff,
        List.map_inj_right fun _ _ h => itemText_injective h]
  | false =>
      refine iff_of_false (parse_ne_of_not_smooth hts hsmooth true _) fun h => ?_
      exact Bool.false_ne_true h.1

end

/-- Warm enough, and somebody is there. -/
def warmAndPresent : Expr Operand Operator :=
  .bin .and (.bin .greaterEq (.atom ⟨"t", by decide⟩) (.atom ⟨"20", by decide⟩))
    (.atom ⟨"present", by decide⟩)

/-- The text with a number of spaces before the logical operator and none elsewhere. -/
def warmAndPresentText (g : ℕ) : List (ℕ × Token Operand Operator) :=
  List.zip [0, 0, 0, g, 0] warmAndPresent.tokens

theorem parse_spell_iff_warmAndPresent :
    let pow : ℚ → ℚ → ℚ := fun a b => a ^ b.num.toNat
    parse [] "t>=20 &&present" = some (true, ["t", "20", ">=", "present", "&&"]) ∧
      ∀ symtab, (parse [] "t>=20 &&present").map (fun result => evaluate pow symtab result.2) =
        some (value pow symtab warmAndPresent.tree) := by
  have he : warmAndPresent.Ranked Operator.rank := by decide
  have hts : (warmAndPresentText 1).map Prod.snd = warmAndPresent.tokens := rfl
  exact (parse_spell_iff _ he hts).mpr ⟨by decide, by decide, by decide⟩

/-- Without a space the operator goes to the numeral before it. -/
theorem not_parse_warmAndPresent :
    ¬∀ (e : Expr Operand Operator) (ts : List (ℕ × Token Operand Operator)),
      e.Ranked Operator.rank → ts.map Prod.snd = e.tokens →
        parse [] (spell ts) = some (true, e.tree.postorder.map itemText) := by
  intro h
  have hparse := h warmAndPresent (warmAndPresentText 0) (by decide) rfl
  exact absurd hparse (by decide)

end Hat.MathExpression
