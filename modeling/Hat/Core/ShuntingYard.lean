import Mathlib.Data.List.TakeWhile
import Mathlib.Order.Lattice

/-!
# Infix expressions and the shunting yard

Infix expressions with parentheses and binary operators, their trees and the postfix form of
these.  The shunting yard reads the tokens of an expression with a stack of operators; which
operators an arriving one takes off the stack is a parameter.  What it emits is the postfix
form of the tree exactly when every operator takes off all that its left operand has left.
-/

namespace Hat.ShuntingYard

variable {α β γ : Type*}

/-- An expression as it is written. -/
inductive Expr (α β : Type*)
  | atom (a : α)
  | paren (e : Expr α β)
  | bin (op : β) (l r : Expr α β)

inductive Token (α β : Type*)
  | atom (a : α)
  | op (o : β)
  | opening
  | closing

inductive Tree (α β : Type*)
  | leaf (a : α)
  | node (op : β) (l r : Tree α β)

namespace Expr

def tokens : Expr α β → List (Token α β)
  | atom a => [.atom a]
  | paren e => .opening :: e.tokens ++ [.closing]
  | bin op l r => l.tokens ++ .op op :: r.tokens

def tree : Expr α β → Tree α β
  | atom a => .leaf a
  | paren e => e.tree
  | bin op l r => .node op l.tree r.tree

/-- The outermost operator, where it is not in parentheses. -/
def root? : Expr α β → Option β
  | atom _ => none
  | paren _ => none
  | bin op _ _ => some op

/-- The operators that are not in parentheses. -/
def topOps : Expr α β → List β
  | atom _ => []
  | paren _ => []
  | bin op l r => op :: (l.topOps ++ r.topOps)

theorem exists_root_of_mem_topOps {e : Expr α β} {t : β} (ht : t ∈ e.topOps) :
    ∃ o, o ∈ e.root? := by
  cases e with
  | atom a => exact absurd ht List.not_mem_nil
  | paren e => exact absurd ht List.not_mem_nil
  | bin op l r => exact ⟨op, rfl⟩

/-- Something holds of each operator in the expression with its operands. -/
def EveryBin (P : β → Expr α β → Expr α β → Prop) : Expr α β → Prop
  | atom _ => True
  | paren e => e.EveryBin P
  | bin op l r => P op l r ∧ l.EveryBin P ∧ r.EveryBin P

/-- The parentheses that the ranks of the operators ask for are there, where operators of one
rank associate to the left. -/
def Ranked [LinearOrder γ] (rank : β → γ) : Expr α β → Prop :=
  EveryBin fun op l r =>
    (∀ t ∈ l.root?, rank op ≤ rank t) ∧ ∀ t ∈ r.root?, rank op < rank t

instance decidableEveryBin {P : β → Expr α β → Expr α β → Prop}
    [∀ op l r, Decidable (P op l r)] : (e : Expr α β) → Decidable (e.EveryBin P)
  | atom _ => inferInstanceAs (Decidable True)
  | paren e => decidableEveryBin e
  | bin op l r =>
      have := decidableEveryBin (P := P) l
      have := decidableEveryBin (P := P) r
      inferInstanceAs (Decidable (P op l r ∧ l.EveryBin P ∧ r.EveryBin P))

instance [LinearOrder γ] (rank : β → γ) (e : Expr α β) : Decidable (e.Ranked rank) :=
  inferInstanceAs (Decidable (e.EveryBin _))

end Expr

namespace Tree

def postorder : Tree α β → List (α ⊕ β)
  | leaf a => [.inl a]
  | node op l r => l.postorder ++ r.postorder ++ [.inr op]

def fold (leaf : α → γ) (node : β → γ → γ → γ) : Tree α β → γ
  | .leaf a => leaf a
  | .node op l r => node op (l.fold leaf node) (r.fold leaf node)

end Tree

/-- An operator takes two values off the stack; `short` is for one that does not find them. -/
def evalItem (leaf : α → γ) (node : β → γ → γ → γ) (short : β → γ) (stack : List γ) :
    α ⊕ β → List γ
  | .inl a => leaf a :: stack
  | .inr op =>
      match stack with
      | b :: a :: rest => node op a b :: rest
      | _ => short op :: stack

theorem foldl_evalItem_postorder (leaf : α → γ) (node : β → γ → γ → γ) (short : β → γ)
    (t : Tree α β) (stack : List γ) :
    t.postorder.foldl (evalItem leaf node short) stack = t.fold leaf node :: stack := by
  induction t generalizing stack with
  | leaf a => rfl
  | node op l r ihl ihr =>
      rw [Tree.postorder, List.foldl_append, List.foldl_append, ihl, ihr]
      rfl

theorem Tree.fold_leaf_node (t : Tree α β) : t.fold Tree.leaf Tree.node = t := by
  induction t with
  | leaf a => rfl
  | node op l r ihl ihr => rw [Tree.fold, ihl, ihr]

/-- The tree can be read back from its postfix form. -/
theorem Tree.postorder_injective :
    Function.Injective (Tree.postorder : Tree α β → List (α ⊕ β)) := by
  intro t t' h
  have hfold := foldl_evalItem_postorder Tree.leaf Tree.node (fun _ => t) t []
  rw [h, foldl_evalItem_postorder, fold_leaf_node, fold_leaf_node] at hfold
  exact (List.cons_eq_cons.mp hfold).1.symm

/-- What has been emitted, and the operators and opening parentheses that wait. -/
structure State (α β : Type*) where
  out : List (α ⊕ β)
  stack : List (Option β)

/-- The operators on top of the stack down to one that stays. -/
def popped (p : β → Bool) : List (Option β) → List β
  | some t :: stack => if p t then t :: popped p stack else []
  | _ => []

def left (p : β → Bool) : List (Option β) → List (Option β)
  | some t :: stack => if p t then left p stack else some t :: stack
  | stack => stack

/-- No operator on top of the stack goes. -/
def Blocked (p : β → Bool) (stack : List (Option β)) : Prop :=
  ∀ t, stack.head? = some (some t) → p t = false

theorem blocked_nil (p : β → Bool) : Blocked p [] := by
  intro t h
  cases h

theorem blocked_none (p : β → Bool) (stack : List (Option β)) : Blocked p (none :: stack) := by
  intro t h
  cases h

theorem popped_append {p : β → Bool} {stack : List (Option β)} (h : Blocked p stack)
    (ops : List β) : popped p (ops.map some ++ stack) = ops.takeWhile p := by
  induction ops with
  | nil =>
      match stack, h with
      | [], _ => rfl
      | none :: _, _ => rfl
      | some t :: _, h =>
          have ht : p t = false := h t rfl
          simp only [List.map_nil, List.nil_append, popped, ht, List.takeWhile_nil]
          rfl
  | cons op ops ih =>
      simp only [List.map_cons, List.cons_append, popped, ih, List.takeWhile_cons]

theorem left_append {p : β → Bool} {stack : List (Option β)} (h : Blocked p stack)
    (ops : List β) : left p (ops.map some ++ stack) = (ops.dropWhile p).map some ++ stack := by
  induction ops with
  | nil =>
      match stack, h with
      | [], _ => rfl
      | none :: _, _ => rfl
      | some t :: _, h =>
          have ht : p t = false := h t rfl
          simp only [List.map_nil, List.nil_append, left, ht, List.dropWhile_nil]
          rfl
  | cons op ops ih =>
      simp only [List.map_cons, List.cons_append, left, ih, List.dropWhile_cons]
      split <;> rfl

theorem popped_all {stack : List (Option β)} (h : Blocked (fun _ => true) stack)
    (ops : List β) : popped (fun _ => true) (ops.map some ++ stack) = ops := by
  rw [popped_append h]
  exact List.takeWhile_eq_self_iff.mpr fun _ _ => rfl

theorem left_all {stack : List (Option β)} (h : Blocked (fun _ => true) stack)
    (ops : List β) : left (fun _ => true) (ops.map some ++ stack) = stack := by
  rw [left_append h, List.dropWhile_eq_nil_iff.mpr fun _ _ => rfl]
  rfl

section

variable (pops : β → β → Bool)

def step (st : State α β) : Token α β → State α β
  | .atom a => { st with out := st.out ++ [.inl a] }
  | .op o =>
      { out := st.out ++ (popped (pops · o) st.stack).map .inr
        stack := some o :: left (pops · o) st.stack }
  | .opening => { st with stack := none :: st.stack }
  | .closing =>
      { out := st.out ++ (popped (fun _ => true) st.stack).map .inr
        stack := (left (fun _ => true) st.stack).tail }

def run (st : State α β) (ts : List (Token α β)) : State α β := ts.foldl (step pops) st

/-- At the end the operators that wait are emitted; nothing else may be left. -/
def finish (st : State α β) : Bool × List (α ⊕ β) :=
  ((left (fun _ => true) st.stack).isEmpty,
    st.out ++ (popped (fun _ => true) st.stack).map .inr)

theorem run_append (st : State α β) (ts ts' : List (Token α β)) :
    run pops st (ts ++ ts') = run pops (run pops st ts) ts' := List.foldl_append

theorem run_cons (st : State α β) (t : Token α β) (ts : List (Token α β)) :
    run pops st (t :: ts) = run pops (step pops st t) ts := rfl

namespace Expr

/-- The operators that wait when the expression has been read. -/
def pending : Expr α β → List β
  | atom _ => []
  | paren _ => []
  | bin op l r => r.pending ++ op :: l.pending.dropWhile (pops · op)

/-- What has been emitted when the expression has been read. -/
def emitted : Expr α β → List (α ⊕ β)
  | atom a => [.inl a]
  | paren e => e.emitted ++ (e.pending pops).map .inr
  | bin op l r =>
      l.emitted ++ ((l.pending pops).takeWhile (pops · op)).map .inr ++ r.emitted

/-- No operator of a right operand takes off the operator before it. -/
def Guarded : Expr α β → Prop := EveryBin fun op _ r => ∀ t ∈ r.topOps, pops op t = false

/-- Each operator takes off all that its left operand has left. -/
def Fits : Expr α β → Prop := EveryBin fun op l _ => ∀ t ∈ l.pending pops, pops t op = true

end Expr

variable {pops} {e : Expr α β}

theorem run_tokens (he : e.Guarded pops) {st : State α β}
    (hst : ∀ t ∈ e.topOps, Blocked (pops · t) st.stack) :
    run pops st e.tokens =
      { out := st.out ++ e.emitted pops, stack := (e.pending pops).map some ++ st.stack } := by
  induction e generalizing st with
  | atom a => rfl
  | paren e ih =>
      have hinner : ∀ t ∈ e.topOps, Blocked (pops · t) (none :: st.stack) :=
        fun t _ => blocked_none _ _
      have hblocked : Blocked (fun _ => true) (none :: st.stack) := blocked_none _ _
      rw [Expr.tokens, List.cons_append, run_cons, run_append, step, ih he hinner, run_cons, step,
        popped_all hblocked, left_all hblocked, List.append_assoc]
      rfl
  | bin op l r ihl ihr =>
      obtain ⟨hop, hl, hr⟩ := he
      have hleft : ∀ t ∈ l.topOps, Blocked (pops · t) st.stack := fun t ht =>
        hst t (List.mem_cons_of_mem _ (List.mem_append_left _ ht))
      have hblocked := hst op List.mem_cons_self
      rw [Expr.tokens, run_append, run_cons, ihl hl hleft, step]
      simp only [popped_append hblocked, left_append hblocked]
      rw [ihr hr]
      · simp only [Expr.emitted, Expr.pending, List.append_assoc, List.map_append, List.map_cons,
          List.cons_append]
      · -- The operator itself shields what is below it from the right operand.
        intro t ht s hs
        obtain rfl : op = s := Option.some.inj (Option.some.inj hs)
        exact hop t ht

/-- What the shunting yard makes of an expression. -/
theorem finish_run_tokens (he : e.Guarded pops) :
    finish (run pops ⟨[], []⟩ e.tokens) =
      (true, e.emitted pops ++ (e.pending pops).map .inr) := by
  rw [run_tokens he fun t _ => blocked_nil _, finish, left_all (blocked_nil _),
    popped_all (blocked_nil _)]
  rfl

variable (pops) in
theorem exists_cons_emitted (e : Expr α β) : ∃ a rest, e.emitted pops = .inl a :: rest := by
  induction e with
  | atom a => exact ⟨a, [], rfl⟩
  | paren e ih =>
      obtain ⟨a, rest, h⟩ := ih
      exact ⟨a, rest ++ (e.pending pops).map .inr, by rw [Expr.emitted, h]; rfl⟩
  | bin op l r ihl _ =>
      obtain ⟨a, rest, h⟩ := ihl
      refine ⟨a, rest ++ ((l.pending pops).takeWhile (pops · op)).map .inr ++ r.emitted pops, ?_⟩
      rw [Expr.emitted, h]
      rfl

variable (pops) in
theorem length_emitted_add (e : Expr α β) :
    (e.emitted pops).length + (e.pending pops).length = e.tree.postorder.length := by
  induction e with
  | atom a => rfl
  | paren e ih =>
      rw [Expr.emitted, List.length_append, List.length_map]
      exact ih
  | bin op l r ihl ihr =>
      have hsplit := congrArg List.length
        (List.takeWhile_append_dropWhile (p := (pops · op)) (l := l.pending pops))
      simp only [Expr.emitted, Expr.pending, Expr.tree, Tree.postorder, List.length_append,
        List.length_map, List.length_cons, List.length_nil] at hsplit ⊢
      omega

theorem countP_map_inr (ops : List β) :
    (ops.map (.inr : β → α ⊕ β)).countP Sum.isLeft = 0 := by
  rw [List.countP_map]
  exact List.countP_eq_zero.mpr fun _ _ h => Bool.false_ne_true h

variable (pops) in
/-- All operands have been emitted. -/
theorem countP_emitted (e : Expr α β) :
    (e.emitted pops).countP Sum.isLeft = e.tree.postorder.countP Sum.isLeft := by
  induction e with
  | atom a => rfl
  | paren e ih =>
      rw [Expr.emitted, List.countP_append, countP_map_inr, ih]
      rfl
  | bin op l r ihl ihr =>
      rw [Expr.emitted, Expr.tree, Tree.postorder, List.countP_append, List.countP_append,
        List.countP_append, List.countP_append, countP_map_inr, ihl, ihr]
      rfl

/-- Nothing may be left of the left operand: the next that is emitted is an operand. -/
theorem dropWhile_eq_nil_of_emitted {op : β} {l r : Expr α β} {rest rest' : List (α ⊕ β)}
    (h : l.emitted pops ++ ((l.pending pops).takeWhile (pops · op)).map .inr ++
      (r.emitted pops ++ rest) = l.tree.postorder ++ rest') :
    (l.pending pops).dropWhile (pops · op) = [] := by
  have hlength := length_emitted_add pops l
  have hcount := countP_emitted pops l
  rw [← List.takeWhile_append_dropWhile (p := (pops · op)) (l := l.pending pops),
    List.length_append] at hlength
  obtain ⟨a, more, hr⟩ := exists_cons_emitted pops r
  obtain ⟨between, hleft, hright⟩ | ⟨between, hleft, -⟩ := List.append_eq_append_iff.mp h
  · cases between with
    | nil =>
        rw [hleft, List.append_nil, List.length_append, List.length_map] at hlength
        exact List.eq_nil_of_length_eq_zero (by omega)
    | cons item between =>
        rw [hr, List.cons_append, List.cons_append] at hright
        obtain ⟨rfl, -⟩ := List.cons_eq_cons.mp hright
        rw [hleft, List.countP_append, List.countP_append, countP_map_inr,
          List.countP_cons_of_pos rfl] at hcount
        omega
  · have hlong := congrArg List.length hleft
    simp only [List.length_append, List.length_map] at hlong
    exact List.eq_nil_of_length_eq_zero (by omega)

theorem emitted_append_pending_iff (e : Expr α β) :
    e.emitted pops ++ (e.pending pops).map .inr = e.tree.postorder ↔ e.Fits pops := by
  induction e with
  | atom a => exact iff_of_true rfl trivial
  | paren e ih =>
      rw [Expr.emitted, Expr.pending, List.map_nil, List.append_nil]
      exact ih
  | bin op l r ihl ihr =>
      constructor
      · intro h
        rw [Expr.emitted, Expr.pending, Expr.tree, Tree.postorder,
          List.append_assoc _ (r.emitted pops), List.append_assoc l.tree.postorder,
          List.map_append, List.map_cons] at h
        have hdrop := dropWhile_eq_nil_of_emitted h
        have hop := List.dropWhile_eq_nil_iff.mp hdrop
        have htake := List.takeWhile_eq_self_iff.mpr hop
        have hlength := length_emitted_add pops l
        rw [htake, hdrop] at h
        obtain ⟨hl, hr⟩ := List.append_inj h (by
          rw [List.length_append, List.length_map, hlength])
        rw [List.map_nil, ← List.append_assoc] at hr
        exact ⟨hop, ihl.mp hl, ihr.mp (List.append_cancel_right hr)⟩
      · rintro ⟨hop, hl, hr⟩
        have htake := List.takeWhile_eq_self_iff.mpr hop
        have hdrop := List.dropWhile_eq_nil_iff.mpr hop
        rw [Expr.emitted, Expr.pending, Expr.tree, Tree.postorder, htake, hdrop, ihl.mpr hl,
          List.map_append, List.append_assoc, ← List.append_assoc (r.emitted pops), ihr.mpr hr,
          List.append_assoc]
        rfl

/-! ## Ranks -/

variable [LinearOrder γ] {rank : β → γ}

/-- No operator outside parentheses binds weaker than the outermost one. -/
theorem Expr.Ranked.rank_root_le (he : e.Ranked rank) :
    ∀ t ∈ e.topOps, ∀ o ∈ e.root?, rank o ≤ rank t := by
  induction e with
  | atom a => exact fun t ht => absurd ht List.not_mem_nil
  | paren e _ => exact fun t ht => absurd ht List.not_mem_nil
  | bin op l r ihl ihr =>
      obtain ⟨⟨hleft, hright⟩, hl, hr⟩ := he
      intro t ht o ho
      obtain rfl : op = o := Option.some.inj ho
      obtain rfl | ht := List.mem_cons.mp ht
      · exact le_refl _
      · obtain ht | ht := List.mem_append.mp ht
        · obtain ⟨o, ho⟩ := Expr.exists_root_of_mem_topOps ht
          exact le_trans (hleft o ho) (ihl hl t ht o ho)
        · obtain ⟨o, ho⟩ := Expr.exists_root_of_mem_topOps ht
          exact le_trans (le_of_lt (hright o ho)) (ihr hr t ht o ho)

theorem Expr.mem_topOps_of_mem_pending {t : β} (ht : t ∈ e.pending pops) : t ∈ e.topOps := by
  induction e with
  | atom a => exact absurd ht List.not_mem_nil
  | paren e _ => exact absurd ht List.not_mem_nil
  | bin op l r ihl ihr =>
      rw [pending, List.mem_append, List.mem_cons] at ht
      rw [topOps, List.mem_cons, List.mem_append]
      obtain ht | rfl | ht := ht
      · exact Or.inr (Or.inr (ihr ht))
      · exact Or.inl rfl
      · exact Or.inr (Or.inl (ihl ((List.dropWhile_suffix _).mem ht)))

/-- An operator stays when one that binds stronger arrives. -/
theorem Expr.Ranked.guarded (hpops : ∀ s t, pops s t = true → rank t ≤ rank s)
    (he : e.Ranked rank) : e.Guarded pops := by
  induction e with
  | atom a => trivial
  | paren e ih => exact ih he
  | bin op l r ihl ihr =>
      obtain ⟨⟨-, hright⟩, hl, hr⟩ := he
      refine ⟨fun t ht => ?_, ihl hl, ihr hr⟩
      obtain ⟨o, ho⟩ := Expr.exists_root_of_mem_topOps ht
      have hlt := lt_of_lt_of_le (hright o ho) (Expr.Ranked.rank_root_le hr t ht o ho)
      exact Bool.eq_false_iff.mpr fun hpop => absurd (hpops _ _ hpop) (not_le_of_gt hlt)

/-- With the ranks alone to decide, every operator takes off what its left operand has left. -/
theorem Expr.Ranked.fits (hpops : ∀ s t, rank t ≤ rank s → pops s t = true)
    (he : e.Ranked rank) : e.Fits pops := by
  induction e with
  | atom a => trivial
  | paren e ih => exact ih he
  | bin op l r ihl ihr =>
      obtain ⟨⟨hleft, -⟩, hl, hr⟩ := he
      refine ⟨fun t ht => hpops t op ?_, ihl hl, ihr hr⟩
      have htop := mem_topOps_of_mem_pending ht
      obtain ⟨o, ho⟩ := Expr.exists_root_of_mem_topOps htop
      exact le_trans (hleft o ho) (Expr.Ranked.rank_root_le hl t htop o ho)

/-- The tokens determine the tree. -/
theorem Expr.Ranked.tree_eq {e' : Expr α β} (he : e.Ranked rank) (he' : e'.Ranked rank)
    (htokens : e.tokens = e'.tokens) : e.tree = e'.tree := by
  let byRank : β → β → Bool := fun s t => decide (rank t ≤ rank s)
  have hpops : ∀ s t, byRank s t = true ↔ rank t ≤ rank s := fun s t => decide_eq_true_iff
  have hread : ∀ e : Expr α β, e.Ranked rank →
      finish (run byRank ⟨[], []⟩ e.tokens) = (true, e.tree.postorder) := fun e he => by
    rw [finish_run_tokens (he.guarded fun s t => (hpops s t).mp),
      (emitted_append_pending_iff e).mpr (he.fits fun s t => (hpops s t).mpr)]
  have h := hread e he
  rw [htokens, hread e' he'] at h
  exact Tree.postorder_injective (Prod.mk.inj h).2.symm

/-- The weaker operators of the right operand come out of it. -/
theorem exists_ranked_bin_of_root (op : β) {l r : Expr α β} (hl : l.Ranked rank)
    (hop : ∀ p ∈ l.root?, rank op ≤ rank p) (hr : r.Ranked rank) :
    ∃ e : Expr α β, e.Ranked rank ∧ e.tokens = l.tokens ++ .op op :: r.tokens ∧
      ∀ t ∈ e.root?, t = op ∨ t ∈ r.root? := by
  have hroot : ∀ t, some op = some t → t = op := fun t ht => (Option.some.inj ht).symm
  induction r with
  | atom a =>
      exact ⟨.bin op l (.atom a), ⟨⟨hop, fun t ht => nomatch ht⟩, hl, hr⟩, rfl,
        fun t ht => Or.inl (hroot t ht)⟩
  | paren r _ =>
      exact ⟨.bin op l (.paren r), ⟨⟨hop, fun t ht => nomatch ht⟩, hl, hr⟩, rfl,
        fun t ht => Or.inl (hroot t ht)⟩
  | bin o r₁ r₂ ih _ =>
      by_cases ho : rank o ≤ rank op
      · obtain ⟨⟨hleft, hright⟩, hr₁, hr₂⟩ := hr
        obtain ⟨e, he, htokens, hroot⟩ := ih hr₁
        refine ⟨.bin o e r₂, ⟨⟨fun t ht => ?_, hright⟩, he, hr₂⟩, ?_, fun t ht => Or.inr ht⟩
        · obtain rfl | ht := hroot t ht
          · exact ho
          · exact hleft t ht
        · rw [Expr.tokens, htokens, Expr.tokens, List.append_assoc, List.cons_append]
      · refine ⟨.bin op l (.bin o r₁ r₂), ⟨⟨hop, fun t ht => ?_⟩, hl, hr⟩, rfl,
          fun t ht => Or.inl (hroot t ht)⟩
        obtain rfl : o = t := Option.some.inj ht
        exact lt_of_not_ge ho

/-- Two expressions can be grouped anew to one with an operator between them. -/
theorem exists_ranked_bin (op : β) {l r : Expr α β} (hl : l.Ranked rank) (hr : r.Ranked rank) :
    ∃ e : Expr α β, e.Ranked rank ∧ e.tokens = l.tokens ++ .op op :: r.tokens := by
  induction l generalizing r with
  | atom a =>
      obtain ⟨e, he, htokens, -⟩ :=
        exists_ranked_bin_of_root op hl (fun p hp => nomatch hp) hr
      exact ⟨e, he, htokens⟩
  | paren l _ =>
      obtain ⟨e, he, htokens, -⟩ :=
        exists_ranked_bin_of_root op hl (fun p hp => nomatch hp) hr
      exact ⟨e, he, htokens⟩
  | bin p l₁ l₂ _ ih =>
      by_cases hop : rank op ≤ rank p
      · have hroot : ∀ t ∈ (Expr.bin p l₁ l₂).root?, rank op ≤ rank t := fun t ht =>
          Option.some.inj ht ▸ hop
        obtain ⟨e, he, htokens, -⟩ := exists_ranked_bin_of_root op hl hroot hr
        exact ⟨e, he, htokens⟩
      · -- The operator goes to the right operand of the weaker one.
        obtain ⟨⟨hleft, -⟩, hl₁, hl₂⟩ := hl
        obtain ⟨e₂, he₂, htokens₂⟩ := ih hl₂ hr
        obtain ⟨e, he, htokens, -⟩ := exists_ranked_bin_of_root p hl₁ hleft he₂
        exact ⟨e, he, by rw [htokens, htokens₂, Expr.tokens, List.append_assoc, List.cons_append]⟩

/-- Every expression can be grouped anew as the ranks ask for. -/
theorem exists_ranked (rank : β → γ) (e : Expr α β) :
    ∃ e' : Expr α β, e'.Ranked rank ∧ e'.tokens = e.tokens := by
  induction e with
  | atom a => exact ⟨.atom a, trivial, rfl⟩
  | paren e ih =>
      obtain ⟨e', hranked, htokens⟩ := ih
      exact ⟨.paren e', hranked, by rw [Expr.tokens, htokens, Expr.tokens]⟩
  | bin op l r ihl ihr =>
      obtain ⟨l', hl, hltokens⟩ := ihl
      obtain ⟨r', hr, hrtokens⟩ := ihr
      obtain ⟨e', he, htokens⟩ := exists_ranked_bin op hl hr
      exact ⟨e', he, by rw [htokens, hltokens, hrtokens, Expr.tokens]⟩

end

end Hat.ShuntingYard
