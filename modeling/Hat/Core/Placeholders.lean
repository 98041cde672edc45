import Hat.Core.Places
import Hat.Core.WhileLoop
import Mathlib.Data.List.MinMax

/-!
# Placeholders that are filled in one after the other

A text has placeholders, the longest keys of a table that start in it.  They are to be filled
in all at once.  A loop takes one key after the other and replaces its first place until there
is none left.  It does the same where no key is ever found in another place than those of its
own: not within a value, not across its ends and not within a longer key.
-/

namespace Hat.Placeholders

open Hat.WhileLoop

section Pieces

variable {α : Type*}

inductive Piece (α : Type*)
  | letter (c : α)
  | field (key : List α)
  deriving DecidableEq

/-- The pieces with a value for each field. -/
def filled (value : List α → List α) (pieces : List (Piece α)) : List α :=
  pieces.flatMap fun
    | .letter c => [c]
    | .field key => value key

/-- The pieces as they are. -/
def letters (pieces : List (Piece α)) : List α := filled id pieces

@[simp]
theorem letters_nil : letters ([] : List (Piece α)) = [] := rfl

@[simp]
theorem letters_letter (c : α) (rest : List (Piece α)) :
    letters (.letter c :: rest) = c :: letters rest := rfl

@[simp]
theorem letters_field (key : List α) (rest : List (Piece α)) :
    letters (.field key :: rest) = key ++ letters rest := rfl

@[simp]
theorem filled_letter (value : List α → List α) (c : α) (rest : List (Piece α)) :
    filled value (.letter c :: rest) = c :: filled value rest := rfl

@[simp]
theorem filled_field (value : List α → List α) (key : List α) (rest : List (Piece α)) :
    filled value (.field key :: rest) = value key ++ filled value rest := rfl

theorem filled_letters_append (value : List α → List α) (text : List α)
    (rest : List (Piece α)) :
    filled value (text.map .letter ++ rest) = text ++ filled value rest := by
  induction text with
  | nil => rfl
  | cons c text ih => rw [List.map_cons, List.cons_append, filled_letter, ih, List.cons_append]

theorem filled_congr {f g : List α → List α} {pieces : List (Piece α)}
    (hsame : ∀ key, .field key ∈ pieces → f key = g key) : filled f pieces = filled g pieces := by
  refine List.flatMap_congr fun piece hpiece => ?_
  cases piece with
  | letter c => rfl
  | field key => exact hsame key hpiece

end Pieces

variable {α : Type*} [DecidableEq α]

/-- The longest key that starts a text. -/
def longest (keys : List (List α)) (text : List α) : Option (List α) :=
  (keys.filter fun key => key <+: text).argmax List.length

/-- The pieces of a text behind its first letters. -/
def piecesFrom (keys : List (List α)) : ℕ → List α → List (Piece α)
  | _, [] => []
  | skip + 1, _ :: rest => piecesFrom keys skip rest
  | 0, c :: rest =>
      match longest keys (c :: rest) with
      | some key => .field key :: piecesFrom keys (key.length - 1) rest
      | none => .letter c :: piecesFrom keys 0 rest

def pieces (keys : List (List α)) (text : List α) : List (Piece α) := piecesFrom keys 0 text

def fillIn (key value : List α) (pieces : List (Piece α)) : List (Piece α) :=
  pieces.flatMap fun piece => if piece = .field key then value.map .letter else [piece]

/-- The first place of the key gets the value. -/
def turn (key value text : List α) : Turn (List α) :=
  match firstPlace key text with
  | none => .exit
  | some i => .next (text.take i ++ value ++ text.drop (i + key.length))

/-- The loops over all keys, with the turns each may take. -/
def runAll (turns : ℕ) : List (List α × List α) → List α → Option (List α)
  | [], text => some text
  | (key, value) :: rest, text => (run (turn key value) turns text).bind (runAll turns rest)

/-- When the fields of the key are filled in from the left, the first place of the key is always
that of its next field, and in the end there is none. -/
def Owned (key value : List α) : List α → List (Piece α) → Prop
  | before, [] => firstPlace key before = none
  | before, .letter c :: rest => Owned key value (before ++ [c]) rest
  | before, .field other :: rest =>
      if other = key then
        firstPlace key (before ++ key ++ letters rest) = some before.length ∧
          Owned key value (before ++ value) rest
      else Owned key value (before ++ other) rest

instance decidableOwned (key value : List α) :
    (before : List α) → (pieces : List (Piece α)) → Decidable (Owned key value before pieces)
  | before, [] => inferInstanceAs (Decidable (firstPlace key before = none))
  | before, .letter c :: rest => decidableOwned key value (before ++ [c]) rest
  | before, .field other :: rest =>
      haveI : Decidable (Owned key value (before ++ value) rest) :=
        decidableOwned key value (before ++ value) rest
      haveI : Decidable (Owned key value (before ++ other) rest) :=
        decidableOwned key value (before ++ other) rest
      inferInstanceAs (Decidable (if other = key then
        firstPlace key (before ++ key ++ letters rest) = some before.length ∧
          Owned key value (before ++ value) rest
        else Owned key value (before ++ other) rest))

/-- Every key is found in places of its own only. -/
def Undisturbed : List (List α × List α) → List (Piece α) → Prop
  | [], _ => True
  | (key, value) :: rest, pieces =>
      Owned key value [] pieces ∧ Undisturbed rest (fillIn key value pieces)

instance decidableUndisturbed :
    (table : List (List α × List α)) → (pieces : List (Piece α)) →
      Decidable (Undisturbed table pieces)
  | [], _ => isTrue trivial
  | (key, value) :: rest, pieces =>
      haveI : Decidable (Undisturbed rest (fillIn key value pieces)) :=
        decidableUndisturbed rest (fillIn key value pieces)
      inferInstanceAs (Decidable (_ ∧ _))

theorem longest_starts {keys : List (List α)} {text key : List α}
    (hkey : longest keys text = some key) : key ∈ keys ∧ key <+: text := by
  have hmem := List.mem_filter.mp (List.argmax_mem hkey)
  exact ⟨hmem.1, of_decide_eq_true hmem.2⟩

/-- The pieces of a text make up the text again. -/
theorem letters_piecesFrom {keys : List (List α)} (hkeys : [] ∉ keys) (skip : ℕ)
    (text : List α) : letters (piecesFrom keys skip text) = text.drop skip := by
  induction text generalizing skip with
  | nil => cases skip <;> rfl
  | cons c rest ih =>
      cases skip with
      | succ skip => exact ih skip
      | zero =>
          rw [piecesFrom]
          cases hlongest : longest keys (c :: rest) with
          | none =>
              simp only
              rw [letters_letter, ih, List.drop_zero, List.drop_zero]
          | some key =>
              obtain ⟨hmem, more, hmore⟩ := longest_starts hlongest
              simp only
              rw [letters_field, ih, List.drop_zero]
              cases key with
              | nil => exact absurd hmem hkeys
              | cons d key =>
                  obtain ⟨rfl, rfl⟩ := List.cons.inj hmore
                  simp

theorem letters_pieces {keys : List (List α)} (hkeys : [] ∉ keys) (text : List α) :
    letters (pieces keys text) = text := letters_piecesFrom hkeys 0 text

theorem length_piecesFrom_le (keys : List (List α)) (skip : ℕ) (text : List α) :
    (piecesFrom keys skip text).length ≤ text.length := by
  induction text generalizing skip with
  | nil => cases skip <;> exact le_refl _
  | cons c rest ih =>
      cases skip with
      | succ skip => exact (ih skip).trans (Nat.le_succ _)
      | zero =>
          rw [piecesFrom]
          cases longest keys (c :: rest) with
          | none => exact Nat.succ_le_succ (ih 0)
          | some key => exact Nat.succ_le_succ (ih _)

theorem mem_of_field_mem_pieces {keys : List (List α)} {skip : ℕ} {text key : List α}
    (hmem : .field key ∈ piecesFrom keys skip text) : key ∈ keys := by
  induction text generalizing skip with
  | nil => cases skip <;> exact absurd hmem List.not_mem_nil
  | cons c rest ih =>
      cases skip with
      | succ skip => exact ih hmem
      | zero =>
          rw [piecesFrom] at hmem
          cases hlongest : longest keys (c :: rest) with
          | none =>
              rw [hlongest] at hmem
              rcases List.mem_cons.mp hmem with heq | hrest
              · exact nomatch heq
              · exact ih hrest
          | some other =>
              rw [hlongest] at hmem
              rcases List.mem_cons.mp hmem with heq | hrest
              · exact Piece.field.inj heq ▸ (longest_starts hlongest).1
              · exact ih hrest

@[simp]
theorem fillIn_letter (key value : List α) (c : α) (rest : List (Piece α)) :
    fillIn key value (.letter c :: rest) = .letter c :: fillIn key value rest := rfl

theorem fillIn_field_self (key value : List α) (rest : List (Piece α)) :
    fillIn key value (.field key :: rest) = value.map .letter ++ fillIn key value rest := by
  rw [fillIn, List.flatMap_cons, if_pos rfl, fillIn]

theorem fillIn_field_of_ne {key other : List α} (hne : other ≠ key) (value : List α)
    (rest : List (Piece α)) :
    fillIn key value (.field other :: rest) = .field other :: fillIn key value rest := by
  have hpiece : Piece.field other ≠ .field key := fun heq => hne (Piece.field.inj heq)
  rw [fillIn, List.flatMap_cons, if_neg hpiece, fillIn, List.singleton_append]

theorem filled_fillIn (value : List α → List α) (key text : List α) (pieces : List (Piece α)) :
    filled value (fillIn key text pieces) =
      filled (fun other => if other = key then text else value other) pieces := by
  induction pieces with
  | nil => rfl
  | cons piece rest ih =>
      cases piece with
      | letter c => rw [fillIn_letter, filled_letter, filled_letter, ih]
      | field other =>
          rw [filled_field]
          by_cases hother : other = key
          · rw [hother, fillIn_field_self, filled_letters_append, if_pos rfl, ih]
          · rw [fillIn_field_of_ne hother, filled_field, if_neg hother, ih]

/-- The fields of a key that are left. -/
def fields (key : List α) (pieces : List (Piece α)) : ℕ := pieces.count (.field key)

theorem fields_fillIn_le (key value other : List α) (pieces : List (Piece α)) :
    fields other (fillIn key value pieces) ≤ fields other pieces := by
  induction pieces with
  | nil => exact le_refl _
  | cons piece rest ih =>
      cases piece with
      | letter c => simpa [fields] using ih
      | field next =>
          by_cases hnext : next = key
          · have hletters : (value.map Piece.letter).count (.field other) = 0 :=
              List.count_eq_zero.mpr (by simp)
            rw [hnext, fillIn_field_self, fields, List.count_append, hletters, Nat.zero_add]
            exact ih.trans List.count_le_count_cons
          · rw [fillIn_field_of_ne hnext, fields, fields, List.count_cons, List.count_cons]
            exact Nat.add_le_add_right ih _

/-! ## Loops -/

section Loops

variable {key value before : List α} {rest : List (Piece α)}

/-- One loop fills in the fields of its key. -/
theorem run_of_owned {pieces : List (Piece α)} (howned : Owned key value before pieces) {n : ℕ}
    (hn : fields key pieces ≤ n) :
    run (turn key value) n (before ++ letters pieces) =
      some (before ++ letters (fillIn key value pieces)) := by
  induction pieces generalizing before n with
  | nil =>
      have hexit : turn key value before = .exit := by
        rw [turn, show firstPlace key before = none from howned]
      simpa [fillIn] using run_of_exit hexit n
  | cons piece rest ih =>
      cases piece with
      | letter c =>
          have hletter : Owned key value (before ++ [c]) rest := howned
          have hrest := ih hletter (by simpa [fields] using hn)
          simpa using hrest
      | field other =>
          rw [Owned] at howned
          by_cases hother : other = key
          · rw [if_pos hother] at howned
            subst hother
            obtain ⟨hplace, hrest⟩ := howned
            have hnext : turn other value (before ++ letters (.field other :: rest)) =
                .next (before ++ value ++ letters rest) := by
              have htake : (before ++ other ++ letters rest).take before.length = before := by
                rw [List.append_assoc, List.take_left]
              have hdrop : (before ++ other ++ letters rest).drop (before.length + other.length) =
                  letters rest := by
                rw [← List.length_append, List.drop_left]
              rw [letters_field, ← List.append_assoc, turn, hplace]
              simp only [htake, hdrop]
            rw [fields, List.count_cons_self] at hn
            obtain ⟨m, rfl⟩ : ∃ m, n = m + 1 := ⟨n - 1, by omega⟩
            have hfewer : fields other rest ≤ m := Nat.le_of_succ_le_succ hn
            rw [run_succ_of_next hnext, ih hrest hfewer, fillIn_field_self, letters, letters,
              filled_letters_append, List.append_assoc]
          · rw [if_neg hother] at howned
            have hcount : fields key rest ≤ n := by
              rw [fields, List.count_cons] at hn
              rw [fields]
              omega
            have hrest := ih howned hcount
            rw [fillIn_field_of_ne hother, letters_field, letters_field, ← List.append_assoc, hrest,
              List.append_assoc]

/-- All loops fill in the fields of all keys at once. -/
theorem runAll_of_undisturbed {table : List (List α × List α)} {pieces : List (Piece α)}
    (hundisturbed : Undisturbed table pieces) {turns : ℕ}
    (hturns : ∀ key, fields key pieces ≤ turns) :
    runAll turns table (letters pieces) =
      some (filled (fun key => (table.lookup key).getD key) pieces) := by
  induction table generalizing pieces with
  | nil => rfl
  | cons entry rest ih =>
      obtain ⟨key, value⟩ := entry
      obtain ⟨howned, hrest⟩ := hundisturbed
      have hrun := run_of_owned howned (hturns key)
      rw [List.nil_append, List.nil_append] at hrun
      have hfewer : ∀ other, fields other (fillIn key value pieces) ≤ turns := fun other =>
        (fields_fillIn_le key value other pieces).trans (hturns other)
      rw [runAll, hrun, Option.bind_some, ih hrest hfewer, filled_fillIn]
      refine congrArg (fun fill => some (filled fill pieces)) (funext fun other => ?_)
      by_cases hother : other = key
      · simp [hother]
      · simp [hother, List.lookup_cons, beq_eq_false_iff_ne.mpr hother]

/-- The placeholders of a text are filled in at once. -/
theorem runAll_pieces {keys : List (List α)} (hkeys : [] ∉ keys)
    {table : List (List α × List α)} {text : List α}
    (hundisturbed : Undisturbed table (pieces keys text)) {turns : ℕ}
    (hturns : text.length ≤ turns) :
    runAll turns table text =
      some (filled (fun key => (table.lookup key).getD key) (pieces keys text)) := by
  have hfields : ∀ key, fields key (pieces keys text) ≤ turns := fun key =>
    List.count_le_length.trans ((length_piecesFrom_le keys 0 text).trans hturns)
  have hrun := runAll_of_undisturbed hundisturbed hfields
  rwa [letters_pieces hkeys] at hrun

end Loops

end Hat.Placeholders
