import Hat.WSServer.ReadJson

/-!
# Pieces of a JSON text

What the grammar takes off a text is a piece that it takes off whatever follows.  Within and
without strings a text is in different states, and no piece of the grammar ends within one or has
a letter right behind one.
-/

namespace Hat.Json

inductive Quoting
  | free
  | closed
  | inside
  | escaped
  /-- A letter or a quote stands right behind a string. -/
  | stray
  deriving DecidableEq

namespace Quoting

def step : Quoting → Char → Quoting
  | free, c => if c = quote then inside else free
  | closed, c => if c = quote ∨ IsWordLetter c then stray else free
  | inside, c => if c = quote then closed else if c = '\\' then escaped else inside
  | escaped, _ => inside
  | stray, _ => stray

def run (state : Quoting) (text : List Char) : Quoting := text.foldl step state

/-- What can stand for itself without quotes as well as within them. -/
def IsKey (letters : List Char) : Prop :=
  ∀ c ∈ letters, IsWordLetter c ∧ c ≠ quote ∧ c ≠ '\\'

instance (letters : List Char) : Decidable (IsKey letters) :=
  List.decidableBAll (fun c => IsWordLetter c ∧ c ≠ quote ∧ c ≠ '\\') letters

def Outside (state : Quoting) : Prop := state = free ∨ state = closed

theorem run_append (state : Quoting) (first second : List Char) :
    state.run (first ++ second) = (state.run first).run second := List.foldl_append

theorem run_cons (state : Quoting) (c : Char) (text : List Char) :
    state.run (c :: text) = (state.step c).run text := rfl

theorem step_of_outside {state : Quoting} (hstate : state.Outside) {c : Char} (hquote : c ≠ quote)
    (hword : ¬IsWordLetter c) : state.step c = free := by
  rcases hstate with rfl | rfl
  · exact if_neg hquote
  · exact if_neg (not_or.mpr ⟨hquote, hword⟩)

theorem step_blank {state : Quoting} (hstate : state.Outside) {c : Char} (hc : IsBlank c) :
    state.step c = free := by
  refine step_of_outside hstate ?_ ?_
  · rcases hc with rfl | rfl | rfl | rfl <;> decide
  · rcases hc with rfl | rfl | rfl | rfl <;> decide

theorem run_free_blanks {blanks : List Char} (hblanks : ∀ c ∈ blanks, IsBlank c) :
    free.run blanks = free := by
  induction blanks with
  | nil => rfl
  | cons c rest ih =>
      obtain ⟨hc, hrest⟩ := List.forall_mem_cons.mp hblanks
      rw [run_cons, step_blank (Or.inl rfl) hc, ih hrest]

theorem outside_blanks {state : Quoting} (hstate : state.Outside) {blanks : List Char}
    (hblanks : ∀ c ∈ blanks, IsBlank c) : (state.run blanks).Outside := by
  cases blanks with
  | nil => exact hstate
  | cons c rest =>
      obtain ⟨hc, hrest⟩ := List.forall_mem_cons.mp hblanks
      rw [run_cons, step_blank hstate hc, run_free_blanks hrest]
      exact Or.inl rfl

theorem run_inside_plain {chars : List Char} (hchars : ∀ c ∈ chars, c ≠ quote ∧ c ≠ '\\') :
    inside.run chars = inside := by
  induction chars with
  | nil => rfl
  | cons c rest ih =>
      obtain ⟨⟨hquote, hbackslash⟩, hrest⟩ := List.forall_mem_cons.mp hchars
      rw [run_cons, step, if_neg hquote, if_neg hbackslash, ih hrest]

/-- Without a quote a string is not left. -/
theorem not_outside_run_inside {chars : List Char} (hchars : quote ∉ chars) :
    ¬(inside.run chars).Outside ∧ ¬(escaped.run chars).Outside := by
  induction chars with
  | nil => simp [run, Outside]
  | cons c rest ih =>
      rw [List.mem_cons, not_or] at hchars
      obtain ⟨hinside, hescaped⟩ := ih hchars.2
      refine ⟨?_, hinside⟩
      rw [run_cons, step, if_neg (Ne.symm hchars.1)]
      split_ifs
      · exact hescaped
      · exact hinside

theorem run_stray (text : List Char) : stray.run text = stray := by
  induction text with
  | nil => rfl
  | cons c rest ih => exact ih

/-- Behind a member whose value is a string without an end a text is within the string. -/
theorem not_outside_open_member (state : Quoting) {letter : Char} {key value : List Char}
    (hkey : IsKey (letter :: key)) (hvalue : quote ∉ value) :
    ¬(state.run (quote :: (letter :: key ++ quote :: ':' :: quote :: value))).Outside := by
  have hinside : ¬(inside.run (letter :: key ++ quote :: ':' :: quote :: value)).Outside := by
    rw [run_append, run_inside_plain fun c hc => (hkey c hc).2]
    exact (not_outside_run_inside hvalue).1
  have hstray : ∀ text, ¬(stray.run text).Outside := by
    intro text hstray
    rw [run_stray] at hstray
    rcases hstray with h | h <;> cases h
  cases state with
  | free => exact hinside
  | escaped => exact hinside
  | closed => exact hstray _
  | stray => exact hstray _
  | inside =>
      -- the quote closes a string, and a letter stands behind it
      have hletter : closed.step letter = stray :=
        if_pos (Or.inr (hkey letter List.mem_cons_self).1)
      have hrun : inside.run (quote :: (letter :: key ++ quote :: ':' :: quote :: value)) =
          (closed.step letter).run (key ++ quote :: ':' :: quote :: value) := rfl
      rw [hrun, hletter]
      exact hstray _

end Quoting

open Quoting

theorem Blank.exists_append {text rest : List Char} (h : Blank text rest) :
    ∃ blanks, text = blanks ++ rest ∧ ∀ c ∈ blanks, IsBlank c := by
  induction h with
  | none text => exact ⟨[], rfl, fun c hc => absurd hc List.not_mem_nil⟩
  | skip hc _ ih =>
      obtain ⟨blanks, rfl, hblanks⟩ := ih
      exact ⟨_ :: blanks, rfl, List.forall_mem_cons.mpr ⟨hc, hblanks⟩⟩

theorem blank_append {blanks : List Char} (hblanks : ∀ c ∈ blanks, IsBlank c) (rest : List Char) :
    Blank (blanks ++ rest) rest := by
  induction blanks with
  | nil => exact .none rest
  | cons c blanks ih =>
      obtain ⟨hc, hblanks⟩ := List.forall_mem_cons.mp hblanks
      exact .skip hc (ih hblanks)

/-- An escape does not leave its string. -/
theorem Escape.run_inside {escaped : List Char} {c : Char} (h : Escape escaped c) :
    inside.run escaped = inside := by
  have hhex : ∀ {digits : List Char}, Hex4 digits → inside.run digits = inside := by
    intro digits hdigits
    have hall : ∀ d ∈ hexDigits, d ≠ quote ∧ d ≠ '\\' := by simp [hexDigits, quote]
    exact run_inside_plain fun d hd => hall d (hdigits.hex d hd)
  -- the letter behind a backslash is passed over, whatever it is
  have hopen : ∀ (letter : Char) (text : List Char),
      inside.run ('\\' :: letter :: text) = inside.run text := fun _ _ => rfl
  cases h with
  | short _ => rfl
  | unit hdigits _ => rw [hopen, hhex hdigits]
  | pair hhigh hlow _ _ => rw [hopen, run_append, hhex hhigh, hopen, hhex hlow]

variable {raw : Char → Prop}

theorem Literal.exists_piece {text chars rest : List Char} (h : Literal raw text chars rest) :
    ∃ piece, text = piece ++ rest ∧ (∀ other, Literal raw (piece ++ other) chars other) ∧
      inside.run piece = closed ∧ piece.getLast? = some quote := by
  induction h with
  | close rest => exact ⟨[quote], rfl, .close, rfl, rfl⟩
  | @plain c text chars rest hc _ ih =>
      obtain ⟨piece, rfl, htakes, hrun, hlast⟩ := ih
      refine ⟨c :: piece, rfl, fun other => .plain hc (htakes other), ?_, ?_⟩
      · rw [run_cons, step, if_neg hc.ne_quote, if_neg hc.ne_backslash, hrun]
      · rw [List.getLast?_cons, hlast]
        rfl
  | @escape escaped text chars rest c hc _ ih =>
      obtain ⟨piece, rfl, htakes, hrun, hlast⟩ := ih
      refine ⟨escaped ++ piece, (List.append_assoc _ _ _).symm, fun other => ?_, ?_, ?_⟩
      · rw [List.append_assoc]
        exact .escape hc (htakes other)
      · rw [run_append, hc.run_inside, hrun]
      · rw [List.getLast?_append, hlast]
        rfl

/-- The relation takes the piece and what closes it off whatever follows, and the piece does not
end in the middle of something. -/
structure Piece (R : List Char → List Char → Prop) (close text rest piece : List Char) : Prop where
  text_eq : text = piece ++ (close ++ rest)
  takes : ∀ other, R (piece ++ (close ++ other)) other
  outside : (free.run piece).Outside
  last : piece.getLast? ≠ some '['

theorem IsWordLetter.ne_quote {c : Char} (hc : IsWordLetter c) : c ≠ quote := by
  rintro rfl
  exact absurd hc (by decide)

theorem IsBlank.ne_bracket {c : Char} (hc : IsBlank c) : c ≠ '[' := by
  rcases hc with rfl | rfl | rfl | rfl <;> decide

theorem run_free_word {letters : List Char} (hletters : ∀ c ∈ letters, IsWordLetter c) :
    free.run letters = free := by
  induction letters with
  | nil => rfl
  | cons c rest ih =>
      obtain ⟨hc, hrest⟩ := List.forall_mem_cons.mp hletters
      rw [run_cons, step, if_neg hc.ne_quote, ih hrest]

theorem getLast?_append_ne {first second : List Char} (hfirst : first.getLast? ≠ some '[')
    (hsecond : second.getLast? ≠ some '[') : (first ++ second).getLast? ≠ some '[' := by
  intro hlast
  rw [List.getLast?_append, Option.or_eq_some_iff] at hlast
  rcases hlast with hlast | ⟨-, hlast⟩
  · exact hsecond hlast
  · exact hfirst hlast

theorem getLast?_blanks_ne {blanks : List Char} (hblanks : ∀ c ∈ blanks, IsBlank c) :
    blanks.getLast? ≠ some '[' :=
  fun hlast => (hblanks '[' (List.mem_of_getLast? hlast)).ne_bracket rfl

theorem outside_concat {text : List Char} {c : Char} (htext : (free.run text).Outside)
    (hquote : c ≠ quote) (hword : ¬IsWordLetter c) : free.run (text ++ [c]) = free := by
  rw [run_append]
  exact step_of_outside htext hquote hword

mutual

theorem Reads.exists_piece {text rest : List Char} {tree : PTree} :
    Reads raw text tree rest →
      ∃ piece, Piece (fun text rest => Reads raw text tree rest) [] text rest piece
  | .string h => by
      obtain ⟨piece, rfl, htakes, hrun, hlast⟩ := h.exists_piece
      refine ⟨quote :: piece, rfl, fun other => .string (htakes other), Or.inr hrun, ?_⟩
      rw [List.getLast?_cons, hlast]
      decide
  | @Reads.word _ letters rest hne h => by
      refine ⟨letters, rfl, fun other => .word hne h, Or.inl (run_free_word h), ?_⟩
      intro hlast
      exact absurd (h '[' (List.mem_of_getLast? hlast)) (by decide)
  | .array h => by
      obtain ⟨piece, rfl, htakes, houtside, -⟩ := Items.exists_piece h
      refine ⟨'[' :: piece ++ [']'], ?_, fun other => ?_, Or.inl ?_, ?_⟩
      · simp
      · have hreads := Reads.array (htakes other)
        simpa using hreads
      · exact outside_concat houtside (by decide) (by decide)
      · rw [List.getLast?_concat]
        decide
  | .object h => by
      obtain ⟨piece, rfl, htakes, houtside, -⟩ := Members.exists_piece h
      refine ⟨openBrace :: piece ++ [closeBrace], ?_, fun other => ?_, Or.inl ?_, ?_⟩
      · simp
      · have hreads := Reads.object (htakes other)
        simpa using hreads
      · exact outside_concat houtside (by decide) (by decide)
      · rw [List.getLast?_concat]
        decide

theorem Items.exists_piece {text rest : List Char} {items : List (String × PTree)} :
    Items raw text items rest →
      ∃ piece, Piece (fun text rest => Items raw text items rest) [']'] text rest piece
  | .nil h => by
      obtain ⟨blanks, rfl, hblanks⟩ := h.exists_append
      exact ⟨blanks, rfl, fun other => .nil (blank_append hblanks _),
        Or.inl (run_free_blanks hblanks), getLast?_blanks_ne hblanks⟩
  | .last hblank hitem hend => by
      obtain ⟨before, rfl, hbefore⟩ := hblank.exists_append
      obtain ⟨piece, rfl, htakes, houtside, hlast⟩ := Reads.exists_piece hitem
      obtain ⟨after, rfl, hafter⟩ := hend.exists_append
      refine ⟨before ++ (piece ++ after), ?_, fun other => ?_, ?_, ?_⟩
      · simp
      · have hitems := Items.last (blank_append hbefore _) (htakes (after ++ ']' :: other))
          (blank_append hafter _)
        simpa using hitems
      · rw [run_append, run_free_blanks hbefore, run_append]
        exact outside_blanks houtside hafter
      · exact getLast?_append_ne (getLast?_blanks_ne hbefore)
          (getLast?_append_ne hlast (getLast?_blanks_ne hafter))
  | .more hblank hitem hcomma h => by
      obtain ⟨before, rfl, hbefore⟩ := hblank.exists_append
      obtain ⟨piece, rfl, htakes, houtside, hlast⟩ := Reads.exists_piece hitem
      obtain ⟨after, rfl, hafter⟩ := hcomma.exists_append
      obtain ⟨more, rfl, htakesMore, houtsideMore, hlastMore⟩ := Items.exists_piece h
      refine ⟨before ++ (piece ++ after) ++ [','] ++ more, ?_, fun other => ?_, ?_, ?_⟩
      · simp
      · have hitems := Items.more (blank_append hbefore _)
          (htakes (after ++ ',' :: (more ++ ']' :: other))) (blank_append hafter _)
          (htakesMore other)
        simpa using hitems
      · have hfirst : (free.run (before ++ (piece ++ after))).Outside := by
          rw [run_append, run_free_blanks hbefore, run_append]
          exact outside_blanks houtside hafter
        rw [run_append, outside_concat hfirst (by decide) (by decide)]
        exact houtsideMore
      · refine getLast?_append_ne ?_ hlastMore
        rw [List.getLast?_concat]
        decide

theorem Member.exists_piece {text rest : List Char} {member : String × PTree} :
    Member raw text member rest →
      ∃ piece, Piece (fun text rest => Member raw text member rest) [] text rest piece
  | .mk hblank hname hcolon hvalue htree hend => by
      obtain ⟨before, rfl, hbefore⟩ := hblank.exists_append
      obtain ⟨name, rfl, htakesName, hrun, -⟩ := hname.exists_piece
      obtain ⟨between, rfl, hbetween⟩ := hcolon.exists_append
      obtain ⟨behind, rfl, hbehind⟩ := hvalue.exists_append
      obtain ⟨piece, rfl, htakes, houtside, hlast⟩ := Reads.exists_piece htree
      obtain ⟨after, rfl, hafter⟩ := hend.exists_append
      refine ⟨before ++ quote :: name ++ between ++ [':'] ++ behind ++ piece ++ after, ?_,
        fun other => ?_, ?_, ?_⟩
      · simp
      · have hmember := Member.mk (blank_append hbefore _)
          (htakesName (between ++ ':' :: (behind ++ (piece ++ (after ++ other)))))
          (blank_append hbetween _) (blank_append hbehind _) (htakes (after ++ other))
          (blank_append hafter other)
        simpa using hmember
      · have hnamed : (free.run (before ++ quote :: name ++ between)).Outside := by
          rw [run_append, run_append, run_free_blanks hbefore]
          exact outside_blanks (Or.inr hrun) hbetween
        rw [run_append, run_append, run_append, outside_concat hnamed (by decide) (by decide),
          run_free_blanks hbehind]
        exact outside_blanks houtside hafter
      · refine getLast?_append_ne (getLast?_append_ne ?_ hlast) (getLast?_blanks_ne hafter)
        refine getLast?_append_ne ?_ (getLast?_blanks_ne hbehind)
        rw [List.getLast?_concat]
        decide

theorem Members.exists_piece {text rest : List Char} {members : List (String × PTree)} :
    Members raw text members rest →
      ∃ piece, Piece (fun text rest => Members raw text members rest) [closeBrace] text rest piece
  | .nil h => by
      obtain ⟨blanks, rfl, hblanks⟩ := h.exists_append
      exact ⟨blanks, rfl, fun other => .nil (blank_append hblanks _),
        Or.inl (run_free_blanks hblanks), getLast?_blanks_ne hblanks⟩
  | .last hmember => by
      obtain ⟨piece, rfl, htakes, houtside, hlast⟩ := Member.exists_piece hmember
      exact ⟨piece, rfl, fun other => .last (htakes (closeBrace :: other)), houtside, hlast⟩
  | .more hmember h => by
      obtain ⟨piece, rfl, htakes, houtside, hlast⟩ := Member.exists_piece hmember
      obtain ⟨more, rfl, htakesMore, houtsideMore, hlastMore⟩ := Members.exists_piece h
      refine ⟨piece ++ [','] ++ more, ?_, fun other => ?_, ?_, ?_⟩
      · simp
      · have hmembers := Members.more (htakes (',' :: (more ++ closeBrace :: other)))
          (htakesMore other)
        simpa using hmembers
      · rw [run_append, outside_concat houtside (by decide) (by decide)]
        exact houtsideMore
      · refine getLast?_append_ne ?_ hlastMore
        rw [List.getLast?_concat]
        decide

end

/-! ## The list of an array -/

theorem Items.fst_eq {text rest : List Char} {items : List (String × PTree)} :
    Items raw text items rest → ∀ item ∈ items, item.1 = ""
  | .nil _ => fun _ hitem => absurd hitem List.not_mem_nil
  | .last _ _ _ => List.forall_mem_singleton.mpr rfl
  | .more _ _ _ h => List.forall_mem_cons.mpr ⟨rfl, Items.fst_eq h⟩

/-- Only an object has a member. -/
theorem Reads.members_of_get {text rest : List Char} {tree : PTree} {key : String}
    (h : Reads raw text tree rest) (hkey : key ≠ "") (hget : (tree.get key).isSome) :
    ∃ inner members, text = openBrace :: inner ∧ Members raw inner members rest := by
  have hchild : ∃ child ∈ tree.children, child.1 = key := by
    rw [PTree.get, Option.isSome_map, PTree.getChild, Option.isSome_map, List.find?_isSome] at hget
    obtain ⟨child, hmem, hchild⟩ := hget
    exact ⟨child, hmem, of_decide_eq_true hchild⟩
  obtain ⟨child, hmem, rfl⟩ := hchild
  cases h with
  | string _ => exact absurd hmem List.not_mem_nil
  | word _ _ => exact absurd hmem List.not_mem_nil
  | array hitems => exact absurd (hitems.fst_eq child hmem) hkey
  | object hmembers => exact ⟨_, _, rfl, hmembers⟩

variable {inner rest : List Char} {items : List (String × PTree)}

theorem Items.blank_of_nil (h : Items raw (inner ++ ']' :: rest) [] rest) :
    ∀ c ∈ inner, IsBlank c := by
  cases h with
  | nil hblank =>
      obtain ⟨blanks, htext, hblanks⟩ := hblank.exists_append
      rw [List.append_cancel_right htext]
      exact hblanks

/-- A list is one item between white space, or has a comma and a list behind it. -/
theorem Items.exists_first {first : String × PTree}
    (h : Items raw (inner ++ ']' :: rest) (first :: items) rest) :
    ∃ before own after, (∀ c ∈ before, IsBlank c) ∧ (∀ c ∈ after, IsBlank c) ∧
      (∀ other, Reads raw (own ++ other) first.2 other) ∧
      ((items = [] ∧ inner = before ++ (own ++ after)) ∨
        (items ≠ [] ∧ ∃ more, inner = before ++ (own ++ (after ++ ',' :: more)) ∧
          Items raw (more ++ ']' :: rest) items rest)) := by
  generalize htext : inner ++ ']' :: rest = text at h
  cases h with
  | last hblank hread hend =>
      obtain ⟨before, rfl, hbefore⟩ := hblank.exists_append
      obtain ⟨own, rfl, htakes, -, -⟩ := hread.exists_piece
      obtain ⟨after, rfl, hafter⟩ := hend.exists_append
      have hinner : inner ++ ']' :: rest = before ++ (own ++ after) ++ ']' :: rest := by
        rw [htext]
        simp
      exact ⟨before, own, after, hbefore, hafter, htakes,
        Or.inl ⟨rfl, List.append_cancel_right hinner⟩⟩
  | more hblank hread hcomma hmore =>
      obtain ⟨before, rfl, hbefore⟩ := hblank.exists_append
      obtain ⟨own, rfl, htakes, -, -⟩ := hread.exists_piece
      obtain ⟨after, rfl, hafter⟩ := hcomma.exists_append
      obtain ⟨more, rfl, -, -, -⟩ := hmore.exists_piece
      have hinner : inner ++ ']' :: rest =
          before ++ (own ++ (after ++ ',' :: more)) ++ ']' :: rest := by
        rw [htext]
        simp
      exact ⟨before, own, after, hbefore, hafter, htakes,
        Or.inr ⟨List.cons_ne_nil _ _, more, List.append_cancel_right hinner, hmore⟩⟩

/-- A list goes on behind a comma. -/
theorem Items.append (h : Items raw (inner ++ ']' :: rest) items rest) (hne : items ≠ [])
    {piece : List Char} {item : PTree} (hitem : ∀ other, Reads raw (piece ++ other) item other)
    (behind : List Char) :
    Items raw (inner ++ ',' :: (piece ++ ']' :: behind)) (items ++ [("", item)]) behind := by
  induction items generalizing inner with
  | nil => exact absurd rfl hne
  | cons first items ih =>
      obtain ⟨key, tree⟩ := first
      obtain rfl : key = "" := h.fst_eq (key, tree) List.mem_cons_self
      obtain ⟨before, own, after, hbefore, hafter, htakes, hcases⟩ := h.exists_first
      rcases hcases with ⟨rfl, rfl⟩ | ⟨hmore, more, rfl, hlist⟩
      · have hitems := Items.more (blank_append hbefore _)
          (htakes (after ++ ',' :: (piece ++ ']' :: behind))) (blank_append hafter _)
          (.last (.none _) (hitem (']' :: behind)) (.none _))
        simpa using hitems
      · have hnext := ih hlist hmore
        obtain ⟨other, others, rfl⟩ := List.exists_cons_of_ne_nil hmore
        obtain ⟨otherKey, otherTree⟩ := other
        obtain rfl : otherKey = "" := hlist.fst_eq (otherKey, otherTree) List.mem_cons_self
        have hitems := Items.more (blank_append hbefore _)
          (htakes (after ++ ',' :: (more ++ ',' :: (piece ++ ']' :: behind))))
          (blank_append hafter _) hnext
        simpa using hitems

/-- A list ends with the brace of its last object and white space. -/
theorem Items.exists_last_brace (h : Items raw (inner ++ ']' :: rest) items rest) (hne : items ≠ [])
    {key : String} (hkey : key ≠ "") (hobjects : ∀ item ∈ items, (item.2.get key).isSome) :
    ∃ front blanks, inner = front ++ closeBrace :: blanks ∧ (∀ c ∈ blanks, IsBlank c) ∧
      front ≠ [] ∧ front.getLast? ≠ some '[' := by
  induction items generalizing inner with
  | nil => exact absurd rfl hne
  | cons first items ih =>
      obtain ⟨hfirst, hrest⟩ := List.forall_mem_cons.mp hobjects
      obtain ⟨before, own, after, -, hafter, htakes, hcases⟩ := h.exists_first
      rcases hcases with ⟨rfl, rfl⟩ | ⟨hmore, more, rfl, hlist⟩
      · obtain ⟨content, members, hown, hmembers⟩ := (htakes []).members_of_get hkey hfirst
        obtain ⟨piece, rfl, -, -, hlast⟩ := hmembers.exists_piece
        rw [List.append_nil] at hown
        refine ⟨before ++ [openBrace] ++ piece, after, ?_, hafter, by simp,
          getLast?_append_ne ?_ hlast⟩
        · rw [hown]
          simp
        · rw [List.getLast?_concat]
          decide
      · obtain ⟨front, blanks, rfl, hblanks, hfront, hlast⟩ := ih hlist hmore hrest
        refine ⟨before ++ (own ++ (after ++ ',' :: front)), blanks, by simp, hblanks, by simp, ?_⟩
        have hcomma : (before ++ (own ++ (after ++ ',' :: front))).getLast? = front.getLast? := by
          rw [← List.getLast?_append_of_ne_nil (before ++ own ++ after ++ [',']) hfront]
          simp
        rw [hcomma]
        exact hlast

/-- The text behind an opening brace, up to the value of a member. -/
inductive Leading (raw : Char → Prop) : List Char → List Char → Prop
  | value {text first chars name colon value : List Char} (hblank : Blank text (quote :: first))
      (hname : Literal raw first chars name) (hcolon : Blank name (':' :: colon))
      (hvalue : Blank colon value) : Leading raw text value
  | more {text next value : List Char} {member : String × PTree}
      (hmember : Member raw text member (',' :: next)) (h : Leading raw next value) :
      Leading raw text value

/-- The text behind the value of a member, up to the end of the object. -/
inductive Trailing (raw : Char → Prop) : List Char → List Char → Prop
  | close {text rest : List Char} (h : Blank text (closeBrace :: rest)) : Trailing raw text rest
  | more {text next rest : List Char} {member : String × PTree} {members : List (String × PTree)}
      (hcomma : Blank text (',' :: next)) (h : Members raw next (member :: members) rest) :
      Trailing raw text rest

/-- A text begins with a value in which an array begins at `hole`; `back` is the text behind the
array and `rest` that behind the value. -/
inductive Around (raw : Char → Prop) : List Char → List Char → List Char → List Char → Prop
  | here (hole back : List Char) : Around raw hole hole back back
  | inside {text value hole back after rest : List Char} (hlead : Leading raw text value)
      (h : Around raw value hole back after) (htrail : Trailing raw after rest) :
      Around raw (openBrace :: text) hole back rest

theorem Leading.exists_front {text value : List Char} (h : Leading raw text value) :
    ∃ front, text = front ++ value ∧ (∀ other, Leading raw (front ++ other) other) ∧
      free.run front = free := by
  induction h with
  | value hblank hname hcolon hvalue =>
      obtain ⟨before, rfl, hbefore⟩ := hblank.exists_append
      obtain ⟨name, rfl, htakes, hrun, -⟩ := hname.exists_piece
      obtain ⟨between, rfl, hbetween⟩ := hcolon.exists_append
      obtain ⟨behind, rfl, hbehind⟩ := hvalue.exists_append
      refine ⟨before ++ quote :: name ++ between ++ [':'] ++ behind, ?_, fun other => ?_, ?_⟩
      · simp
      · have hlead := Leading.value (blank_append hbefore _)
          (htakes (between ++ ':' :: (behind ++ other))) (blank_append hbetween _)
          (blank_append hbehind other)
        simpa using hlead
      · have hnamed : (free.run (before ++ quote :: name ++ between)).Outside := by
          rw [run_append, run_append, run_free_blanks hbefore]
          exact outside_blanks (Or.inr hrun) hbetween
        rw [run_append, outside_concat hnamed (by decide) (by decide), run_free_blanks hbehind]
  | more hmember _ ih =>
      obtain ⟨piece, rfl, htakes, houtside, -⟩ := hmember.exists_piece
      obtain ⟨front, rfl, hlead, hrun⟩ := ih
      refine ⟨piece ++ [','] ++ front, ?_, fun other => ?_, ?_⟩
      · simp
      · have hmore := Leading.more (htakes (',' :: (front ++ other))) (hlead other)
        simpa using hmore
      · rw [run_append, outside_concat houtside (by decide) (by decide), hrun]

theorem Trailing.exists_piece {text rest : List Char} (h : Trailing raw text rest) :
    ∃ piece, text = piece ++ rest ∧ ∀ other, Trailing raw (piece ++ other) other := by
  cases h with
  | close h =>
      obtain ⟨blanks, rfl, hblanks⟩ := h.exists_append
      refine ⟨blanks ++ [closeBrace], by simp, fun other => .close ?_⟩
      rw [List.append_assoc]
      exact blank_append hblanks _
  | more hcomma h =>
      obtain ⟨blanks, rfl, hblanks⟩ := hcomma.exists_append
      obtain ⟨piece, rfl, htakes, -, -⟩ := h.exists_piece
      refine ⟨blanks ++ ',' :: (piece ++ [closeBrace]), by simp, fun other => ?_⟩
      have htrail := Trailing.more (blank_append hblanks _) (htakes other)
      simpa using htrail

/-- What leads to a value and follows it makes the members of an object of it. -/
theorem Leading.exists_members {text value after rest : List Char} (h : Leading raw text value)
    {tree : PTree} (htree : Reads raw value tree after) (htrail : Trailing raw after rest) :
    ∃ member members, Members raw text (member :: members) rest := by
  induction h with
  | value hblank hname hcolon hvalue =>
      cases htrail with
      | close hend => exact ⟨_, [], .last (.mk hblank hname hcolon hvalue htree hend)⟩
      | more hcomma hmore =>
          exact ⟨_, _, .more (.mk hblank hname hcolon hvalue htree hcomma) hmore⟩
  | more hmember _ ih =>
      obtain ⟨other, members, hmembers⟩ := ih htree
      exact ⟨_, _, .more hmember hmembers⟩

theorem Around.exists_reads {text hole back rest : List Char} (h : Around raw text hole back rest)
    {tree : PTree} (htree : Reads raw hole tree back) : ∃ whole, Reads raw text whole rest := by
  induction h with
  | here hole back => exact ⟨tree, htree⟩
  | inside hlead _ htrail ih =>
      obtain ⟨inner, hinner⟩ := ih htree
      obtain ⟨member, members, hmembers⟩ := hlead.exists_members hinner htrail
      exact ⟨_, .object hmembers⟩

/-- Around the place of an array the text stays the same, whatever stands there. -/
theorem Around.exists_front {text hole back rest : List Char} (h : Around raw text hole back rest) :
    ∃ front behind, text = front ++ hole ∧ back = behind ++ rest ∧ free.run front = free ∧
      ∀ hole rest, Around raw (front ++ hole) hole (behind ++ rest) rest := by
  induction h with
  | here hole back => exact ⟨[], [], rfl, rfl, rfl, .here⟩
  | inside hlead _ htrail ih =>
      obtain ⟨front, behind, rfl, rfl, hrun, haround⟩ := ih
      obtain ⟨lead, rfl, hleads, hleadRun⟩ := hlead.exists_front
      obtain ⟨trail, rfl, htrails⟩ := htrail.exists_piece
      refine ⟨openBrace :: lead ++ front, behind ++ trail, ?_, ?_, ?_, fun hole rest => ?_⟩
      · simp
      · simp
      · rw [run_append]
        exact (congrArg (fun state => run state front) hleadRun).trans hrun
      · have hinside := Around.inside (hleads (front ++ hole)) (haround hole (trail ++ rest))
          (htrails rest)
        simpa using hinside

end Hat.Json
