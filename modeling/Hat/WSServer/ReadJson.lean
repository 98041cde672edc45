import Hat.WSServer.JParser
import Mathlib.Data.List.TakeWhile
import Mathlib.Data.String.Basic

/-!
# Texts of JSON

The grammar of JSON as a relation between a text, the property tree of the value at its
beginning and what is left of the text behind it.  Which characters a reader takes within
quotes as they stand is left open; a quote and a backslash are never among them.
-/

namespace Hat

namespace Json

def quote : Char := '\x22'

def openBrace : Char := '\x7b'

def closeBrace : Char := '\x7d'

/-- The characters that JSON allows within quotes as they stand, a quote and a backslash apart. -/
def standard (c : Char) : Prop := 32 ≤ c.toNat

instance : DecidablePred standard := fun c => inferInstanceAs (Decidable (32 ≤ c.toNat))

def IsBlank (c : Char) : Prop := c = ' ' ∨ c = '\t' ∨ c = '\n' ∨ c = '\r'

instance (c : Char) : Decidable (IsBlank c) :=
  inferInstanceAs (Decidable (_ ∨ _ ∨ _ ∨ _))

/-- White space and what is left behind it. -/
inductive Blank : List Char → List Char → Prop
  | none (text : List Char) : Blank text text
  | skip {c : Char} {text rest : List Char} (hc : IsBlank c) (h : Blank text rest) :
      Blank (c :: text) rest

/-- The letters of the short escapes and what they stand for. -/
def shortEscapes : List (Char × Char) :=
  [(quote, quote), ('\\', '\\'), ('/', '/'), ('b', '\x08'), ('f', '\x0c'), ('n', '\n'),
    ('r', '\r'), ('t', '\t')]

def hexDigits : List Char :=
  ['0', '1', '2', '3', '4', '5', '6', '7', '8', '9', 'a', 'b', 'c', 'd', 'e', 'f', 'A', 'B', 'C',
    'D', 'E', 'F']

def hexValue (c : Char) : ℕ := if c.isDigit then c.toNat - 48 else c.toLower.toNat - 87

def codeUnit (digits : List Char) : ℕ := digits.foldl (fun value c => 16 * value + hexValue c) 0

structure Hex4 (digits : List Char) : Prop where
  length_eq : digits.length = 4
  hex : ∀ c ∈ digits, c ∈ hexDigits

/-- An escape and the character it stands for; a character beyond the first 65536 takes two
code units. -/
inductive Escape : List Char → Char → Prop
  | short {letter c : Char} (h : (letter, c) ∈ shortEscapes) : Escape ['\\', letter] c
  | unit {digits : List Char} (h : Hex4 digits) (hvalid : (codeUnit digits).isValidChar) :
      Escape ('\\' :: 'u' :: digits) (Char.ofNat (codeUnit digits))
  | pair {high low : List Char} (hhigh : Hex4 high) (hlow : Hex4 low)
      (hfirst : 0xD800 ≤ codeUnit high ∧ codeUnit high < 0xDC00)
      (hsecond : 0xDC00 ≤ codeUnit low ∧ codeUnit low < 0xE000) :
      Escape ('\\' :: 'u' :: (high ++ '\\' :: 'u' :: low))
        (Char.ofNat (0x10000 + (codeUnit high - 0xD800) * 0x400 + (codeUnit low - 0xDC00)))

/-- A character that stands for itself within quotes. -/
structure Plain (raw : Char → Prop) (c : Char) : Prop where
  raw : raw c
  ne_quote : c ≠ quote
  ne_backslash : c ≠ '\\'

/-- The content of a string up to its closing quote, which is not left. -/
inductive Literal (raw : Char → Prop) : List Char → List Char → List Char → Prop
  | close (rest : List Char) : Literal raw (quote :: rest) [] rest
  | plain {c : Char} {text chars rest : List Char} (hc : Plain raw c)
      (h : Literal raw text chars rest) : Literal raw (c :: text) (c :: chars) rest
  | escape {escaped text chars rest : List Char} {c : Char} (hc : Escape escaped c)
      (h : Literal raw text chars rest) : Literal raw (escaped ++ text) (c :: chars) rest

/-- The letters of numbers and of the words for truth values and nothing. -/
def IsWordLetter (c : Char) : Prop := c.isAlphanum ∨ c = '+' ∨ c = '-' ∨ c = '.'

instance (c : Char) : Decidable (IsWordLetter c) :=
  inferInstanceAs (Decidable (_ ∨ _ ∨ _ ∨ _))

mutual

/-- A value at the beginning of a text.  Numbers and words are kept as texts. -/
inductive Reads (raw : Char → Prop) : List Char → PTree → List Char → Prop
  | string {text chars rest : List Char} (h : Literal raw text chars rest) :
      Reads raw (quote :: text) (.node (String.ofList chars) []) rest
  | word {letters rest : List Char} (hne : letters ≠ []) (h : ∀ c ∈ letters, IsWordLetter c) :
      Reads raw (letters ++ rest) (.node (String.ofList letters) []) rest
  | array {text rest : List Char} {items : List (String × PTree)} (h : Items raw text items rest) :
      Reads raw ('[' :: text) (.node "" items) rest
  | object {text rest : List Char} {members : List (String × PTree)}
      (h : Members raw text members rest) : Reads raw (openBrace :: text) (.node "" members) rest

/-- The items of an array up to its end. -/
inductive Items (raw : Char → Prop) : List Char → List (String × PTree) → List Char → Prop
  | nil {text rest : List Char} (h : Blank text (']' :: rest)) : Items raw text [] rest
  | last {text first after rest : List Char} {item : PTree} (hblank : Blank text first)
      (hitem : Reads raw first item after) (hend : Blank after (']' :: rest)) :
      Items raw text [("", item)] rest
  | more {text first after next rest : List Char} {item other : PTree}
      {items : List (String × PTree)} (hblank : Blank text first)
      (hitem : Reads raw first item after) (hcomma : Blank after (',' :: next))
      (h : Items raw next (("", other) :: items) rest) :
      Items raw text (("", item) :: ("", other) :: items) rest

/-- One member of an object with the white space around it. -/
inductive Member (raw : Char → Prop) : List Char → String × PTree → List Char → Prop
  | mk {text first chars name colon value after rest : List Char} {tree : PTree}
      (hblank : Blank text (quote :: first)) (hname : Literal raw first chars name)
      (hcolon : Blank name (':' :: colon)) (hvalue : Blank colon value)
      (htree : Reads raw value tree after) (hafter : Blank after rest) :
      Member raw text (String.ofList chars, tree) rest

/-- The members of an object up to its end. -/
inductive Members (raw : Char → Prop) : List Char → List (String × PTree) → List Char → Prop
  | nil {text rest : List Char} (h : Blank text (closeBrace :: rest)) : Members raw text [] rest
  | last {text rest : List Char} {member : String × PTree}
      (h : Member raw text member (closeBrace :: rest)) : Members raw text [member] rest
  | more {text next rest : List Char} {member other : String × PTree}
      {members : List (String × PTree)} (hmember : Member raw text member (',' :: next))
      (h : Members raw next (other :: members) rest) :
      Members raw text (member :: other :: members) rest

end

/-- A whole text with nothing but white space around its value. -/
def Document (raw : Char → Prop) (text : List Char) (tree : PTree) : Prop :=
  ∃ first after, Blank text first ∧ Reads raw first tree after ∧ Blank after []

/-! ## What a text determines -/

section

variable {raw : Char → Prop}

theorem Blank.eq_of_not {c : Char} {text rest : List Char} (h : Blank (c :: text) rest)
    (hc : ¬ IsBlank c) : rest = c :: text := by
  cases h with
  | none => rfl
  | skip hblank _ => exact absurd hblank hc

theorem Escape.exists_letter {escaped : List Char} {c : Char} (h : Escape escaped c) :
    ∃ letter rest, escaped = '\\' :: letter :: rest ∧ (quote ∈ escaped → c = quote) := by
  have hhex : ∀ {digits : List Char}, Hex4 digits → quote ∉ digits :=
    fun hdigits hmem => absurd (hdigits.hex quote hmem) (by decide)
  cases h with
  | @short letter c hpair =>
      refine ⟨letter, [], rfl, fun hmem => ?_⟩
      have hletter : letter = quote := by
        simpa [quote, eq_comm] using hmem
      rw [hletter] at hpair
      simpa [shortEscapes, quote] using hpair
  | unit hdigits _ =>
      refine ⟨'u', _, rfl, fun hmem => absurd hmem ?_⟩
      simpa [quote] using hhex hdigits
  | pair hhigh hlow _ _ =>
      refine ⟨'u', _, rfl, fun hmem => absurd hmem ?_⟩
      simpa [quote] using And.intro (hhex hhigh) (hhex hlow)

/-- The number of characters before the first quote. -/
def ahead (text : List Char) : ℕ := (text.takeWhile fun c => c ≠ quote).length

theorem ahead_quote (text : List Char) : ahead (quote :: text) = 0 := by
  simp [ahead]

theorem ahead_cons {c : Char} (hc : c ≠ quote) (text : List Char) :
    ahead (c :: text) = ahead text + 1 := by
  simp [ahead, hc]

theorem ahead_append {chars : List Char} (hchars : quote ∉ chars) (text : List Char) :
    ahead (chars ++ text) = chars.length + ahead text := by
  induction chars with
  | nil => simp
  | cons c rest ih =>
      have hc : c ≠ quote := (List.ne_of_not_mem_cons hchars).symm
      rw [List.cons_append, ahead_cons hc, ih (List.not_mem_of_not_mem_cons hchars),
        List.length_cons]
      omega

/-- The first quote does not stand earlier in the text of a string than among what it means,
and in the same place only if nothing is escaped. -/
theorem Literal.ahead_le {text chars rest : List Char} (h : Literal raw text chars rest)
    (behind : List Char) :
    ahead (chars ++ quote :: behind) ≤ ahead text ∧
      (ahead text ≤ ahead (chars ++ quote :: behind) →
        text = chars ++ quote :: rest ∧ ∀ c ∈ chars, Plain raw c) := by
  induction h with
  | close rest =>
      rw [List.nil_append, ahead_quote, ahead_quote]
      exact ⟨le_refl 0, fun _ => ⟨rfl, fun c hc => absurd hc List.not_mem_nil⟩⟩
  | @plain c text chars rest hc _ ih =>
      rw [List.cons_append, ahead_cons hc.ne_quote, ahead_cons hc.ne_quote]
      refine ⟨Nat.succ_le_succ ih.1, fun hle => ?_⟩
      obtain ⟨htext, hplain⟩ := ih.2 (Nat.le_of_succ_le_succ hle)
      refine ⟨congrArg (c :: ·) htext, fun d hd => ?_⟩
      rcases List.mem_cons.mp hd with rfl | hd
      · exact hc
      · exact hplain d hd
  | @escape escaped text chars rest c hc _ ih =>
      -- the backslash stands before whatever is meant, and no escape is of length one
      obtain ⟨letter, tail, hescaped, hquote⟩ := hc.exists_letter
      have hlt : ahead (c :: chars ++ quote :: behind) < ahead (escaped ++ text) := by
        by_cases hmeans : c = quote
        · rw [hmeans, List.cons_append, ahead_quote, hescaped, List.cons_append,
            ahead_cons (by decide)]
          exact Nat.succ_pos _
        · have hno : quote ∉ escaped := fun hmem => hmeans (hquote hmem)
          have hlength : 2 ≤ escaped.length := by
            rw [hescaped]
            simp
          have hle := ih.1
          rw [List.cons_append, ahead_cons hmeans, ahead_append hno]
          omega
      exact ⟨hlt.le, fun hle => absurd hlt (not_lt.mpr hle)⟩

/-- A string that is read as what stands within its quotes has nothing escaped. -/
theorem Literal.plain_of_self {chars behind rest : List Char}
    (h : Literal raw (chars ++ quote :: behind) chars rest) :
    rest = behind ∧ ∀ c ∈ chars, Plain raw c := by
  obtain ⟨htext, hplain⟩ := (h.ahead_le behind).2 (le_refl _)
  have hrest := List.append_cancel_left htext
  exact ⟨(List.cons.inj hrest).2.symm, hplain⟩

theorem literal_of_plain {chars : List Char} (hplain : ∀ c ∈ chars, Plain raw c)
    (rest : List Char) : Literal raw (chars ++ quote :: rest) chars rest := by
  induction chars with
  | nil => exact .close rest
  | cons c chars ih =>
      exact .plain (hplain c List.mem_cons_self)
        (ih fun d hd => hplain d (List.mem_cons_of_mem c hd))

theorem IsWordLetter.ne_of_cons {c : Char} {text letters rest : List Char} (hc : ¬ IsWordLetter c)
    (hne : letters ≠ []) (hletters : ∀ d ∈ letters, IsWordLetter d) :
    c :: text ≠ letters ++ rest := by
  intro htext
  cases letters with
  | nil => exact hne rfl
  | cons d letters =>
      exact hc ((List.cons.inj htext).1 ▸ hletters d List.mem_cons_self)

/-- What begins with a quote is read as a string. -/
theorem Reads.literal {text rest : List Char} {tree : PTree}
    (h : Reads raw (quote :: text) tree rest) :
    ∃ chars, tree = .node (String.ofList chars) [] ∧ Literal raw text chars rest := by
  generalize hfull : quote :: text = full at h
  cases h with
  | string hliteral =>
      rw [(List.cons.inj hfull).2]
      exact ⟨_, rfl, hliteral⟩
  | word hne hletters => exact absurd hfull (IsWordLetter.ne_of_cons (by decide) hne hletters)
  | array _ => exact absurd (List.cons.inj hfull).1 (by decide)
  | object _ => exact absurd (List.cons.inj hfull).1 (by decide)

/-- What begins with a brace is read as an object. -/
theorem Reads.members {text rest : List Char} {tree : PTree}
    (h : Reads raw (openBrace :: text) tree rest) :
    ∃ members, tree = .node "" members ∧ Members raw text members rest := by
  generalize hfull : openBrace :: text = full at h
  cases h with
  | string _ => exact absurd (List.cons.inj hfull).1 (by decide)
  | word hne hletters => exact absurd hfull (IsWordLetter.ne_of_cons (by decide) hne hletters)
  | array _ => exact absurd (List.cons.inj hfull).1 (by decide)
  | object hmembers =>
      rw [(List.cons.inj hfull).2]
      exact ⟨_, rfl, hmembers⟩

/-- White space ends at the same place wherever something else follows. -/
theorem Blank.unique {c d : Char} {text first second : List Char} (hfirst : Blank text (c :: first))
    (hsecond : Blank text (d :: second)) (hc : ¬IsBlank c) (hd : ¬IsBlank d) :
    c :: first = d :: second := by
  generalize hfull : c :: first = full at hfirst
  induction hfirst with
  | none text =>
      rw [← hfull] at hsecond ⊢
      exact (hsecond.eq_of_not hc).symm
  | @skip blank text rest hblank _ ih =>
      cases hsecond with
      | none => exact absurd hblank hd
      | skip _ hrest => exact ih hrest hfull

/-- White space does not go over a character that is none. -/
theorem Blank.eq_of_append {front text rest : List Char} {c d : Char}
    (h : Blank (front ++ c :: text) (d :: rest)) (hc : ¬IsBlank c) (hd : d ∉ front) :
    d :: rest = c :: text := by
  induction front with
  | nil => exact h.eq_of_not hc
  | cons e front ih =>
      rw [List.mem_cons, not_or] at hd
      rw [List.cons_append] at h
      generalize hfull : d :: rest = full at h
      cases h with
      | none => exact absurd (List.cons.inj hfull).1 hd.1
      | skip _ hrest =>
          rw [← hfull] at hrest ⊢
          exact ih hrest hd.2

/-- No value begins with white space, nor with what may stand behind one. -/
theorem Reads.exists_cons {text rest : List Char} {tree : PTree} (h : Reads raw text tree rest) :
    ∃ c after, text = c :: after ∧ ¬IsBlank c ∧ c ≠ ',' ∧ c ≠ closeBrace := by
  have hword : ∀ c, IsWordLetter c → ¬IsBlank c ∧ c ≠ ',' ∧ c ≠ closeBrace := by
    intro c hc
    refine ⟨?_, ?_, ?_⟩
    · rintro (rfl | rfl | rfl | rfl) <;> exact absurd hc (by decide)
    · rintro rfl
      exact absurd hc (by decide)
    · rintro rfl
      exact absurd hc (by decide)
  cases h with
  | string _ => exact ⟨_, _, rfl, by decide, by decide, by decide⟩
  | @word letters rest hne hletters =>
      cases letters with
      | nil => exact absurd rfl hne
      | cons c letters => exact ⟨c, _, rfl, hword c (hletters c List.mem_cons_self)⟩
  | array _ => exact ⟨_, _, rfl, by decide, by decide, by decide⟩
  | object _ => exact ⟨_, _, rfl, by decide, by decide, by decide⟩

/-- Without a quote in what a string means, it ends at its first quote. -/
theorem Literal.exists_append {text chars rest : List Char} (h : Literal raw text chars rest)
    (hchars : quote ∉ chars) : ∃ front, text = front ++ quote :: rest ∧ quote ∉ front := by
  induction h with
  | close rest => exact ⟨[], rfl, List.not_mem_nil⟩
  | plain hc _ ih =>
      rw [List.mem_cons, not_or] at hchars
      obtain ⟨front, rfl, hfront⟩ := ih hchars.2
      refine ⟨_ :: front, rfl, ?_⟩
      rw [List.mem_cons, not_or]
      exact ⟨hc.ne_quote.symm, hfront⟩
  | @escape escaped text chars rest c hc _ ih =>
      rw [List.mem_cons, not_or] at hchars
      obtain ⟨front, rfl, hfront⟩ := ih hchars.2
      obtain ⟨letter, tail, -, hquote⟩ := hc.exists_letter
      refine ⟨escaped ++ front, (List.append_assoc _ _ _).symm, ?_⟩
      rw [List.mem_append, not_or]
      exact ⟨fun hmem => hchars.1 (hquote hmem).symm, hfront⟩

/-- A text is determined up to the first place of a mark and behind it. -/
theorem append_mark_inj {mark : Char} {front other text rest : List Char} (hfront : mark ∉ front)
    (hother : mark ∉ other) (heq : front ++ mark :: text = other ++ mark :: rest) :
    front = other ∧ text = rest := by
  have hsplit := congrArg (List.splitOn mark) heq
  rw [List.splitOn_append_cons_self_of_not_mem hfront,
    List.splitOn_append_cons_self_of_not_mem hother] at hsplit
  obtain rfl := (List.cons.inj hsplit).1
  exact ⟨rfl, (List.cons.inj (List.append_cancel_left heq)).2⟩

/-- A string without escapes means what it says. -/
theorem Literal.eq_of_plain {front text chars rest : List Char}
    (h : Literal raw (front ++ quote :: text) chars rest)
    (hfront : ∀ c ∈ front, Plain raw c) : chars = front ∧ rest = text := by
  induction front generalizing chars with
  | nil =>
      generalize hfull : [] ++ quote :: text = full at h
      cases h with
      | close => exact ⟨rfl, (List.cons.inj hfull).2.symm⟩
      | plain hc _ => exact absurd (List.cons.inj hfull).1.symm hc.ne_quote
      | escape hc _ =>
          obtain ⟨letter, tail, rfl, -⟩ := hc.exists_letter
          exact absurd (List.cons.inj hfull).1 (by decide)
  | cons c front ih =>
      have hc := hfront c List.mem_cons_self
      generalize hfull : c :: front ++ quote :: text = full at h
      cases h with
      | close => exact absurd (List.cons.inj hfull).1 hc.ne_quote
      | @plain d _ _ _ _ hrest =>
          obtain ⟨rfl, rfl⟩ := List.cons.inj hfull
          obtain ⟨rfl, hend⟩ := ih hrest fun d hd => hfront d (List.mem_cons_of_mem c hd)
          exact ⟨rfl, hend⟩
      | escape hescape _ =>
          obtain ⟨letter, tail, rfl, -⟩ := hescape.exists_letter
          exact absurd (List.cons.inj hfull).1 hc.ne_backslash

/-- What a string means is no longer than its text, and as long only if it is the text. -/
theorem Literal.length_le {front text chars rest : List Char}
    (h : Literal raw (front ++ quote :: text) chars rest) (hfront : quote ∉ front)
    (hchars : quote ∉ chars) :
    chars.length ≤ front.length ∧ (front.length ≤ chars.length → chars = front) := by
  obtain ⟨hle, hsame⟩ := h.ahead_le []
  rw [ahead_append hchars, ahead_append hfront, ahead_quote, ahead_quote, Nat.add_zero,
    Nat.add_zero] at hle
  refine ⟨hle, fun hge => ?_⟩
  rw [ahead_append hchars, ahead_append hfront, ahead_quote, ahead_quote] at hsame
  exact (append_mark_inj hfront hchars (hsame (by omega)).1).1.symm

/-- An escape has no control characters. -/
theorem Escape.le_toNat {escaped : List Char} {c : Char} (h : Escape escaped c) :
    ∀ d ∈ escaped, 32 ≤ d.toNat := by
  have hhex : ∀ {digits : List Char}, Hex4 digits → ∀ d ∈ digits, 32 ≤ d.toNat := by
    intro digits hdigits d hd
    have hall : ∀ e ∈ hexDigits, 32 ≤ e.toNat := by simp [hexDigits]
    exact hall d (hdigits.hex d hd)
  have hshort : ∀ pair ∈ shortEscapes, 32 ≤ pair.1.toNat := by decide
  cases h with
  | short hpair =>
      rw [List.forall_mem_cons, List.forall_mem_singleton]
      exact ⟨by decide, hshort _ hpair⟩
  | unit hdigits _ =>
      rw [List.forall_mem_cons, List.forall_mem_cons]
      exact ⟨by decide, by decide, hhex hdigits⟩
  | pair hhigh hlow _ _ =>
      rw [List.forall_mem_cons, List.forall_mem_cons, List.forall_mem_append,
        List.forall_mem_cons, List.forall_mem_cons]
      exact ⟨by decide, by decide, hhex hhigh, by decide, by decide, hhex hlow⟩

/-- A string does not go over a control character. -/
theorem Literal.not_control (hraw : ∀ c, raw c → 32 ≤ c.toNat) {front text chars rest : List Char}
    {c : Char} (hfront : quote ∉ front) (hc : c.toNat < 32) :
    ¬Literal raw (front ++ c :: text) chars rest := by
  intro h
  generalize hfull : front ++ c :: text = full at h
  induction h generalizing front with
  | close rest =>
      cases front with
      | nil =>
          rw [(List.cons.inj hfull).1] at hc
          exact absurd hc (by decide)
      | cons d front =>
          rw [(List.cons.inj hfull).1] at hfront
          exact hfront List.mem_cons_self
  | plain hd _ ih =>
      cases front with
      | nil =>
          have hcode := hraw _ hd.raw
          rw [← (List.cons.inj hfull).1] at hcode
          omega
      | cons d front =>
          rw [List.mem_cons, not_or] at hfront
          exact ih hfront.2 (List.cons.inj hfull).2
  | escape hescape _ ih =>
      have hcontrol := hescape.le_toNat
      rcases List.append_eq_append_iff.mp hfull with
        ⟨more, hescaped, htext⟩ | ⟨more, hfront', htext⟩
      · cases more with
        | nil => exact ih List.not_mem_nil htext
        | cons d more =>
            have hcode := hcontrol c (by
              rw [hescaped, (List.cons.inj htext).1]
              exact List.mem_append_right _ List.mem_cons_self)
            omega
      · rw [hfront', List.mem_append, not_or] at hfront
        exact ih hfront.2 htext.symm

/-- The parts of a member whose name ends at the first quote. -/
theorem Member.exists_value {front text rest : List Char} {name : String} {tree : PTree}
    (h : Member raw (quote :: (front ++ quote :: ':' :: text)) (name, tree) rest)
    (hfront : quote ∉ front) (hname : quote ∉ name.toList) :
    Literal raw (front ++ quote :: ':' :: text) name.toList (':' :: text) ∧
      ∃ value after, Blank text value ∧ Reads raw value tree after ∧ Blank after rest := by
  generalize hmember : (name, tree) = member at h
  cases h with
  | @mk _ first chars behind colon value after rest tree' hblank hliteral hcolon hvalue hread
      hafter =>
      obtain ⟨hchars, rfl⟩ := Prod.mk.inj hmember
      have hopen := hblank.eq_of_not (by decide)
      rw [(List.cons.inj hopen).2] at hliteral
      have hsame : chars = name.toList := by rw [hchars, String.toList_ofList]
      rw [hsame] at hliteral
      obtain ⟨other, hother, hquote⟩ := hliteral.exists_append hname
      obtain ⟨-, hend⟩ := append_mark_inj hfront hquote hother
      rw [← hend] at hliteral hcolon
      have hmiddle := hcolon.eq_of_not (by decide)
      rw [(List.cons.inj hmiddle).2] at hvalue
      exact ⟨hliteral, value, after, hvalue, hread, hafter⟩

/-- A value whose data is no word is a string. -/
theorem Reads.literal_of_data {text rest : List Char} {data : String} {c : Char}
    (h : Reads raw text (.node data []) rest) (hc : c ∈ data.toList) (hword : ¬IsWordLetter c) :
    ∃ content, text = quote :: content ∧ Literal raw content data.toList rest := by
  generalize htree : PTree.node data [] = tree at h
  cases h with
  | @string content chars rest hliteral =>
      have hdata : data = String.ofList chars := congrArg PTree.data htree
      rw [hdata, String.toList_ofList]
      exact ⟨content, rfl, hliteral⟩
  | @word letters rest hne hletters =>
      have hdata : data = String.ofList letters := congrArg PTree.data htree
      rw [hdata, String.toList_ofList] at hc
      exact absurd (hletters c hc) hword
  | array _ =>
      have hdata : data = "" := congrArg PTree.data htree
      rw [hdata] at hc
      exact absurd hc (by simp)
  | object _ =>
      have hdata : data = "" := congrArg PTree.data htree
      rw [hdata] at hc
      exact absurd hc (by simp)

/-- What begins with a bracket is read as an array. -/
theorem Reads.items {text rest : List Char} {tree : PTree}
    (h : Reads raw ('[' :: text) tree rest) :
    ∃ items, tree = .node "" items ∧ Items raw text items rest := by
  generalize hfull : '[' :: text = full at h
  cases h with
  | string _ => exact absurd (List.cons.inj hfull).1 (by decide)
  | word hne hletters => exact absurd hfull (IsWordLetter.ne_of_cons (by decide) hne hletters)
  | array hitems =>
      rw [(List.cons.inj hfull).2]
      exact ⟨_, rfl, hitems⟩
  | object _ => exact absurd (List.cons.inj hfull).1 (by decide)

end

def quoted (text : String) (rest : List Char) : List Char :=
  quote :: (text.toList ++ quote :: rest)

def flatMember (entry : String × String) (rest : List Char) : List Char :=
  quoted entry.1 (':' :: quoted entry.2 rest)

/-- What follows a member. -/
def further (entries : List (String × String)) : List Char :=
  entries.foldr (fun entry rest => ',' :: flatMember entry rest) [closeBrace]

/-- The text behind the opening brace. -/
def flatMembers : List (String × String) → List Char
  | [] => [closeBrace]
  | entry :: entries => flatMember entry (further entries)

def flatTree (entries : List (String × String)) : PTree :=
  .node "" (entries.map fun entry => (entry.1, .node entry.2 []))

def PlainText (raw : Char → Prop) (text : String) : Prop := ∀ c ∈ text.toList, Plain raw c

/-- Names and values have plain characters only. -/
def PlainEntries (raw : Char → Prop) (entries : List (String × String)) : Prop :=
  ∀ entry ∈ entries, PlainText raw entry.1 ∧ PlainText raw entry.2

section

variable {raw : Char → Prop}

theorem not_isBlank_further (entries : List (String × String)) :
    ∃ c text, further entries = c :: text ∧ ¬ IsBlank c := by
  cases entries with
  | nil => exact ⟨_, _, rfl, by decide⟩
  | cons entry rest => exact ⟨_, _, rfl, by decide⟩

/-- The parts of a member whose name is read as it is written. -/
theorem Member.exists_of_self {name : String} {text rest : List Char} {tree : PTree}
    (h : Member raw (quoted name (':' :: text)) (name, tree) rest) :
    PlainText raw name ∧
      ∃ value after, Blank text value ∧ Reads raw value tree after ∧ Blank after rest := by
  generalize hmember : (name, tree) = member at h
  cases h with
  | @mk _ first chars behind colon value after rest other hblank hname hcolon hvalue hread hafter =>
      obtain ⟨hfirst, rfl⟩ := Prod.mk.inj hmember
      have hchars : chars = name.toList := by
        rw [hfirst, String.toList_ofList]
      have hopen := hblank.eq_of_not (by decide)
      rw [(List.cons.inj hopen).2, hchars] at hname
      obtain ⟨rfl, hplain⟩ := hname.plain_of_self
      have hmiddle := hcolon.eq_of_not (by decide)
      rw [(List.cons.inj hmiddle).2] at hvalue
      exact ⟨hplain, value, after, hvalue, hread, hafter⟩

/-- A member that is read as it is written has nothing escaped. -/
theorem Member.plain {entry : String × String} {behind : List Char} {c : Char} {text : List Char}
    (hbehind : behind = c :: text) (hc : ¬ IsBlank c) {rest : List Char}
    (h : Member raw (flatMember entry behind) (entry.1, .node entry.2 []) rest) :
    rest = behind ∧ PlainText raw entry.1 ∧ PlainText raw entry.2 := by
  obtain ⟨hplainName, value, after, hvalue, hread, hafter⟩ := h.exists_of_self
  rw [hvalue.eq_of_not (by decide)] at hread
  obtain ⟨content, hcontent, hliteral⟩ := hread.literal
  have hvalueChars : content = entry.2.toList := by
    have hdata : entry.2 = String.ofList content := congrArg PTree.data hcontent
    rw [hdata, String.toList_ofList]
  rw [hvalueChars] at hliteral
  obtain ⟨rfl, hplainValue⟩ := hliteral.plain_of_self
  rw [hbehind] at hafter ⊢
  exact ⟨hafter.eq_of_not hc, hplainName, hplainValue⟩

/-- An object with members begins with the first one. -/
theorem Members.exists_member {text rest : List Char} {member : String × PTree}
    {members : List (String × PTree)} (h : Members raw text (member :: members) rest) :
    ∃ after, Member raw text member after := by
  cases h with
  | last hmember => exact ⟨_, hmember⟩
  | more hmember _ => exact ⟨_, hmember⟩

/-- An object that is read as it is written has nothing escaped. -/
theorem Members.plain {entries : List (String × String)} {rest : List Char}
    (h : Members raw (flatMembers entries)
      (entries.map fun entry => (entry.1, .node entry.2 [])) rest) :
    PlainEntries raw entries := by
  induction entries with
  | nil => exact fun entry hentry => absurd hentry List.not_mem_nil
  | cons entry entries ih =>
      obtain ⟨c, text, hbehind, hc⟩ := not_isBlank_further entries
      generalize hmembers : ((entry :: entries).map fun entry =>
        (entry.1, PTree.node entry.2 [])) = members at h
      cases h with
      | nil _ => cases hmembers
      | last hmember =>
          obtain ⟨rfl, hnil⟩ := List.cons.inj hmembers
          rw [List.map_eq_nil_iff] at hnil
          obtain ⟨-, hplain⟩ := hmember.plain hbehind hc
          rw [hnil]
          exact List.forall_mem_singleton.mpr hplain
      | more hmember hmore =>
          obtain ⟨rfl, hrest⟩ := List.cons.inj hmembers
          obtain ⟨hnext, hplain⟩ := hmember.plain hbehind hc
          refine List.forall_mem_cons.mpr ⟨hplain, ih ?_⟩
          rw [hrest]
          cases entries with
          | nil => cases hrest
          | cons other entries =>
              rw [show _ = flatMembers (other :: entries) from (List.cons.inj hnext).2] at hmore
              exact hmore

theorem member_flatMember {entry : String × String} (hname : PlainText raw entry.1)
    (hvalue : PlainText raw entry.2) (rest : List Char) :
    Member raw (flatMember entry rest) (entry.1, .node entry.2 []) rest := by
  have hmember : Member raw (flatMember entry rest)
      (String.ofList entry.1.toList, .node (String.ofList entry.2.toList) []) rest :=
    .mk (.none _) (literal_of_plain hname _) (.none _) (.none _)
      (.string (literal_of_plain hvalue rest)) (.none _)
  rw [String.ofList_toList, String.ofList_toList] at hmember
  exact hmember

theorem flatMember_append (entry : String × String) (rest behind : List Char) :
    flatMember entry rest ++ behind = flatMember entry (rest ++ behind) := by
  simp [flatMember, quoted]

theorem members_flatMembers {entries : List (String × String)}
    (hplain : PlainEntries raw entries) (rest : List Char) :
    Members raw (flatMembers entries ++ rest)
      (entries.map fun entry => (entry.1, .node entry.2 [])) rest := by
  induction entries with
  | nil => exact .nil (.none _)
  | cons entry entries ih =>
      obtain ⟨hentry, hentries⟩ := List.forall_mem_cons.mp hplain
      have hmember := member_flatMember hentry.1 hentry.2 (further entries ++ rest)
      rw [flatMembers, flatMember_append]
      cases entries with
      | nil => exact .last hmember
      | cons other entries => exact .more hmember (ih hentries)

/-- An object of strings is read as it is written exactly when nothing had to be escaped. -/
theorem document_flat_iff (entries : List (String × String)) :
    Document raw (openBrace :: flatMembers entries) (flatTree entries) ↔
      PlainEntries raw entries := by
  constructor
  · rintro ⟨first, after, hblank, hread, -⟩
    rw [hblank.eq_of_not (by decide)] at hread
    obtain ⟨members, htree, hmembers⟩ := hread.members
    have hsame : (entries.map fun entry => (entry.1, PTree.node entry.2 [])) = members :=
      congrArg PTree.children htree
    rw [← hsame] at hmembers
    exact hmembers.plain
  · intro hplain
    have hmembers := members_flatMembers hplain []
    rw [List.append_nil] at hmembers
    exact ⟨_, [], .none _, .object hmembers, .none _⟩

end

end Json

/-! ## Readers -/

open Json

/-- What is known of `read_json`: what it accepts is a text of JSON, and it reads an object of
strings that needs no escapes. -/
structure JsonReader where
  read : String → Option PTree
  /-- The characters it takes within quotes as they stand. -/
  raw : Char → Prop
  sound : ∀ {text tree}, read text = some tree → Document raw text.toList tree
  reads_flat : ∀ entries, PlainEntries raw entries →
    read (String.ofList (openBrace :: flatMembers entries)) = some (flatTree entries)

/-- An object of strings is read back exactly when nothing in it had to be escaped. -/
theorem JsonReader.read_flat_iff (reader : JsonReader) (entries : List (String × String)) :
    reader.read (String.ofList (openBrace :: flatMembers entries)) = some (flatTree entries) ↔
      PlainEntries reader.raw entries := by
  refine ⟨fun hread => ?_, reader.reads_flat entries⟩
  have hdocument := reader.sound hread
  rw [String.toList_ofList] at hdocument
  exact (document_flat_iff entries).mp hdocument

instance (raw : Char → Prop) [DecidablePred raw] (c : Char) : Decidable (Plain raw c) :=
  decidable_of_iff (raw c ∧ c ≠ quote ∧ c ≠ '\\')
    ⟨fun ⟨hraw, hquote, hbackslash⟩ => ⟨hraw, hquote, hbackslash⟩,
      fun h => ⟨h.raw, h.ne_quote, h.ne_backslash⟩⟩

instance (raw : Char → Prop) [DecidablePred raw] (text : String) : Decidable (PlainText raw text) :=
  List.decidableBAll (Plain raw) text.toList

instance (raw : Char → Prop) [DecidablePred raw] (entries : List (String × String)) :
    Decidable (PlainEntries raw entries) :=
  List.decidableBAll (fun entry : String × String =>
    PlainText raw entry.1 ∧ PlainText raw entry.2) entries

/-- The pieces between quotes, from the first name on. -/
def entriesOf : List (List Char) → List (String × String)
  | name :: _ :: value :: _ :: rest => (String.ofList name, String.ofList value) :: entriesOf rest
  | _ => []

theorem PlainText.notMem {raw : Char → Prop} {text : String} (h : PlainText raw text) :
    quote ∉ text.toList :=
  fun hmem => (h quote hmem).ne_quote rfl

theorem splitOn_flatMember {raw : Char → Prop} {entry : String × String} {front : List Char}
    (hfront : quote ∉ front) (hname : PlainText raw entry.1) (hvalue : PlainText raw entry.2)
    (rest : List Char) :
    (front ++ flatMember entry rest).splitOn quote =
      front :: entry.1.toList :: [':'] :: entry.2.toList :: rest.splitOn quote := by
  have hcolon : quote ∉ [':'] := by
    decide
  rw [flatMember, quoted, quoted, List.splitOn_append_cons_self_of_not_mem hfront,
    List.splitOn_append_cons_self_of_not_mem (PlainText.notMem hname),
    ← List.singleton_append (x := ':'),
    List.splitOn_append_cons_self_of_not_mem hcolon,
    List.splitOn_append_cons_self_of_not_mem (PlainText.notMem hvalue)]

theorem entriesOf_flatMembers {raw : Char → Prop} {entries : List (String × String)}
    (hplain : PlainEntries raw entries) (front : List Char) (hfront : quote ∉ front) :
    entriesOf (((front ++ flatMembers entries).splitOn quote).drop 1) = entries := by
  induction entries generalizing front with
  | nil =>
      have hnone : quote ∉ front ++ flatMembers [] := by
        rw [List.mem_append, not_or]
        exact ⟨hfront, by decide⟩
      rw [List.splitOn_eq_singleton hnone]
      rfl
  | cons entry entries ih =>
      obtain ⟨hentry, hentries⟩ := List.forall_mem_cons.mp hplain
      rw [flatMembers, splitOn_flatMember hfront hentry.1 hentry.2]
      cases entries with
      | nil =>
          simp [further, entriesOf, List.splitOn_eq_singleton, closeBrace, quote]
      | cons other entries =>
          have hrest := ih hentries [','] (by decide)
          have hfurther : further (other :: entries) =
              [','] ++ flatMembers (other :: entries) := rfl
          rw [hfurther]
          cases hpieces : ([','] ++ flatMembers (other :: entries)).splitOn quote with
          | nil => exact absurd hpieces (List.splitOn_ne_nil _ _)
          | cons piece pieces =>
              rw [hpieces] at hrest
              simp only [List.drop_one, List.tail_cons, entriesOf, String.ofList_toList] at hrest ⊢
              rw [hrest]

/-- Objects of strings that need no escapes and have no white space. -/
def flatReader : JsonReader where
  read text :=
    let entries := entriesOf ((text.toList.splitOn quote).drop 1)
    if text.toList = openBrace :: flatMembers entries ∧
        PlainEntries (fun c => 32 ≤ c.toNat) entries then
      some (flatTree entries)
    else none
  raw c := 32 ≤ c.toNat
  sound := by
    intro text tree hread
    dsimp only at hread
    split at hread
    · rename_i hflat
      rw [hflat.1, ← Option.some.inj hread]
      exact (document_flat_iff _).mpr hflat.2
    · cases hread
  reads_flat := by
    intro entries hplain
    have hentries := entriesOf_flatMembers hplain [openBrace] (by decide)
    rw [List.singleton_append] at hentries
    dsimp only
    rw [String.toList_ofList, hentries, if_pos ⟨rfl, hplain⟩]

instance : DecidablePred flatReader.raw :=
  fun c => inferInstanceAs (Decidable (32 ≤ c.toNat))

end Hat
