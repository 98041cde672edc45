import Hat.Minilibs.Hsrv

/-!
# Escapes in answers

`hsrv::filterChar` reads the escapes of a text from left to right and puts the characters
they stand for in their place.  The branch of `\\r` does not step over its letter, so what
it leaves behind is one character too long.
-/

namespace Hat.Hsrv

/-- The loop over the text from one place on, with the character behind the last place copied. -/
def filterFrom (src : List Char) (i : ℕ) (answer : List Char) : List Char :=
  if i + 1 < src.length then
    if src[i]? = some '\\' ∧ src[i + 1]? = some 'r' then
      filterFrom src (i + 1) (answer ++ ['\r'])
    else if src[i]? = some '\\' ∧ src[i + 1]? = some 'n' then
      filterFrom src (i + 2) (answer ++ ['\n'])
    else if src[i]? = some '\\' ∧ src[i + 1]? = some 't' then
      filterFrom src (i + 2) (answer ++ ['\t'])
    else if src[i]? = some '\\' ∧ src[i + 1]? = some '\\' then
      filterFrom src (i + 2) (answer ++ ['\\'])
    else filterFrom src (i + 1) (answer ++ src[i]?.toList)
  else answer ++ src[i]?.toList
termination_by src.length - i

def IsEscape (c d : Char) : Prop := c = '\\' ∧ d ∈ ['r', 'n', 't', '\\']

instance (c d : Char) : Decidable (IsEscape c d) :=
  inferInstanceAs (Decidable (c = '\\' ∧ d ∈ ['r', 'n', 't', '\\']))

/-- The escapes and the other characters of a text, read from left to right. -/
def pieces : List Char → List (List Char)
  | [] => []
  | [c] => [[c]]
  | c :: d :: rest => if IsEscape c d then [c, d] :: pieces rest else [c] :: pieces (d :: rest)

/-- What a piece stands for. -/
def meaning : List Char → List Char
  | ['\\', 'r'] => ['\r']
  | ['\\', 'n'] => ['\n']
  | ['\\', 't'] => ['\t']
  | ['\\', '\\'] => ['\\']
  | piece => piece

def unescape (text : String) : String :=
  String.ofList ((pieces text.toList).flatMap meaning)

/-- The four characters that are written as two. -/
def escapePiece (c : Char) : List Char :=
  if c = '\r' then ['\\', 'r']
  else if c = '\n' then ['\\', 'n']
  else if c = '\t' then ['\\', 't']
  else if c = '\\' then ['\\', '\\']
  else [c]

def escape (text : String) : String := String.ofList (text.toList.flatMap escapePiece)

/-- What the scan puts in the place of a piece. -/
def filtered (piece : List Char) : List Char :=
  if piece = ['\\', 'r'] then ['\r', 'r'] else meaning piece

theorem filterChars_cons {c : Char} (hc : c ≠ '\\') (rest : List Char) :
    filterChars (c :: rest) = c :: filterChars rest := by
  rw [filterChars]
  · rintro _ ⟨⟩ _
    exact hc rfl
  · rintro _ ⟨⟩ _
    exact hc rfl
  · rintro _ ⟨⟩ _
    exact hc rfl
  · rintro _ ⟨⟩ _
    exact hc rfl

theorem filterChars_of_not {c d : Char} (h : ¬IsEscape c d) (rest : List Char) :
    filterChars (c :: d :: rest) = c :: filterChars (d :: rest) := by
  by_cases hc : c = '\\'
  · have hd : d ∉ ['r', 'n', 't', '\\'] := fun hd => h ⟨hc, hd⟩
    simp only [List.mem_cons, List.not_mem_nil, or_false, not_or] at hd
    rw [filterChars]
    · rintro _ - ⟨⟩
      exact hd.1 rfl
    · rintro _ - ⟨⟩
      exact hd.2.1 rfl
    · rintro _ - ⟨⟩
      exact hd.2.2.1 rfl
    · rintro _ - ⟨⟩
      exact hd.2.2.2 rfl
  · exact filterChars_cons hc (d :: rest)

theorem filterChars_of_escape {c d : Char} (h : IsEscape c d) (rest : List Char) :
    filterChars (c :: d :: rest) = filtered [c, d] ++ filterChars rest := by
  obtain ⟨rfl, hd⟩ := h
  simp only [List.mem_cons, List.not_mem_nil, or_false] at hd
  rcases hd with rfl | rfl | rfl | rfl <;> rfl

theorem meaning_singleton (c : Char) : meaning [c] = [c] := by
  rw [meaning] <;> simp

theorem filtered_singleton (c : Char) : filtered [c] = [c] := by
  rw [filtered, if_neg (by simp), meaning_singleton]

theorem filterChars_eq (src : List Char) : filterChars src = (pieces src).flatMap filtered := by
  induction src using pieces.induct with
  | case1 => rfl
  | case2 c =>
      rw [pieces, List.flatMap_singleton, filtered_singleton]
      by_cases hc : c = '\\'
      · rw [hc]
        rfl
      · rw [filterChars_cons hc, filterChars]
  | case3 c d rest hescape ih =>
      rw [pieces, if_pos hescape, filterChars_of_escape hescape, List.flatMap_cons, ih]
  | case4 c d rest hescape ih =>
      rw [pieces, if_neg hescape, filterChars_of_not hescape, List.flatMap_cons, ih,
        filtered_singleton, List.singleton_append]

theorem drop_eq_cons {src : List Char} {i : ℕ} {c : Char} (hc : src[i]? = some c) :
    src.drop i = c :: src.drop (i + 1) := by
  obtain ⟨hi, rfl⟩ := List.getElem?_eq_some_iff.mp hc
  exact List.drop_eq_getElem_cons hi

/-- The loop goes over what is left of the text as `filterChars` does. -/
theorem filterFrom_eq (src : List Char) (i : ℕ) (answer : List Char) :
    filterFrom src i answer = answer ++ filterChars (src.drop i) := by
  induction i, answer using filterFrom.induct src with
  | case1 i answer hi h ih =>
      rw [filterFrom, if_pos hi, if_pos h, ih, drop_eq_cons h.1, drop_eq_cons h.2,
        filterChars_cons (by decide), filterChars, List.append_assoc]
      rfl
  | case2 i answer hi h1 h ih =>
      rw [filterFrom, if_pos hi, if_neg h1, if_pos h, ih, drop_eq_cons h.1, drop_eq_cons h.2,
        filterChars, List.append_assoc]
      rfl
  | case3 i answer hi h1 h2 h ih =>
      rw [filterFrom, if_pos hi, if_neg h1, if_neg h2, if_pos h, ih, drop_eq_cons h.1,
        drop_eq_cons h.2, filterChars, List.append_assoc]
      rfl
  | case4 i answer hi h1 h2 h3 h ih =>
      rw [filterFrom, if_pos hi, if_neg h1, if_neg h2, if_neg h3, if_pos h, ih,
        drop_eq_cons h.1, drop_eq_cons h.2, filterChars, List.append_assoc]
      rfl
  | case5 i answer hi h1 h2 h3 h4 ih =>
      obtain ⟨c, hc⟩ : ∃ c, src[i]? = some c := ⟨_, List.getElem?_eq_getElem (by omega)⟩
      obtain ⟨d, hd⟩ : ∃ d, src[i + 1]? = some d := ⟨_, List.getElem?_eq_getElem hi⟩
      have hescape : ¬IsEscape c d := by
        rintro ⟨rfl, hmem⟩
        simp only [List.mem_cons, List.not_mem_nil, or_false] at hmem
        rcases hmem with rfl | rfl | rfl | rfl
        · exact h1 ⟨hc, hd⟩
        · exact h2 ⟨hc, hd⟩
        · exact h3 ⟨hc, hd⟩
        · exact h4 ⟨hc, hd⟩
      rw [filterFrom, if_pos hi, if_neg h1, if_neg h2, if_neg h3, if_neg h4, ih, hc,
        drop_eq_cons hc, drop_eq_cons hd, filterChars_of_not hescape, List.append_assoc]
      rfl
  | case6 i answer hi =>
      rw [filterFrom, if_neg hi]
      cases hc : src[i]? with
      | none =>
          rw [List.drop_eq_nil_of_le (List.getElem?_eq_none_iff.mp hc)]
          rfl
      | some c =>
          have hnil : src.drop (i + 1) = [] := List.drop_eq_nil_of_le (by omega)
          rw [drop_eq_cons hc, hnil, filterChars_eq, pieces, List.flatMap_singleton,
            filtered_singleton]
          rfl

theorem filterChar_eq (src : String) :
    filterChar src = String.ofList (filterFrom src.toList 0 []) := by
  rw [filterFrom_eq, List.drop_zero, List.nil_append, filterChar]

/-- Each return that is read off makes the text one character longer than it should be. -/
theorem length_flatMap_filtered (list : List (List Char)) :
    (list.flatMap filtered).length =
      (list.flatMap meaning).length + list.count ['\\', 'r'] := by
  induction list with
  | nil => rfl
  | cons piece rest ih =>
      rw [List.flatMap_cons, List.flatMap_cons, List.length_append, List.length_append, ih,
        filtered]
      by_cases hpiece : piece = ['\\', 'r']
      · rw [if_pos hpiece, hpiece, List.count_cons_self]
        simp only [meaning, List.length_cons, List.length_nil]
        omega
      · rw [if_neg hpiece, List.count_cons_of_ne hpiece]
        omega

theorem flatMap_filtered_iff (list : List (List Char)) :
    list.flatMap filtered = list.flatMap meaning ↔ ['\\', 'r'] ∉ list := by
  constructor
  · intro heq
    have hlength := length_flatMap_filtered list
    rw [heq] at hlength
    exact List.count_eq_zero.mp (by omega)
  · intro hnot
    refine List.flatMap_congr fun piece hpiece => ?_
    rw [filtered, if_neg]
    rintro rfl
    exact hnot hpiece

theorem pieces_cons {c : Char} (hc : c ≠ '\\') (rest : List Char) :
    pieces (c :: rest) = [c] :: pieces rest := by
  cases rest with
  | nil => rfl
  | cons d rest => rw [pieces, if_neg fun h => hc h.1]

theorem pieces_escapePiece (c : Char) (rest : List Char) :
    pieces (escapePiece c ++ rest) = escapePiece c :: pieces rest := by
  rw [escapePiece]
  split_ifs with hreturn hnewline htab hbackslash
  · rfl
  · rfl
  · rfl
  · rfl
  · exact pieces_cons hbackslash rest

theorem pieces_escape (chars : List Char) :
    pieces (chars.flatMap escapePiece) = chars.map escapePiece := by
  induction chars with
  | nil => rfl
  | cons c rest ih => rw [List.flatMap_cons, pieces_escapePiece, ih, List.map_cons]

theorem meaning_escapePiece (c : Char) : meaning (escapePiece c) = [c] := by
  rw [escapePiece]
  split_ifs with hreturn hnewline htab hbackslash
  · rw [hreturn]
    rfl
  · rw [hnewline]
    rfl
  · rw [htab]
    rfl
  · rw [hbackslash]
    rfl
  · exact meaning_singleton c

theorem unescape_escape (text : String) : unescape (escape text) = text := by
  rw [unescape, escape, String.toList_ofList, pieces_escape, List.flatMap_map]
  simp only [meaning_escapePiece, List.flatMap_singleton']
  exact String.ofList_toList

theorem escapePiece_eq_return_iff (c : Char) : escapePiece c = ['\\', 'r'] ↔ c = '\r' := by
  rw [escapePiece]
  split_ifs with hreturn <;> simp [hreturn]

/-- The scan reads off the escapes of a text exactly if none of them is that of a return, and
undoes the escaping of a text exactly if it has no return. -/
theorem filterChar_iff (src text : String) :
    (filterChar src = unescape src ↔ ['\\', 'r'] ∉ pieces src.toList) ∧
      (filterChar (escape text) = text ↔ '\r' ∉ text.toList) := by
  have hscan : ∀ s : String, filterChar s = unescape s ↔ ['\\', 'r'] ∉ pieces s.toList := by
    intro s
    rw [filterChar, unescape, String.ofList_inj, filterChars_eq, flatMap_filtered_iff]
  refine ⟨hscan src, ?_⟩
  have hescape := hscan (escape text)
  rw [unescape_escape, escape, String.toList_ofList, pieces_escape] at hescape
  rw [escape, hescape, List.mem_map]
  simp only [escapePiece_eq_return_iff, exists_eq_right]

/-- A return comes back with the letter of its escape behind it. -/
theorem not_filterChar_return :
    filterChar "\\r" ≠ unescape "\\r" ∧ filterChar (escape "\r") = "\rr" := by
  decide +kernel

end Hat.Hsrv
