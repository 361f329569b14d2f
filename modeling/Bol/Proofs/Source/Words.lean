/-
# Words of a source

A source may be written word by word, a word being a token apart from its line. Words are written
with one blank between them, and a line end is a word of its own. The tokens of a source are words
of a certain form: a name is no keyword, a number is digits, and a string has neither a quote nor
a backslash before an `n`, for which there is no escape.
-/

import Bol.Proofs.Token.Cut

namespace Bol

/-- A token apart from its line. -/
structure Word where
  kind : TokenKind
  value : String

/-- The word of a kind that is always spelled alike. -/
def TokenKind.word (kind : TokenKind) : Word := ⟨kind, kind.spelling⟩

@[simp]
theorem TokenKind.word_kind (kind : TokenKind) : kind.word.kind = kind := rfl

/-- A token apart from its line. -/
def Token.word (token : Token) : Word := ⟨token.kind, token.value⟩

/-- A text that names something: a word that is no keyword. -/
def IsName (text : String) : Prop :=
  Lexeme.IsWord text.toList ∧ TokenKind.ofWord text = .identifier

/-- A text that a string can have. There is no way to write a quote in a string, nor a backslash
before an `n`. -/
def IsContent (text : List Char) : Prop := '"' ∉ text ∧ ¬ ['\\', 'n'] <:+: text

namespace Word

/-- How the content of a string is written: its line ends as escapes. -/
def encode : List Char → List Char
  | [] => []
  | c :: rest => if c = '\n' then '\\' :: 'n' :: encode rest else c :: encode rest

/-- How a word is written. -/
def text (word : Word) : List Char :=
  match word.kind with
  | .string => '"' :: (encode word.value.toList ++ ['"'])
  | .newline => ['\n']
  | _ => word.value.toList

/-- Nothing is written between words and the ends of their line, and one blank between words. -/
def gap (first second : Word) : List Char :=
  if first.kind = .newline ∨ second.kind = .newline then [] else [' ']

/-- How words are written one after the other. -/
def render : List Word → List Char
  | [] => []
  | [word] => word.text
  | first :: second :: rest => first.text ++ (first.gap second ++ render (second :: rest))

/-- A word that a source can have: its text is one of its kind. -/
def IsLexed (word : Word) : Prop :=
  match word.kind with
  | .identifier => IsName word.value
  | .number => Lexeme.IsNumber word.value.toList
  | .string => IsContent word.value.toList
  | kind => word.value = kind.spelling

/-- Words of these kinds may follow each other: they are not two line ends, and the second does
not complete a keyword of two words that the first could begin. -/
def Separate (first second : TokenKind) : Prop :=
  ¬ (first = .newline ∧ second = .newline) ∧
    (first = .identifier ∨ first = .elseWord → second ≠ .identifier ∧ second ≠ .ifWord)

/-- What a word stands for in a source. -/
def lexeme (word : Word) : Lexeme :=
  if word.kind = .newline then .lineEnd else .token word.kind word.value

/-! ## Strings -/

open Lexeme

theorem decode_cons {c : Char} {rest : List Char} (h : c = '\\' → rest.head? ≠ some 'n') :
    decode (c :: rest) = c :: decode rest := by
  rw [decode]
  rintro more rfl rfl
  exact h rfl rfl

theorem head?_encode_eq_n {content : List Char} :
    (encode content).head? = some 'n' ↔ content.head? = some 'n' := by
  cases content with
  | nil => rfl
  | cons c rest =>
      rw [encode]
      split
      · simp_all
      · rfl

/-- An encoded content stands for the content. -/
theorem decode_encode {content : List Char} (h : ¬ ['\\', 'n'] <:+: content) :
    decode (encode content) = content := by
  induction content with
  | nil => rfl
  | cons c rest ih =>
      have hrest := ih fun hpart => h (hpart.trans (List.suffix_cons c rest).isInfix)
      rw [encode]
      split
      · rename_i hc
        rw [decode, hrest, hc]
      · rw [decode_cons, hrest]
        rintro rfl hhead
        rw [head?_encode_eq_n] at hhead
        obtain ⟨more, rfl⟩ := List.head?_eq_some_iff.mp hhead
        exact h ⟨[], more, rfl⟩

theorem isBody_encode {content : List Char} (h : '"' ∉ content) : IsBody (encode content) := by
  induction content with
  | nil => exact ⟨by simp [encode], by simp [encode]⟩
  | cons c rest ih =>
      rw [List.mem_cons, not_or] at h
      obtain ⟨hquote, hline⟩ := ih h.2
      rw [encode]
      split
      · exact ⟨by simp [hquote], by simp [hline]⟩
      · rename_i hc
        exact ⟨by simp [hquote, h.1], by simp [hline, Ne.symm hc]⟩

/-- Between quotes, what is written for a content is the piece that stands for it. -/
theorem selects_string {content : String} (h : IsContent content.toList) (after : List Char) :
    Selects (.token .string content) ('"' :: (encode content.toList ++ ['"'])) after := by
  obtain ⟨hquote, hescape⟩ := h
  have hselects := @Selects.string (encode content.toList) after (isBody_encode hquote)
  rwa [decode_encode hescape, String.ofList_toList] at hselects

theorem head?_decode_eq_n {body : List Char} (h : (decode body).head? = some 'n') :
    body.head? = some 'n' := by
  revert h
  fun_cases decode body with
  | case1 rest => simp
  | case2 c rest => simp
  | case3 => simp

/-- What a string stands for is a text that a string can have. -/
theorem isContent_decode {body : List Char} (h : IsBody body) : IsContent (decode body) := by
  obtain ⟨hquote, -⟩ := h
  fun_induction decode body with
  | case1 rest ih =>
      simp only [List.mem_cons, not_or] at hquote
      obtain ⟨hnone, hescape⟩ := ih hquote.2.2
      refine ⟨by simp [hnone], ?_⟩
      rw [List.infix_cons_iff]
      simp [hescape]
  | case2 c rest hplain ih =>
      simp only [List.mem_cons, not_or] at hquote
      obtain ⟨hnone, hescape⟩ := ih hquote.2
      refine ⟨by simp [hnone, hquote.1], ?_⟩
      rw [List.infix_cons_iff]
      rintro (⟨more, hmore⟩ | hpart)
      · obtain ⟨rfl, htail⟩ := List.cons.inj hmore
        have hhead : (decode rest).head? = some 'n' := by rw [← htail]; rfl
        obtain ⟨after, rfl⟩ := List.head?_eq_some_iff.mp (head?_decode_eq_n hhead)
        exact hplain after rfl rfl
      · exact hescape hpart
  | case3 => exact ⟨by simp, by simp⟩

/-! ## Words that a source can have -/

/-- The words and signs of the table are ones that a source can have. -/
theorem isLexed_of_table {kind : TokenKind} {text : String} (h : (text, kind) ∈ TokenKind.table) :
    IsLexed ⟨kind, text⟩ := by
  obtain ⟨hmem, rfl⟩ := TokenKind.mem_table_iff.mp h
  cases kind <;> first | rfl | exact absurd hmem (by decide)

/-- A selected piece that stands for a token stands for one that a source can have. -/
theorem isLexed_of_selects {kind : TokenKind} {value : String} {text rest : List Char}
    (h : Selects (.token kind value) text rest) : IsLexed ⟨kind, value⟩ := by
  cases h with
  | string hbody => simpa [IsLexed] using isContent_decode hbody
  | number htext => simpa [IsLexed] using htext.1
  | compound _ _ _ hkind => exact isLexed_of_table (TokenKind.ofWords?_eq_some_iff.mp hkind).2
  | word htext =>
      rcases TokenKind.ofWord_eq_iff.mp rfl with ⟨-, htable⟩ | ⟨hname, -⟩
      · exact isLexed_of_table htable
      · rw [hname]
        exact ⟨by simpa using htext.1, hname⟩
  | pair hkind => exact isLexed_of_table (TokenKind.ofPair?_eq_some_iff.mp hkind).2
  | symbol hkind => exact isLexed_of_table (TokenKind.ofSymbol?_eq_some_iff.mp hkind).2

theorem takeWhile_append_stop {p : Char → Bool} {text rest : List Char}
    (hrest : ∀ c ∈ rest.head?, p c = false) :
    (text ++ rest).takeWhile p = text.takeWhile p := by
  induction text with
  | nil =>
      cases rest with
      | nil => rfl
      | cons c rest => simp [hrest c rfl]
  | cons c text ih =>
      rw [List.cons_append, List.takeWhile_cons, List.takeWhile_cons, ih]

/-- No keyword of two words begins with a keyword of one word, except for `nahitr`. -/
theorem ne_first_part : ∀ kind ∈ TokenKind.keywords, kind ≠ .elseWord →
    ∀ compound ∈ TokenKind.compoundKeywords,
      kind.spelling.toList ≠ compound.spelling.toList.takeWhile (· != ' ') := by
  decide

/-- What is spelled in one way only does not begin with the second part of a keyword, except for
`jr`. -/
theorem ne_second_part {kind compound : TokenKind} (hif : kind ≠ .ifWord)
    (hcompound : compound ∈ TokenKind.compoundKeywords) :
    kind.spelling.toList.takeWhile isWordChar ≠
      (compound.spelling.toList.dropWhile (· != ' ')).tail := by
  revert compound
  cases kind <;> first | exact absurd rfl hif | decide

/-- The second part of a keyword starts with a letter. -/
theorem head?_second_part {compound : TokenKind}
    (hcompound : compound ∈ TokenKind.compoundKeywords) :
    ∃ c, (compound.spelling.toList.dropWhile (· != ' ')).tail.head? = some c ∧
      isWordStart c = true := by
  apply (Option.any_eq_true _ _).mp
  revert compound
  decide

variable {word first second : Word}

theorem IsLexed.isName (h : IsLexed word) (hkind : word.kind = .identifier) :
    IsName word.value := by
  rw [IsLexed, hkind] at h
  exact h

theorem IsLexed.isNumber (h : IsLexed word) (hkind : word.kind = .number) :
    IsNumber word.value.toList := by
  rw [IsLexed, hkind] at h
  exact h

theorem IsLexed.isContent (h : IsLexed word) (hkind : word.kind = .string) :
    IsContent word.value.toList := by
  rw [IsLexed, hkind] at h
  exact h

theorem IsLexed.value_eq (h : IsLexed word) (hname : word.kind ≠ .identifier)
    (hnumber : word.kind ≠ .number) (hstring : word.kind ≠ .string) :
    word.value = word.kind.spelling := by
  obtain ⟨kind, value⟩ := word
  cases kind <;> first | exact h | contradiction

theorem text_eq_value (hstring : word.kind ≠ .string) (hline : word.kind ≠ .newline) :
    word.text = word.value.toList := by
  obtain ⟨kind, value⟩ := word
  cases kind <;> first | rfl | contradiction

/-- What a number or a string starts with is no word. -/
theorem head?_text_of_number (h : IsLexed word) (hkind : word.kind = .number) :
    ∃ c, word.text.head? = some c ∧ c.isDigit = true := by
  rw [text_eq_value (by simp [hkind]) (by simp [hkind])]
  obtain ⟨c, more, heq, hdigit⟩ := (h.isNumber hkind).exists_cons
  exact ⟨c, by rw [heq]; rfl, hdigit⟩

/-- Separate words form no keyword. -/
theorem ofWords?_eq_none (hfirst : first.IsLexed)
    (hkind : first.kind = .identifier ∨ first.kind ∈ TokenKind.keywords)
    (hsecond : second.IsLexed) (hseparate : Separate first.kind second.kind) :
    TokenKind.ofWords? first.value (String.ofList (second.text.takeWhile isWordChar)) = none := by
  by_contra hsome
  obtain ⟨compound, hcompound⟩ := Option.ne_none_iff_exists'.mp hsome
  have hspelled : first.kind ∈ TokenKind.keywords → first.value = first.kind.spelling := by
    intro hkeyword
    apply hfirst.value_eq <;> rintro heq <;> rw [heq] at hkeyword <;> revert hkeyword <;> decide
  have hchars : ∀ c ∈ first.value.toList, isWordChar c = true := by
    rcases hkind with hname | hkeyword
    · exact (hfirst.isName hname).1.all_isWordChar
    · have hall : ∀ kind ∈ TokenKind.keywords, kind.spelling.toList.all isWordChar = true := by
        decide
      rw [hspelled hkeyword]
      exact List.all_eq_true.mp (hall _ hkeyword)
  rw [← @String.ofList_toList first.value] at hcompound
  obtain ⟨hmem, hbegin, hend⟩ := parts_of_ofWords?_eq_some hchars hcompound
  rw [String.toList_ofList] at hend
  by_cases hopen : first.kind = .identifier ∨ first.kind = .elseWord
  · obtain ⟨hname, hif⟩ := hseparate.2 hopen
    obtain ⟨c, hhead, hstart⟩ := head?_second_part hmem
    rw [← hend, List.head?_takeWhile, Option.filter_eq_some_iff] at hhead
    have hfound := hhead.1
    by_cases hnumber : second.kind = .number
    · obtain ⟨d, hd, hdigit⟩ := head?_text_of_number hsecond hnumber
      obtain rfl : d = c := Option.some.inj (hd.symm.trans hfound)
      rw [isDigit_of_isWordStart hstart] at hdigit
      contradiction
    by_cases hstring : second.kind = .string
    · rw [text, hstring] at hfound
      cases hfound
      revert hstart
      decide
    by_cases hline : second.kind = .newline
    · rw [text, hline] at hfound
      cases hfound
      revert hstart
      decide
    · rw [text_eq_value hstring hline, hsecond.value_eq hname hnumber hstring] at hend
      exact ne_second_part hif hmem hend
  · rw [not_or] at hopen
    have hkeyword := hkind.resolve_left hopen.1
    rw [hspelled hkeyword] at hbegin
    exact ne_first_part _ hkeyword hopen.2 _ hmem hbegin

end Word

end Bol
