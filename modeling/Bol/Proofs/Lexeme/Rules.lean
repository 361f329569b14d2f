/-
# The rules of the token grammar

`Lexeme.Selects lexeme text rest` states, rule by rule, which piece the token grammar selects
where a source goes on with `text ++ rest`: `text` is the piece and `lexeme` is what it stands
for. The rules speak of the characters of the source alone and do not mention how it is read.
Where readings begin alike, a rule says which one wins: a number and a word are the longest of
their kind, two words that form a keyword win over the first of them, and an operator of two
characters and a comment win over the operator they begin with.

`first_eq_ok_iff` says that `Lexeme.first` cuts off exactly the selected piece, and
`first_eq_error_iff` that it refuses exactly the texts for which no rule selects a piece.

Which words and signs the language has is said by the table of the spellings, `TokenKind.table`, and
every lookup in the rules is a lookup in this table.
-/

import Mathlib.Data.List.Nodup
import Mathlib.Data.List.TakeWhile
import Bol.Token.Lexeme

namespace Bol

/-! ## The table of words and signs -/

namespace TokenKind

/-- Operators of two characters. -/
def pairs : List TokenKind := [equal, notEqual, lessEqual, greaterEqual]

/-- Operators and brackets of one character, and the comma. -/
def symbols : List TokenKind :=
  [plus, minus, star, slash, assign, less, greater, leftParen, rightParen, leftBrace, rightBrace,
    comma]

/-- What is always written alike, and how it is written. -/
def table : List (String × TokenKind) :=
  [("bola saheb", programStart), ("yeto saheb", programEnd), ("he ghe", declare),
    ("he bol", print), ("nahitr jr", elseIf), ("pudhe ja", continueWords),
    ("jr", ifWord), ("nahitr", elseWord), ("joparyant", whileWord), ("thamb", breakWord),
    ("karya", functionWord), ("parat", returnWord), ("shunya", nullWord), ("barobr", trueWord),
    ("chuk", falseWord), ("ani", andWord), ("kinva", orWord), ("nahi", notWord),
    ("==", equal), ("!=", notEqual), ("<=", lessEqual), (">=", greaterEqual),
    ("+", plus), ("-", minus), ("*", star), ("/", slash), ("=", assign), ("<", less),
    (">", greater), ("(", leftParen), (")", rightParen), ("\x7b", leftBrace),
    ("\x7d", rightBrace), (",", comma)]

/-- The kinds that are always written alike. -/
def spelled : List TokenKind := compoundKeywords ++ keywords ++ pairs ++ symbols

variable {kinds : List TokenKind} {kind : TokenKind} {first second word text : String}
  {a b c : Char}

/-- Every kind stands in the table with its spelling. -/
theorem table_eq : table = spelled.map fun kind => (kind.spelling, kind) := rfl

/-- No two of the kinds are written alike. -/
theorem nodup_spellings : (spelled.map spelling).Nodup := by decide

theorem mem_table_iff : (text, kind) ∈ table ↔ kind ∈ spelled ∧ kind.spelling = text := by
  simp [table_eq]

/-- A search for a spelling among some of the kinds finds the one that the table has for it. -/
theorem find?_eq_some_iff (hkinds : kinds ⊆ spelled) :
    kinds.find? (·.spelling == text) = some kind ↔ kind ∈ kinds ∧ (text, kind) ∈ table := by
  rw [mem_table_iff]
  constructor
  · intro h
    have hmem := List.mem_of_find?_eq_some h
    have hbeq := List.find?_some h
    exact ⟨hmem, hkinds hmem, eq_of_beq hbeq⟩
  · rintro ⟨hmem, -, rfl⟩
    have hfound : (kinds.find? (·.spelling == kind.spelling)).isSome := by
      rw [List.find?_isSome]
      exact ⟨kind, hmem, beq_self_eq_true _⟩
    obtain ⟨found, hfind⟩ := Option.isSome_iff_exists.mp hfound
    have hbeq := List.find?_some hfind
    obtain rfl : found = kind := List.inj_on_of_nodup_map nodup_spellings
      (hkinds (List.mem_of_find?_eq_some hfind)) (hkinds hmem) (eq_of_beq hbeq)
    exact hfind

/-- Two words form the keyword that the table has for them. -/
theorem ofWords?_eq_some_iff : ofWords? first second = some kind ↔
    kind ∈ compoundKeywords ∧ (first ++ " " ++ second, kind) ∈ table :=
  find?_eq_some_iff (by decide)

/-- A word is the keyword that the table has for it, and a name if there is none. -/
theorem ofWord_eq_iff : ofWord word = kind ↔ kind ∈ keywords ∧ (word, kind) ∈ table ∨
    kind = .identifier ∧ ∀ keyword ∈ keywords, (word, keyword) ∉ table := by
  have hfind {keyword : TokenKind} := @find?_eq_some_iff keywords keyword word (by decide)
  unfold ofWord
  cases hfound : keywords.find? (·.spelling == word) with
  | none =>
      have hnone : ∀ keyword ∈ keywords, (word, keyword) ∉ table := by
        intro keyword hmem htable
        cases hfound.symm.trans (hfind.mpr ⟨hmem, htable⟩)
      constructor
      · rintro rfl
        exact .inr ⟨rfl, hnone⟩
      · rintro (⟨hmem, htable⟩ | ⟨rfl, -⟩)
        · exact absurd htable (hnone kind hmem)
        · rfl
  | some keyword =>
      obtain ⟨hmem, htable⟩ := hfind.mp hfound
      constructor
      · rintro rfl
        exact .inl ⟨hmem, htable⟩
      · rintro (hkind | ⟨-, hnone⟩)
        · exact Option.some.inj (hfound.symm.trans (hfind.mpr hkind))
        · exact absurd htable (hnone keyword hmem)

/-- Two signs are the operator that the table has for them. -/
theorem ofPair?_eq_some_iff :
    ofPair? a b = some kind ↔ kind ∈ pairs ∧ (String.ofList [a, b], kind) ∈ table := by
  constructor
  · intro h
    unfold ofPair? at h
    split at h <;> cases h <;> decide
  · rintro ⟨hmem, htable⟩
    have hlookup : ∀ kind ∈ pairs, (kind.spelling.toList.head?.bind fun a =>
        kind.spelling.toList.tail.head?.bind fun b => ofPair? a b) = some kind := by decide
    have hfound := hlookup kind hmem
    rwa [(mem_table_iff.mp htable).2, String.toList_ofList] at hfound

/-- A sign is what the table has for it. -/
theorem ofSymbol?_eq_some_iff :
    ofSymbol? c = some kind ↔ kind ∈ symbols ∧ (String.ofList [c], kind) ∈ table := by
  constructor
  · intro h
    unfold ofSymbol? at h
    split at h <;> cases h <;> decide
  · rintro ⟨hmem, htable⟩
    have hlookup : ∀ kind ∈ symbols, kind.spelling.toList.head?.bind ofSymbol? = some kind := by
      decide
    have hfound := hlookup kind hmem
    rwa [(mem_table_iff.mp htable).2, String.toList_ofList] at hfound

end TokenKind

end Bol

namespace Bol.Lexeme

/-- A letter or an underscore, and any number of letters, underscores and digits. -/
def IsWord (text : List Char) : Prop :=
  ∃ c more, text = c :: more ∧ isWordStart c = true ∧ ∀ d ∈ more, isWordChar d = true

/-- At least one digit, and nothing else. -/
def IsDigits (text : List Char) : Prop := text ≠ [] ∧ ∀ d ∈ text, d.isDigit = true

/-- Digits, and possibly a point with more digits after it. -/
def IsNumber (text : List Char) : Prop :=
  IsDigits text ∨
    ∃ whole fraction, text = whole ++ '.' :: fraction ∧ IsDigits whole ∧ IsDigits fraction

/-- Of all the texts of a shape that `text ++ rest` starts with, `text` is the longest. -/
def IsLongest (shape : List Char → Prop) (text rest : List Char) : Prop :=
  shape text ∧ ∀ other, other <+: text ++ rest → shape other → other.length ≤ text.length

/-- At least one blank or tab, and nothing else. -/
def IsGap (text : List Char) : Prop := text ≠ [] ∧ ∀ c ∈ text, c = ' ' ∨ c = '\t'

/-- Characters that may stand between the quotes of a string. -/
def IsBody (text : List Char) : Prop := '"' ∉ text ∧ '\n' ∉ text

/-- What a string stands for: a backslash before an `n` is a line end, all else is itself. -/
def decode : List Char → List Char
  | '\\' :: 'n' :: rest => '\n' :: decode rest
  | c :: rest => c :: decode rest
  | [] => []

/-- The rules of the token grammar: the piece `text` is selected where the source goes on with
`text ++ rest`, and it stands for the lexeme. -/
inductive Selects : Lexeme → (text rest : List Char) → Prop
  | lineEnd {rest} : Selects .lineEnd ['\n'] rest
  | blank {c rest} (hc : c = ' ' ∨ c = '\t' ∨ c = '\r') : Selects .silent [c] rest
  /-- A comment ends before the next line end, or with the text. -/
  | comment {body rest} (hbody : '\n' ∉ body) (hrest : ∀ c ∈ rest.head?, c = '\n') :
      Selects .silent ('-' :: '-' :: body) rest
  | string {body rest} (hbody : IsBody body) :
      Selects (.token .string (String.ofList (decode body))) ('"' :: (body ++ ['"'])) rest
  | number {text rest} (htext : IsLongest IsNumber text rest) :
      Selects (.token .number (String.ofList text)) text rest
  /-- Two words with blanks or tabs between them that form a keyword. -/
  | compound {first gap second rest kind} (hfirst : IsLongest IsWord first (gap ++ second ++ rest))
      (hgap : IsGap gap) (hsecond : IsLongest IsWord second rest)
      (hkind : TokenKind.ofWords? (String.ofList first) (String.ofList second) = some kind) :
      Selects (.token kind (String.ofList first ++ " " ++ String.ofList second))
        (first ++ gap ++ second) rest
  /-- A word that forms no keyword with the next word of its line. -/
  | word {text rest} (htext : IsLongest IsWord text rest)
      (halone : ∀ gap second after, rest = gap ++ second ++ after → IsGap gap →
        IsLongest IsWord second after →
        TokenKind.ofWords? (String.ofList text) (String.ofList second) = none) :
      Selects (.token (TokenKind.ofWord (String.ofList text)) (String.ofList text)) text rest
  | pair {a b rest kind} (hkind : TokenKind.ofPair? a b = some kind) :
      Selects (.token kind (String.ofList [a, b])) [a, b] rest
  /-- An operator, bracket or comma that begins no operator of two characters and no comment. -/
  | symbol {c rest kind} (hkind : TokenKind.ofSymbol? c = some kind)
      (hpair : ∀ d ∈ rest.head?, TokenKind.ofPair? c d = none)
      (hcomment : c = '-' → ∀ d ∈ rest.head?, d ≠ '-') :
      Selects (.token kind (String.ofList [c])) [c] rest

/-! ## The longest word and the longest number -/

variable {text rest other after : List Char}

/-- A source has one longest piece of a shape. -/
theorem IsLongest.unique {shape : List Char → Prop} (h : IsLongest shape text rest)
    (hother : IsLongest shape other after) (hsame : text ++ rest = other ++ after) :
    text = other ∧ rest = after := by
  have hle := hother.2 text (hsame ▸ List.prefix_append text rest) h.1
  have hge := h.2 other (hsame ▸ List.prefix_append other after) hother.1
  exact List.append_inj hsame (Nat.le_antisymm hle hge)

theorem length_le_takeWhile {p : Char → Bool} {source : List Char} (hbefore : text <+: source)
    (hall : ∀ c ∈ text, p c = true) : text.length ≤ (source.takeWhile p).length := by
  obtain ⟨more, rfl⟩ := hbefore
  rw [List.takeWhile_append_of_pos hall]
  simp

/-- A text of a shape is the longest one where a character follows that none of its texts has. -/
theorem isLongest_of_stop {shape : List Char → Prop} {p : Char → Bool}
    (hshape : ∀ text, shape text → ∀ c ∈ text, p c = true) (htext : shape text)
    (hrest : ∀ c ∈ rest.head?, p c = false) : IsLongest shape text rest := by
  refine ⟨htext, fun other hbefore hother => ?_⟩
  have hle := length_le_takeWhile hbefore (hshape other hother)
  rw [List.takeWhile_append_of_pos (hshape text htext)] at hle
  cases rest with
  | nil => simpa using hle
  | cons c rest => simpa [hrest c rfl] using hle

theorem IsWord.all_isWordChar (h : IsWord text) : ∀ c ∈ text, isWordChar c = true := by
  obtain ⟨c, more, rfl, hc, hmore⟩ := h
  intro d hd
  rcases List.mem_cons.1 hd with rfl | hd
  · exact isWordChar_of_isWordStart hc
  · exact hmore d hd

theorem IsDigits.notMem {c : Char} (h : IsDigits text) (hc : c.isDigit = false) : c ∉ text := by
  intro hmem
  rw [h.2 c hmem] at hc
  contradiction

theorem IsNumber.notMem {c : Char} (h : IsNumber text) (hc : c.isDigit = false) (hpoint : c ≠ '.') :
    c ∉ text := by
  rcases h with hdigits | ⟨whole, fraction, rfl, hwhole, hfraction⟩
  · exact hdigits.notMem hc
  · simp [hwhole.notMem hc, hfraction.notMem hc, hpoint]

theorem IsNumber.exists_cons (h : IsNumber text) :
    ∃ c more, text = c :: more ∧ c.isDigit = true := by
  rcases h with ⟨hne, hall⟩ | ⟨whole, fraction, rfl, ⟨hne, hall⟩, -⟩
  · obtain ⟨c, more, rfl⟩ := List.exists_cons_of_ne_nil hne
    exact ⟨c, more, rfl, hall c List.mem_cons_self⟩
  · obtain ⟨c, more, rfl⟩ := List.exists_cons_of_ne_nil hne
    exact ⟨c, more ++ '.' :: fraction, rfl, hall c List.mem_cons_self⟩

theorem isLongest_word {c : Char} (hc : isWordStart c = true) (rest : List Char) :
    IsLongest IsWord ((c :: rest).takeWhile isWordChar) ((c :: rest).dropWhile isWordChar) := by
  have hchar := isWordChar_of_isWordStart hc
  refine ⟨⟨c, rest.takeWhile isWordChar, List.takeWhile_cons_of_pos hchar, hc, fun d hd => ?_⟩,
    fun longer hbefore hword => ?_⟩
  · exact List.mem_takeWhile_imp hd
  · rw [List.takeWhile_append_dropWhile] at hbefore
    exact length_le_takeWhile hbefore hword.all_isWordChar

/-- The longest word is what the word characters at the front make up. -/
theorem IsLongest.word_eq (h : IsLongest IsWord text rest) :
    (text ++ rest).takeWhile isWordChar = text ∧ (text ++ rest).dropWhile isWordChar = rest := by
  obtain ⟨c, more, htext, hc, -⟩ := h.1
  have hlongest := isLongest_word hc (more ++ rest)
  rw [← List.cons_append, ← htext] at hlongest
  exact hlongest.unique h List.takeWhile_append_dropWhile

/-- A number that starts with all the digits at the front of a source is the digits, or has the
fraction after them. -/
theorem IsNumber.cases_of_prefix {source : List Char} (h : IsNumber text)
    (hbefore : text <+: source) :
    text.length ≤ (source.takeWhile Char.isDigit).length ∨
      ∃ fraction, IsDigits fraction ∧ text = source.takeWhile Char.isDigit ++ '.' :: fraction ∧
        '.' :: fraction <+: source.dropWhile Char.isDigit := by
  rcases h with hdigits | ⟨whole, fraction, rfl, hwhole, hfraction⟩
  · exact .inl (length_le_takeWhile hbefore hdigits.2)
  · obtain ⟨more, rfl⟩ := hbefore
    have hpoint : ('.' :: (fraction ++ more)).takeWhile Char.isDigit = [] := by simp
    have hafter :
        ('.' :: (fraction ++ more)).dropWhile Char.isDigit = '.' :: (fraction ++ more) := by simp
    refine .inr ⟨fraction, hfraction, ?_, ?_⟩
    · rw [List.append_assoc, List.cons_append, List.takeWhile_append_of_pos hwhole.2, hpoint,
        List.append_nil]
    · rw [List.append_assoc, List.cons_append, List.dropWhile_append_of_pos hwhole.2, hafter]
      exact ⟨more, by simp⟩

theorem isDigits_takeWhile {c : Char} (hc : c.isDigit = true) (rest : List Char) :
    IsDigits ((c :: rest).takeWhile Char.isDigit) := by
  refine ⟨by simp [hc], fun d hd => List.mem_takeWhile_imp hd⟩

theorem number_append (source : List Char) : (number source).1 ++ (number source).2 = source := by
  have hsplit := List.takeWhile_append_dropWhile (p := Char.isDigit) (l := source)
  unfold number
  split
  · rename_i d more hdrop
    rw [hdrop] at hsplit
    split
    · simpa using hsplit
    · exact hsplit
  · exact hsplit

theorem isLongest_number {c : Char} (hc : c.isDigit = true) (rest : List Char) :
    IsLongest IsNumber (number (c :: rest)).1 (number (c :: rest)).2 := by
  have hwhole := isDigits_takeWhile hc rest
  rw [IsLongest, number_append]
  unfold number
  split
  · rename_i d more hdrop
    split
    · rename_i hd
      refine ⟨.inr ⟨_, _, rfl, hwhole, isDigits_takeWhile hd more⟩, fun other hbefore hother => ?_⟩
      rcases hother.cases_of_prefix hbefore with hle | ⟨fraction, hfraction, rfl, hpoint⟩
      · simp only [List.length_append]
        omega
      · rw [hdrop, List.cons_prefix_cons] at hpoint
        have hle := length_le_takeWhile hpoint.2 hfraction.2
        simp only [List.length_append, List.length_cons]
        omega
    · rename_i hd
      refine ⟨.inl hwhole, fun other hbefore hother => ?_⟩
      rcases hother.cases_of_prefix hbefore with hle | ⟨fraction, ⟨hne, hall⟩, rfl, hpoint⟩
      · exact hle
      · rw [hdrop, List.cons_prefix_cons] at hpoint
        cases fraction with
        | nil => exact absurd rfl hne
        | cons e fraction =>
            rw [List.cons_prefix_cons] at hpoint
            exact absurd (hpoint.2.1 ▸ hall e List.mem_cons_self) hd
  · rename_i hdrop
    refine ⟨.inl hwhole, fun other hbefore hother => ?_⟩
    rcases hother.cases_of_prefix hbefore with hle | ⟨fraction, ⟨hne, hall⟩, rfl, ⟨more, hpoint⟩⟩
    · exact hle
    · cases fraction with
      | nil => exact absurd rfl hne
      | cons e fraction => exact absurd hpoint.symm (hdrop e (fraction ++ more))

/-- The longest number is the one that `number` cuts off. -/
theorem IsLongest.number_eq (h : IsLongest IsNumber text rest) :
    number (text ++ rest) = (text, rest) := by
  obtain ⟨c, more, rfl, hc⟩ := h.1.exists_cons
  have hsame := (isLongest_number hc (more ++ rest)).unique h (number_append _)
  exact Prod.ext hsame.1 hsame.2

/-! ## The words of a keyword -/

theorem isWordGap_eq_true_iff {c : Char} : isWordGap c = true ↔ c = ' ' ∨ c = '\t' := by
  simp [isWordGap]

/-- Two words that form a keyword are the parts of its spelling before and after the blank. -/
theorem parts_of_ofWords?_eq_some {second : String} {kind : TokenKind}
    (htext : ∀ c ∈ text, isWordChar c = true)
    (h : TokenKind.ofWords? (String.ofList text) second = some kind) :
    kind ∈ TokenKind.compoundKeywords ∧ text = kind.spelling.toList.takeWhile (· != ' ') ∧
      second.toList = (kind.spelling.toList.dropWhile (· != ' ')).tail := by
  obtain ⟨hmem, htable⟩ := TokenKind.ofWords?_eq_some_iff.mp h
  have hspelling : kind.spelling.toList = text ++ ' ' :: second.toList := by
    rw [(TokenKind.mem_table_iff.mp htable).2]
    simp
  have hblank : ∀ c ∈ text, (c != ' ') = true := by
    intro c hc
    have hword := htext c hc
    by_contra hne
    rw [show c = ' ' by simpa using hne] at hword
    exact absurd hword (by decide)
  refine ⟨hmem, ?_, ?_⟩
  · rw [hspelling, List.takeWhile_append_of_pos hblank]
    simp
  · rw [hspelling, List.dropWhile_append_of_pos hblank]
    simp

/-- The second part of a two-word keyword is a word. -/
theorem isWordStart_of_ofWords?_eq_some {second : String} {kind : TokenKind}
    (htext : ∀ c ∈ text, isWordChar c = true)
    (h : TokenKind.ofWords? (String.ofList text) second = some kind) :
    ∃ c more, second.toList = c :: more ∧ isWordStart c = true := by
  obtain ⟨hmem, -, hsecond⟩ := parts_of_ofWords?_eq_some htext h
  rw [hsecond]
  simp only [TokenKind.compoundKeywords, List.mem_cons, List.not_mem_nil, or_false] at hmem
  rcases hmem with rfl | rfl | rfl | rfl | rfl | rfl <;> exact ⟨_, _, rfl, by decide⟩

theorem head_not_isWordChar (h : IsLongest IsWord text rest) :
    ∀ c ∈ rest.head?, isWordChar c = false := by
  have hdrop := List.head?_dropWhile_not isWordChar (text ++ rest)
  rw [h.word_eq.2] at hdrop
  intro c hc
  rw [Option.mem_def.1 hc] at hdrop
  exact hdrop

/-- Between a word and the next one of its line there is a gap. -/
theorem dropWhile_isWordGap {gap second : List Char} (hgap : IsGap gap)
    (hsecond : IsLongest IsWord second after) :
    (gap ++ second ++ after).dropWhile isWordGap = second ++ after := by
  obtain ⟨c, more, rfl, hc, -⟩ := hsecond.1
  have hstop : isWordGap c = false := by
    by_contra hblank
    rcases isWordGap_eq_true_iff.1 (by simpa using hblank) with rfl | rfl <;>
      exact absurd hc (by decide)
  rw [List.append_assoc,
    List.dropWhile_append_of_pos fun d hd => isWordGap_eq_true_iff.2 (hgap.2 d hd)]
  simp [hstop]

/-- If a word and what stands next on its line form a keyword, the next thing is a word, too. -/
theorem exists_gap_of_ofWords?_eq_some {kind : TokenKind} (h : IsLongest IsWord text rest)
    (hkind : TokenKind.ofWords? (String.ofList text)
      (String.ofList ((rest.dropWhile isWordGap).takeWhile isWordChar)) = some kind) :
    IsGap (rest.takeWhile isWordGap) ∧
      IsLongest IsWord ((rest.dropWhile isWordGap).takeWhile isWordChar)
        ((rest.dropWhile isWordGap).dropWhile isWordChar) := by
  obtain ⟨c, more, hsecond, hc⟩ := isWordStart_of_ofWords?_eq_some h.1.all_isWordChar hkind
  rw [String.toList_ofList] at hsecond
  obtain ⟨ahead, hahead⟩ : ∃ ahead, rest.dropWhile isWordGap = c :: ahead := by
    cases hdrop : rest.dropWhile isWordGap with
    | nil => simp [hdrop] at hsecond
    | cons d ahead =>
        have htake := List.takeWhile_prefix (l := d :: ahead) isWordChar
        rw [← hdrop, hsecond, hdrop, List.cons_prefix_cons] at htake
        exact ⟨ahead, by rw [htake.1]⟩
  refine ⟨⟨fun hnone => ?_, fun d hd => isWordGap_eq_true_iff.1 (List.mem_takeWhile_imp hd)⟩, ?_⟩
  · -- without a gap the next word would belong to the first one
    have hsplit := List.takeWhile_append_dropWhile (p := isWordGap) (l := rest)
    rw [hnone, hahead, List.nil_append] at hsplit
    have hhead := head_not_isWordChar h c (by simp [← hsplit])
    rw [isWordChar_of_isWordStart hc] at hhead
    exact absurd hhead (by decide)
  · rw [hahead]
    exact isLongest_word hc ahead

/-- Reading a word looks at the next thing on its line. -/
theorem word_append (h : IsLongest IsWord text rest) :
    word (text ++ rest) =
      match TokenKind.ofWords? (String.ofList text)
          (String.ofList ((rest.dropWhile isWordGap).takeWhile isWordChar)) with
      | some kind =>
        (.token kind (String.ofList text ++ " " ++
            String.ofList ((rest.dropWhile isWordGap).takeWhile isWordChar)),
          (rest.dropWhile isWordGap).dropWhile isWordChar)
      | none => (.token (TokenKind.ofWord (String.ofList text)) (String.ofList text), rest) := by
  obtain ⟨htake, hdrop⟩ := h.word_eq
  cases hkind : TokenKind.ofWords? (String.ofList text)
      (String.ofList ((rest.dropWhile isWordGap).takeWhile isWordChar)) with
  | some kind => simp only [word, htake, hdrop, hkind]
  | none => simp only [word, htake, hdrop, hkind]

/-! ## Strings -/

theorem string_append {body : List Char} (hbody : IsBody body) (content rest : List Char) :
    string content (body ++ '"' :: rest) = .ok (content.reverse ++ decode body, rest) := by
  obtain ⟨hquote, hline⟩ := hbody
  fun_induction decode body generalizing content with
  | case1 body ih =>
      simp only [List.mem_cons, not_or] at hquote hline
      rw [List.cons_append, List.cons_append, string, ih _ hquote.2.2 hline.2.2]
      simp
  | case2 c body hescape ih =>
      simp only [List.mem_cons, not_or] at hquote hline
      rw [List.cons_append, string, ih _ hquote.2 hline.2]
      · simp
      · exact fun heq => hquote.1 heq.symm
      · exact fun heq => hline.1 heq.symm
      · intro more hc hmore
        cases body with
        | nil => simp at hmore
        | cons d body => exact hescape body hc (by simp_all)
  | case3 => simp [string]

theorem isBody_cons {c : Char} {body : List Char} (hquote : c ≠ '"') (hline : c ≠ '\n')
    (hbody : IsBody body) : IsBody (c :: body) :=
  ⟨by simp [hquote.symm, hbody.1], by simp [hline.symm, hbody.2]⟩

/-- What reading a string finds: its end, a line end before it, or neither. -/
theorem string_cases (content source : List Char) :
    (∃ body rest, source = body ++ '"' :: rest ∧ IsBody body) ∨
      (string content source = .error .brokenString ∧
        ∃ body rest, source = body ++ '\n' :: rest ∧ IsBody body) ∨
      (string content source = .error .openString ∧ IsBody source) := by
  fun_induction string content source with
  | case1 => exact .inr (.inr ⟨rfl, by simp [IsBody]⟩)
  | case2 content rest => exact .inl ⟨[], rest, rfl, by simp [IsBody]⟩
  | case3 content rest => exact .inr (.inl ⟨rfl, [], rest, rfl, by simp [IsBody]⟩)
  | case4 content source ih =>
      have hcons : ∀ {body}, IsBody body → IsBody ('\\' :: 'n' :: body) := fun hbody =>
        isBody_cons (by decide) (by decide) (isBody_cons (by decide) (by decide) hbody)
      rcases ih with ⟨body, rest, rfl, hbody⟩ | ⟨herror, body, rest, rfl, hbody⟩ | ⟨herror, hbody⟩
      · exact .inl ⟨'\\' :: 'n' :: body, rest, rfl, hcons hbody⟩
      · exact .inr (.inl ⟨herror, '\\' :: 'n' :: body, rest, rfl, hcons hbody⟩)
      · exact .inr (.inr ⟨herror, hcons hbody⟩)
  | case5 content c source hquote hline _ ih =>
      rcases ih with ⟨body, rest, rfl, hbody⟩ | ⟨herror, body, rest, rfl, hbody⟩ | ⟨herror, hbody⟩
      · exact .inl ⟨c :: body, rest, rfl, isBody_cons hquote hline hbody⟩
      · exact .inr (.inl ⟨herror, c :: body, rest, rfl, isBody_cons hquote hline hbody⟩)
      · exact .inr (.inr ⟨herror, isBody_cons hquote hline hbody⟩)

/-! ## Operators, brackets and the comma -/

/-- Characters that begin no line end, blank, string, number or word. -/
def IsSymbolic (c : Char) : Prop :=
  c ≠ '\n' ∧ isBlank c = false ∧ c ≠ '"' ∧ c.isDigit = false ∧ isWordStart c = false

instance (c : Char) : Decidable (IsSymbolic c) := inferInstanceAs (Decidable (_ ∧ _))

theorem ofPair?_eq_some {a b : Char} {kind : TokenKind} (h : TokenKind.ofPair? a b = some kind) :
    String.ofList [a, b] = kind.spelling ∧ IsSymbolic a ∧ a ≠ '-' ∧ b ≠ '\n' := by
  unfold TokenKind.ofPair? at h
  split at h <;> cases h <;> exact ⟨rfl, by decide⟩

theorem ofSymbol?_eq_some {c : Char} {kind : TokenKind} (h : TokenKind.ofSymbol? c = some kind) :
    String.ofList [c] = kind.spelling ∧ IsSymbolic c := by
  unfold TokenKind.ofSymbol? at h
  split at h <;> cases h <;> exact ⟨rfl, by decide⟩

theorem symbol_of_pair {a b : Char} {kind : TokenKind} (h : TokenKind.ofPair? a b = some kind)
    (rest : List Char) :
    symbol a (b :: rest) = .ok (.token kind (String.ofList [a, b]), rest) := by
  simp [symbol, h, (ofPair?_eq_some h).1]

theorem symbol_of_single {c : Char} {kind : TokenKind} (h : TokenKind.ofSymbol? c = some kind)
    (hpair : ∀ d ∈ rest.head?, TokenKind.ofPair? c d = none) :
    symbol c rest = .ok (.token kind (String.ofList [c]), rest) := by
  have hnone : rest.head?.bind (TokenKind.ofPair? c) = none := by
    cases hhead : rest.head? with
    | none => rfl
    | some d => exact hpair d hhead
  simp [symbol, hnone, h, (ofSymbol?_eq_some h).1]

/-! ## The first piece is the selected one -/

/-- Word characters begin no line end, blank, comment or string. -/
theorem plain_of_isWordChar {c : Char} (hc : isWordChar c = true) :
    c ≠ '\n' ∧ isBlank c = false ∧ c ≠ '-' ∧ c ≠ '"' := by
  refine ⟨?_, ?_, ?_, ?_⟩
  · rintro rfl; exact absurd hc (by decide)
  · by_contra hblank
    simp only [isBlank, Bool.not_eq_false, Bool.or_eq_true, beq_iff_eq] at hblank
    rcases hblank with (rfl | rfl) | rfl <;> exact absurd hc (by decide)
  · rintro rfl; exact absurd hc (by decide)
  · rintro rfl; exact absurd hc (by decide)

theorem isWordChar_of_isDigit {c : Char} (hc : c.isDigit = true) : isWordChar c = true := by
  simp [isWordChar, Char.isAlphanum, hc]

/-- No digit starts a word. -/
theorem isDigit_of_isWordStart {c : Char} (hc : isWordStart c = true) : c.isDigit = false := by
  by_contra hdigit
  have hle : c.toNat ≤ 57 := by
    simp only [Bool.not_eq_false, Char.isDigit, Bool.and_eq_true, decide_eq_true_eq,
      UInt32.le_iff_toNat_le] at hdigit
    exact hdigit.2
  have hge : 65 ≤ c.toNat := by
    have hletter : c.isAlpha =
        (decide (65 ≤ c.val ∧ c.val ≤ 90) ||
          decide (97 ≤ c.val) && decide (c.val ≤ 122)) := rfl
    simp only [isWordStart, hletter, Bool.or_eq_true, Bool.and_eq_true, decide_eq_true_eq,
      UInt32.le_iff_toNat_le, beq_iff_eq] at hc
    rcases hc with (hc | hc) | rfl
    · exact hc.1
    · exact Nat.le_trans (by decide) hc.1
    · decide
  omega

theorem first_digit {c : Char} (hc : c.isDigit = true) (rest : List Char) :
    first c rest =
      .ok (.token .number (String.ofList (number (c :: rest)).1), (number (c :: rest)).2) := by
  simp [first, plain_of_isWordChar (isWordChar_of_isDigit hc), hc]

theorem first_wordStart {c : Char} (hc : isWordStart c = true) (rest : List Char) :
    first c rest = .ok (word (c :: rest)) := by
  simp [first, plain_of_isWordChar (isWordChar_of_isWordStart hc), hc, isDigit_of_isWordStart hc]

theorem first_symbol {c : Char} (hc : IsSymbolic c)
    (hcomment : c = '-' → ∀ d ∈ rest.head?, d ≠ '-') : first c rest = symbol c rest := by
  have hdash : ¬ (c = '-' ∧ rest.head? = some '-') := fun h => hcomment h.1 '-' h.2 rfl
  simp [first, hc.1, hc.2, hdash]

/-- A selected piece is the one that is cut off. -/
theorem Selects.first_eq {lexeme : Lexeme} (h : Selects lexeme text rest) :
    ∃ c more, text ++ rest = c :: more ∧ first c more = .ok (lexeme, rest) := by
  cases h with
  | lineEnd => exact ⟨'\n', rest, rfl, by simp [first]⟩
  | @blank c _ hc =>
      refine ⟨c, rest, rfl, ?_⟩
      rcases hc with rfl | rfl | rfl <;> simp [first, isBlank]
  | @comment body _ hbody hrest =>
      refine ⟨'-', '-' :: (body ++ rest), rfl, ?_⟩
      have hall : ∀ c ∈ '-' :: body, (c != '\n') = true := by
        intro c hc
        rcases List.mem_cons.1 hc with rfl | hc
        · decide
        · simpa using fun heq : c = '\n' => hbody (heq ▸ hc)
      have hstop : rest.dropWhile (· != '\n') = rest := by
        cases rest with
        | nil => rfl
        | cons c more => simp [hrest c rfl]
      rw [← List.cons_append, first]
      simp only [isBlank, List.dropWhile_append_of_pos hall, hstop]
      rfl
  | @string body _ hbody =>
      refine ⟨'"', body ++ '"' :: rest, by simp, ?_⟩
      simp [first, isBlank, string_append hbody]
  | @number _ _ htext =>
      obtain ⟨c, more, hsource, hc⟩ : ∃ c more, text ++ rest = c :: more ∧ c.isDigit = true := by
        rcases htext.1 with ⟨hne, hall⟩ | ⟨whole, fraction, rfl, ⟨hne, hall⟩, -⟩ <;>
          obtain ⟨c, more, rfl⟩ := List.exists_cons_of_ne_nil hne <;>
          exact ⟨c, _, rfl, hall c List.mem_cons_self⟩
      refine ⟨c, more, hsource, ?_⟩
      rw [first_digit hc, ← hsource, htext.number_eq]
  | @compound head gap tail _ kind hfirst hgap hsecond hkind =>
      obtain ⟨c, more, hhead, hc, -⟩ := hfirst.1
      refine ⟨c, more ++ (gap ++ tail ++ rest), by simp [hhead], ?_⟩
      rw [first_wordStart hc, ← List.cons_append, ← hhead, word_append hfirst,
        dropWhile_isWordGap hgap hsecond, hsecond.word_eq.1, hsecond.word_eq.2, hkind]
  | @word _ _ htext halone =>
      obtain ⟨c, more, hhead, hc, -⟩ := htext.1
      refine ⟨c, more ++ rest, by simp [hhead], ?_⟩
      rw [first_wordStart hc, ← List.cons_append, ← hhead, word_append htext]
      cases hkind : TokenKind.ofWords? (String.ofList text)
          (String.ofList ((rest.dropWhile isWordGap).takeWhile isWordChar)) with
      | none => rfl
      | some kind =>
          obtain ⟨hgap, hsecond⟩ := exists_gap_of_ofWords?_eq_some htext hkind
          have hnone := halone _ _ _ (by
            rw [List.append_assoc, List.takeWhile_append_dropWhile,
              List.takeWhile_append_dropWhile]) hgap hsecond
          rw [hkind] at hnone
          cases hnone
  | @pair a b _ kind hkind =>
      obtain ⟨-, hsymbolic, hdash, -⟩ := ofPair?_eq_some hkind
      refine ⟨a, b :: rest, rfl, ?_⟩
      rw [first_symbol hsymbolic fun heq => absurd heq hdash, symbol_of_pair hkind]
  | @symbol c _ kind hkind hpair hcomment =>
      refine ⟨c, rest, rfl, ?_⟩
      rw [first_symbol (ofSymbol?_eq_some hkind).2 hcomment, symbol_of_single hkind hpair]

/-- What is cut off at a word start is selected. -/
theorem selects_word {c : Char} (hc : isWordStart c = true) (more : List Char) :
    ∃ text, c :: more = text ++ (word (c :: more)).2 ∧
      Selects (word (c :: more)).1 text (word (c :: more)).2 := by
  have hlongest := isLongest_word hc more
  have hsource := List.takeWhile_append_dropWhile (p := isWordChar) (l := c :: more)
  rw [← hsource]
  revert hlongest
  generalize (c :: more).takeWhile isWordChar = text
  generalize (c :: more).dropWhile isWordChar = rest
  intro hlongest
  rw [word_append hlongest]
  have hgap := List.takeWhile_append_dropWhile (p := isWordGap) (l := rest)
  have hsecond := List.takeWhile_append_dropWhile (p := isWordChar) (l := rest.dropWhile isWordGap)
  split
  · rename_i kind hkind
    obtain ⟨hIsGap, hIsWord⟩ := exists_gap_of_ofWords?_eq_some hlongest hkind
    have hrest : rest = rest.takeWhile isWordGap ++
        (rest.dropWhile isWordGap).takeWhile isWordChar ++
        (rest.dropWhile isWordGap).dropWhile isWordChar := by
      rw [List.append_assoc, hsecond, hgap]
    refine ⟨_, ?_, .compound (hrest ▸ hlongest) hIsGap hIsWord hkind⟩
    rw [List.append_assoc, List.append_assoc, hsecond, hgap]
  · rename_i hnone
    refine ⟨text, rfl, .word hlongest fun gap second after hrest hIsGap hIsWord => ?_⟩
    rw [show rest = gap ++ second ++ after from hrest, dropWhile_isWordGap hIsGap hIsWord,
      hIsWord.word_eq.1] at hnone
    exact hnone

theorem selects_of_symbol {c : Char} {more : List Char} {lexeme : Lexeme}
    (hcomment : ¬ (c = '-' ∧ more.head? = some '-'))
    (h : symbol c more = .ok (lexeme, rest)) :
    ∃ text, c :: more = text ++ rest ∧ Selects lexeme text rest := by
  unfold symbol at h
  split at h
  · rename_i kind hpair
    cases h
    cases more with
    | nil => simp at hpair
    | cons d rest =>
        rw [List.head?_cons, Option.bind_some] at hpair
        rw [← (ofPair?_eq_some hpair).1]
        exact ⟨[c, d], rfl, .pair hpair⟩
  · rename_i hpair
    split at h
    · rename_i kind hsingle
      cases h
      rw [← (ofSymbol?_eq_some hsingle).1]
      refine ⟨[c], rfl, .symbol hsingle (fun d hd => ?_) fun hc d hd heq => ?_⟩
      · rw [Option.mem_def.1 hd] at hpair
        exact hpair
      · exact hcomment ⟨hc, heq ▸ hd⟩
    · cases h

/-- The piece that is cut off is selected. -/
theorem selects_of_first {c : Char} {more : List Char} {lexeme : Lexeme}
    (h : first c more = .ok (lexeme, rest)) :
    ∃ text, c :: more = text ++ rest ∧ Selects lexeme text rest := by
  unfold first at h
  split at h
  · rename_i hc
    cases h
    exact ⟨[c], rfl, hc ▸ .lineEnd⟩
  split at h
  · rename_i hblank
    cases h
    simp only [isBlank, Bool.or_eq_true, beq_iff_eq, or_assoc] at hblank
    exact ⟨[c], rfl, .blank hblank⟩
  split at h
  · rename_i hdash
    cases h
    obtain ⟨rfl, hdash⟩ := hdash
    obtain ⟨body, rfl⟩ := List.head?_eq_some_iff.1 hdash
    refine ⟨'-' :: '-' :: body.takeWhile (· != '\n'), ?_, .comment (fun hmem => ?_) fun d hd => ?_⟩
    · simp
    · simpa using List.mem_takeWhile_imp hmem
    · have hstop := List.head?_dropWhile_not (· != '\n') ('-' :: body)
      rw [Option.mem_def.1 hd] at hstop
      simpa using hstop
  split at h
  · rename_i hc
    subst hc
    rcases string_cases [] more with ⟨body, after, rfl, hbody⟩ | ⟨herror, -⟩ | ⟨herror, -⟩
    · rw [string_append hbody] at h
      cases h
      exact ⟨'"' :: (body ++ ['"']), by simp, .string hbody⟩
    · rw [herror] at h
      cases h
    · rw [herror] at h
      cases h
  split at h
  · rename_i hdigit
    cases h
    exact ⟨_, (number_append _).symm, .number (isLongest_number hdigit more)⟩
  split at h
  · rename_i hstart
    have hselects := selects_word hstart more
    rw [Except.ok.inj h] at hselects
    exact hselects
  · rename_i hcomment _ _ _
    exact selects_of_symbol hcomment h

/-- `first` cuts off exactly the piece that the rules select. -/
theorem first_eq_ok_iff {c : Char} {more : List Char} {lexeme : Lexeme} :
    first c more = .ok (lexeme, rest) ↔
      ∃ text, c :: more = text ++ rest ∧ Selects lexeme text rest := by
  refine ⟨selects_of_first, ?_⟩
  rintro ⟨text, hsource, hselects⟩
  obtain ⟨d, source, hsame, hfirst⟩ := hselects.first_eq
  rw [← hsource] at hsame
  cases hsame
  exact hfirst

/-- Line ends hold the only line end characters. -/
theorem Selects.count_lineEnd {lexeme : Lexeme} (h : Selects lexeme text rest) :
    text.count '\n' = if lexeme = .lineEnd then 1 else 0 := by
  have hword : ∀ {word after}, IsLongest IsWord word after → '\n' ∉ word := fun hword hmem =>
    absurd (hword.1.all_isWordChar _ hmem) (by decide)
  have hdigits : ∀ {digits}, IsDigits digits → '\n' ∉ digits := fun hdigits hmem =>
    absurd (hdigits.2 _ hmem) (by decide)
  cases h with
  | lineEnd => rfl
  | blank hc => rcases hc with rfl | rfl | rfl <;> rfl
  | comment hbody => simp [List.count_eq_zero.2 hbody]
  | string hbody => simp [List.count_eq_zero.2 hbody.2]
  | number htext =>
      rcases htext.1 with hall | ⟨whole, fraction, rfl, hwhole, hfraction⟩
      · simp [List.count_eq_zero.2 (hdigits hall)]
      · simp [List.count_eq_zero.2 (hdigits hwhole), List.count_eq_zero.2 (hdigits hfraction)]
  | compound hfirst hgap hsecond =>
      have hline : '\n' ∉ _ := fun hmem => absurd (hgap.2 _ hmem) (by decide)
      simp [List.count_eq_zero.2 (hword hfirst), List.count_eq_zero.2 (hword hsecond),
        List.count_eq_zero.2 hline]
  | word htext => simp [List.count_eq_zero.2 (hword htext)]
  | pair hkind =>
      obtain ⟨-, hsymbolic, -, hb⟩ := ofPair?_eq_some hkind
      simp [hsymbolic.1, hb]
  | symbol hkind => simp [(ofSymbol?_eq_some hkind).2.1]

/-! ## Where no rule selects a piece -/

/-- What a text is blamed for: its line ends in a string, it ends in a string itself, or it starts
with a character that opens no string. -/
def Blames : LexFault → (source : List Char) → Prop
  | .brokenString, source => ∃ body rest, source = '"' :: (body ++ '\n' :: rest) ∧ IsBody body
  | .openString, source => ∃ body, source = '"' :: body ∧ IsBody body
  | .strayChar c, source => c ≠ '"' ∧ source.head? = some c

/-- No rule selects a piece where the source goes on with `source`, which is to blame for it. -/
structure IsStuck (fault : LexFault) (source : List Char) : Prop where
  none : ∀ lexeme text rest, source = text ++ rest → ¬ Selects lexeme text rest
  blames : Blames fault source

theorem IsStuck.exists_cons {fault : LexFault} {source : List Char} (h : IsStuck fault source) :
    ∃ c more, source = c :: more := by
  refine List.exists_cons_of_ne_nil ?_
  rintro rfl
  cases fault <;> simpa [Blames] using h.blames

theorem Blames.unique {fault fault' : LexFault} {c : Char} {more : List Char}
    (h : Blames fault (c :: more)) (h' : Blames fault' (c :: more)) : fault = fault' := by
  have hexclusive : ¬ (Blames .brokenString (c :: more) ∧ Blames .openString (c :: more)) := by
    rintro ⟨⟨body, rest, hbroken, -⟩, ⟨whole, hopen, -, hline⟩⟩
    rw [List.cons.inj hbroken |>.2] at hopen
    rw [← (List.cons.inj hopen).2] at hline
    simp at hline
  have hquote {fault : LexFault} (h : Blames fault (c :: more))
      (hstray : ∀ d, fault ≠ .strayChar d) : c = '"' := by
    cases fault with
    | brokenString =>
        obtain ⟨_, _, heq, -⟩ := h
        exact (List.cons.inj heq).1
    | openString =>
        obtain ⟨_, heq, -⟩ := h
        exact (List.cons.inj heq).1
    | strayChar d => exact absurd rfl (hstray d)
  have hstray {d : Char} (h : Blames (.strayChar d) (c :: more)) : c = d ∧ c ≠ '"' := by
    obtain ⟨hne, hhead⟩ := h
    obtain rfl : c = d := Option.some.inj hhead
    exact ⟨rfl, hne⟩
  cases fault with
  | brokenString =>
      cases fault' with
      | brokenString => rfl
      | openString => exact absurd ⟨h, h'⟩ hexclusive
      | strayChar d => exact absurd (hquote h (by simp)) (hstray h').2
  | openString =>
      cases fault' with
      | brokenString => exact absurd ⟨h', h⟩ hexclusive
      | openString => rfl
      | strayChar d => exact absurd (hquote h (by simp)) (hstray h').2
  | strayChar d =>
      cases fault' with
      | brokenString | openString => exact absurd (hquote h' (by simp)) (hstray h).2
      | strayChar d' => rw [← (hstray h).1, ← (hstray h').1]

/-- No piece can be cut off at a string that does not end, and at a character that begins none. -/
theorem cases_of_first_eq_error {c : Char} {source : List Char} {fault : LexFault}
    (h : first c source = .error fault) :
    c = '"' ∧ string [] source = .error fault ∨
      IsSymbolic c ∧ (c = '-' → ∀ d ∈ source.head?, d ≠ '-') ∧ symbol c source = .error fault := by
  unfold first at h
  split at h
  · cases h
  rename_i hline
  split at h
  · cases h
  rename_i hblank
  split at h
  · cases h
  rename_i hcomment
  split at h
  · rename_i hquote
    split at h
    · cases h
    · rename_i herror
      cases h
      exact .inl ⟨hquote, herror⟩
  rename_i hquote
  split at h
  · cases h
  rename_i hdigit
  split at h
  · cases h
  rename_i hword
  refine .inr ⟨⟨hline, by simpa using hblank, hquote, by simpa using hdigit,
    by simpa using hword⟩, ?_, h⟩
  rintro rfl d hd rfl
  exact hcomment ⟨rfl, hd⟩

theorem blames_of_first {c : Char} {more : List Char} {fault : LexFault}
    (h : first c more = .error fault) : Blames fault (c :: more) := by
  obtain ⟨rfl, hstring⟩ | ⟨hsymbolic, -, hsymbol⟩ := cases_of_first_eq_error h
  · rcases string_cases [] more with
      ⟨body, after, rfl, hbody⟩ | ⟨herror, body, after, rfl, hbody⟩ | ⟨herror, hbody⟩
    · rw [string_append hbody] at hstring
      cases hstring
    · cases herror.symm.trans hstring
      exact ⟨body, after, rfl, hbody⟩
    · cases herror.symm.trans hstring
      exact ⟨more, rfl, hbody⟩
  · unfold symbol at hsymbol
    split at hsymbol
    · cases hsymbol
    · split at hsymbol <;> cases hsymbol
      exact ⟨hsymbolic.2.2.1, rfl⟩

/-- `first` refuses exactly the texts that no rule selects a piece of. -/
theorem first_eq_error_iff {c : Char} {more : List Char} {fault : LexFault} :
    first c more = .error fault ↔ IsStuck fault (c :: more) := by
  constructor
  · intro h
    refine ⟨fun lexeme text rest hsource hselects => ?_, blames_of_first h⟩
    have hok := first_eq_ok_iff.2 ⟨text, hsource, hselects⟩
    rw [h] at hok
    cases hok
  · intro hstuck
    cases hfirst : first c more with
    | ok cut =>
        obtain ⟨text, hsource, hselects⟩ := selects_of_first hfirst
        exact absurd hselects (hstuck.none _ text _ hsource)
    | error other => rw [(blames_of_first hfirst).unique hstuck.blames]

end Bol.Lexeme
