/-
# Scanning rendered words

Scanning a source that is written word by word gives back its words, if every word is one that a
source can have, no line is empty, and no name stands before a word that could make a keyword of
both. Since a blank or a line end follows every word, no word is read on into the next one.
Conversely, scanning any source gives words that a source can have.
-/

import Mathlib.Data.List.Chain
import Bol.Proofs.Source.Words

namespace Bol

namespace Word

open Lexeme

variable {word first second : Word}

/-! ## Selecting a word -/

/-- What may stand after a word: nothing, a line end or a blank. -/
def IsBreak (after : List Char) : Prop :=
  ∀ c ∈ after.head?, c = ' ' ∨ c = '\t' ∨ c = '\r' ∨ c = '\n'

theorem IsBreak.not_isWordChar {after : List Char} (h : IsBreak after) :
    ∀ c ∈ after.head?, isWordChar c = false := by
  intro c hc
  rcases h c hc with rfl | rfl | rfl | rfl <;> decide

theorem selects_number {text after : List Char} (htext : IsNumber text) (hafter : IsBreak after) :
    Selects (.token .number (String.ofList text)) text after := by
  refine .number (isLongest_of_stop (p := fun c => c.isDigit || c == '.') ?_ htext ?_)
  · rintro text (⟨-, hall⟩ | ⟨whole, fraction, rfl, ⟨-, hwhole⟩, -, hfraction⟩) c hc
    · simp [hall c hc]
    · rcases List.mem_append.mp hc with hc | hc
      · simp [hwhole c hc]
      · rcases List.mem_cons.mp hc with rfl | hc
        · rfl
        · simp [hfraction c hc]
  · intro c hc
    rcases hafter c hc with rfl | rfl | rfl | rfl <;> decide

theorem isLongest_word_of_isBreak {text after : List Char} (htext : IsWord text)
    (hafter : IsBreak after) : IsLongest IsWord text after :=
  isLongest_of_stop (fun _ h => h.all_isWordChar) htext hafter.not_isWordChar

theorem isWord_of_all {text : List Char} (hstart : text.head?.any isWordStart = true)
    (hall : text.all isWordChar = true) : IsWord text := by
  cases text with
  | nil => contradiction
  | cons c more =>
      rw [List.all_cons, Bool.and_eq_true] at hall
      exact ⟨c, more, rfl, hstart, List.all_eq_true.mp hall.2⟩

/-- The two words of a keyword with a blank between them. -/
theorem selects_compound {kind : TokenKind} (hkind : kind ∈ TokenKind.compoundKeywords)
    {after : List Char} (hafter : IsBreak after) :
    Selects (.token kind kind.spelling) kind.spelling.toList after := by
  have hparts : ∀ kind ∈ TokenKind.compoundKeywords,
      ∃ first second : List Char, first.head?.any isWordStart = true ∧
        first.all isWordChar = true ∧ second.head?.any isWordStart = true ∧
        second.all isWordChar = true ∧
        TokenKind.ofWords? (String.ofList first) (String.ofList second) = some kind ∧
        kind.spelling = String.ofList first ++ " " ++ String.ofList second := by
    intro kind hkind
    refine ⟨kind.spelling.toList.takeWhile (· != ' '),
      (kind.spelling.toList.dropWhile (· != ' ')).tail, ?_⟩
    revert kind
    decide
  obtain ⟨first, second, hfirst, hfirst', hsecond, hsecond', hwords, hspelling⟩ := hparts kind hkind
  have hgap : IsGap [' '] := ⟨by simp, by simp⟩
  have hlongest : IsLongest IsWord first ([' '] ++ second ++ after) :=
    isLongest_word_of_isBreak (isWord_of_all hfirst hfirst') (by simp [IsBreak])
  have hselects := Selects.compound hlongest hgap
    (isLongest_word_of_isBreak (isWord_of_all hsecond hsecond') hafter) hwords
  rw [← hspelling] at hselects
  rw [show kind.spelling.toList = first ++ [' '] ++ second by rw [hspelling]; simp]
  exact hselects

theorem selects_single {kind : TokenKind} {c : Char} (hkind : TokenKind.ofSymbol? c = some kind)
    {after : List Char} (hafter : IsBreak after) :
    Selects (.token kind kind.spelling) [c] after := by
  rw [← (ofSymbol?_eq_some hkind).1]
  apply Selects.symbol hkind
  · intro d hd
    rcases hafter d hd with rfl | rfl | rfl | rfl <;>
      (unfold TokenKind.ofPair?; split <;> simp_all)
  · intro _ d hd
    rcases hafter d hd with rfl | rfl | rfl | rfl <;> decide

theorem selects_pair {kind : TokenKind} {a b : Char} (hkind : TokenKind.ofPair? a b = some kind)
    {after : List Char} : Selects (.token kind kind.spelling) [a, b] after := by
  rw [← (ofPair?_eq_some hkind).1]
  exact .pair hkind

/-- Operators, brackets and the comma. -/
theorem selects_symbol {kind : TokenKind} {after : List Char} (hafter : IsBreak after)
    (hkind : kind ∉ TokenKind.keywords) (hcompound : kind ∉ TokenKind.compoundKeywords)
    (hend : kind ≠ .endOfInput) (hline : kind ≠ .newline) (hname : kind ≠ .identifier)
    (hnumber : kind ≠ .number) (hstring : kind ≠ .string) :
    Selects (.token kind kind.spelling) kind.spelling.toList after := by
  cases kind
  case plus => exact selects_single (c := '+') rfl hafter
  case minus => exact selects_single (c := '-') rfl hafter
  case star => exact selects_single (c := '*') rfl hafter
  case slash => exact selects_single (c := '/') rfl hafter
  case less => exact selects_single (c := '<') rfl hafter
  case greater => exact selects_single (c := '>') rfl hafter
  case assign => exact selects_single (c := '=') rfl hafter
  case leftParen => exact selects_single (c := '(') rfl hafter
  case rightParen => exact selects_single (c := ')') rfl hafter
  case leftBrace => exact selects_single (c := '\x7b') rfl hafter
  case rightBrace => exact selects_single (c := '\x7d') rfl hafter
  case comma => exact selects_single (c := ',') rfl hafter
  case equal => exact selects_pair (a := '=') (b := '=') rfl
  case notEqual => exact selects_pair (a := '!') (b := '=') rfl
  case lessEqual => exact selects_pair (a := '<') (b := '=') rfl
  case greaterEqual => exact selects_pair (a := '>') (b := '=') rfl
  all_goals contradiction

/-- The text of a word starts with a character that separates no words. -/
theorem head?_text (h : word.IsLexed) (hend : word.kind ≠ .endOfInput) :
    ∃ c, word.text.head? = some c ∧ isWordGap c = false := by
  by_cases hname : word.kind = .identifier
  · obtain ⟨⟨c, more, heq, hc, -⟩, -⟩ := h.isName hname
    refine ⟨c, ?_, ?_⟩
    · rw [text_eq_value (by simp [hname]) (by simp [hname]), heq]
      rfl
    · by_contra hgap
      rcases isWordGap_eq_true_iff.mp (by simpa using hgap) with rfl | rfl <;>
        exact absurd hc (by decide)
  by_cases hnumber : word.kind = .number
  · obtain ⟨c, hhead, hdigit⟩ := head?_text_of_number h hnumber
    refine ⟨c, hhead, ?_⟩
    by_contra hgap
    rcases isWordGap_eq_true_iff.mp (by simpa using hgap) with rfl | rfl <;>
      exact absurd hdigit (by decide)
  by_cases hstring : word.kind = .string
  · rw [text, hstring]
    exact ⟨'"', rfl, by decide⟩
  · obtain ⟨kind, value⟩ := word
    obtain rfl : value = kind.spelling := h.value_eq hname hnumber hstring
    cases kind <;> first | contradiction | exact ⟨_, rfl, by decide⟩

/-- After a separate word no other word makes a keyword of the two. -/
theorem alone_of_separate (hfirst : first.IsLexed)
    (hkind : first.kind = .identifier ∨ first.kind ∈ TokenKind.keywords)
    (hsecond : second.IsLexed) (hend : second.kind ≠ .endOfInput)
    (hseparate : Separate first.kind second.kind) {more : List Char}
    (hmore : second.kind = .newline ∨ IsBreak more) {between other after : List Char}
    (hsplit : first.gap second ++ (second.text ++ more) = between ++ other ++ after)
    (hbetween : IsGap between) (hother : IsLongest IsWord other after) :
    TokenKind.ofWords? first.value (String.ofList other) = none := by
  have hfirstLine : first.kind ≠ .newline := by
    rintro heq
    rw [heq] at hkind
    revert hkind
    decide
  by_cases hline : second.kind = .newline
  · obtain ⟨hne, hall⟩ := hbetween
    obtain ⟨c, rest, rfl⟩ := List.exists_cons_of_ne_nil hne
    rw [gap, if_pos (.inr hline), text, hline] at hsplit
    obtain ⟨rfl, -⟩ := List.cons.inj hsplit
    rcases hall '\n' List.mem_cons_self with heq | heq <;> exact absurd heq (by decide)
  · obtain ⟨c, hhead, hgap⟩ := head?_text hsecond hend
    obtain ⟨rest, htext⟩ := List.head?_eq_some_iff.mp hhead
    have hsame : second.text ++ more = other ++ after := by
      rw [← dropWhile_isWordGap hbetween hother, ← hsplit, gap,
        if_neg (by simp [hfirstLine, hline]), htext]
      change _ = (' ' :: c :: (rest ++ more)).dropWhile isWordGap
      rw [List.dropWhile_cons_of_pos (by decide), List.dropWhile_cons_of_neg (by simp [hgap])]
      rfl
    have hwords : second.text.takeWhile isWordChar = other := by
      rw [← takeWhile_append_stop (hmore.resolve_left hline).not_isWordChar, hsame,
        hother.word_eq.1]
    rw [← hwords]
    exact ofWords?_eq_none hfirst hkind hsecond hseparate

/-- Where a word is rendered, its text is the piece that is selected. -/
theorem selects_text (h : word.IsLexed) (hend : word.kind ≠ .endOfInput) {after : List Char}
    (hafter : word.kind = .newline ∨ IsBreak after)
    (halone : word.kind = .identifier ∨ word.kind ∈ TokenKind.keywords →
      ∀ between other rest, after = between ++ other ++ rest → IsGap between →
        IsLongest IsWord other rest →
        TokenKind.ofWords? word.value (String.ofList other) = none) :
    Selects word.lexeme word.text after := by
  by_cases hline : word.kind = .newline
  · rw [lexeme, if_pos hline, text, hline]
    exact .lineEnd
  replace hafter := hafter.resolve_left hline
  rw [lexeme, if_neg hline]
  by_cases hstring : word.kind = .string
  · rw [text, hstring]
    exact selects_string (h.isContent hstring) after
  rw [text_eq_value hstring hline]
  by_cases hnumber : word.kind = .number
  · have hselects := selects_number (h.isNumber hnumber) hafter
    rw [String.ofList_toList] at hselects
    rw [hnumber]
    exact hselects
  by_cases hname : word.kind = .identifier
  · obtain ⟨hword, hkind⟩ := h.isName hname
    have hselects := Selects.word (isLongest_word_of_isBreak hword hafter)
      (by simpa using halone (.inl hname))
    rw [String.ofList_toList, hkind] at hselects
    rw [hname]
    exact hselects
  have hvalue := h.value_eq hname hnumber hstring
  by_cases hkeyword : word.kind ∈ TokenKind.keywords
  · have hspelled : ∀ kind ∈ TokenKind.keywords, kind.spelling.toList.head?.any isWordStart = true ∧
        kind.spelling.toList.all isWordChar = true ∧ TokenKind.ofWord kind.spelling = kind := by
      decide
    obtain ⟨hstart, hall, hkind⟩ := hspelled _ hkeyword
    rw [← hvalue] at hstart hall hkind
    have hselects := Selects.word (isLongest_word_of_isBreak (isWord_of_all hstart hall) hafter)
      (by simpa using halone (.inr hkeyword))
    rw [String.ofList_toList, hkind] at hselects
    exact hselects
  rw [hvalue]
  by_cases hcompound : word.kind ∈ TokenKind.compoundKeywords
  · exact selects_compound hcompound hafter
  · exact selects_symbol hafter hkeyword hcompound hend hline hname hnumber hstring

/-! ## Scanning -/

/-- Words that can be rendered: a source can have each of them and each next to the one before. -/
structure Renderable (words : List Word) : Prop where
  isLexed : ∀ word ∈ words, word.IsLexed
  not_endOfInput : ∀ word ∈ words, word.kind ≠ .endOfInput
  separate : words.IsChain fun first second => Separate first.kind second.kind

theorem Renderable.tail {words : List Word} (h : Renderable (word :: words)) :
    Renderable words :=
  ⟨fun other hother => h.isLexed other (List.mem_cons_of_mem word hother),
    fun other hother => h.not_endOfInput other (List.mem_cons_of_mem word hother),
    h.separate.tail⟩

/-- What is rendered after a word. -/
def after (word : Word) : List Word → List Char
  | [] => []
  | second :: rest => word.gap second ++ render (second :: rest)

theorem render_cons (word : Word) (words : List Word) :
    render (word :: words) = word.text ++ word.after words := by
  cases words with
  | nil => simp [render, after]
  | cons second rest => rfl

theorem isBreak_after (hline : word.kind ≠ .newline) (words : List Word) :
    IsBreak (word.after words) := by
  cases words with
  | nil => simp [IsBreak, after]
  | cons second rest =>
      rw [after, gap]
      by_cases hsecond : second.kind = .newline
      · have htext : second.text = ['\n'] := by rw [text, hsecond]
        rw [if_pos (.inr hsecond), render_cons, htext]
        simp [IsBreak]
      · rw [if_neg (by simp [hline, hsecond])]
        simp [IsBreak]

theorem Renderable.selects {words : List Word} (h : Renderable (word :: words)) :
    Selects word.lexeme word.text (word.after words) := by
  have hlexed := h.isLexed word List.mem_cons_self
  have hend := h.not_endOfInput word List.mem_cons_self
  apply selects_text hlexed hend
  · by_cases hline : word.kind = .newline
    · exact .inl hline
    · exact .inr (isBreak_after hline words)
  · intro hkind between other rest hsplit hbetween hother
    cases words with
    | nil =>
        rw [after, eq_comm, List.append_eq_nil_iff, List.append_eq_nil_iff] at hsplit
        exact absurd hsplit.1.1 hbetween.1
    | cons second words =>
        have hsecond : second ∈ word :: second :: words := by simp
        rw [after, render_cons] at hsplit
        refine alone_of_separate hlexed hkind (h.isLexed second hsecond)
          (h.not_endOfInput second hsecond) (List.isChain_cons_cons.mp h.separate).1 ?_ hsplit
          hbetween hother
        by_cases hline : second.kind = .newline
        · exact .inl hline
        · exact .inr (isBreak_after hline words)

/-- The one token that a word adds, if it is no line end after another. -/
theorem exists_added {found : List Token} (line : Int) (h : word.IsLexed)
    (hlast : word.kind = .newline → ∃ last ∈ found.getLast?, last.kind ≠ .newline) :
    ∃ token : Token, Piece.added found line word.lexeme = [token] ∧ token.word = word := by
  by_cases hline : word.kind = .newline
  · refine ⟨⟨.newline, "\\n", line⟩, ?_, ?_⟩
    · rw [lexeme, if_pos hline, Piece.added, if_pos (hlast hline)]
    · have hvalue := h.value_eq (by simp [hline]) (by simp [hline]) (by simp [hline])
      rw [hline] at hvalue
      obtain ⟨kind, value⟩ := word
      exact congrArg₂ Word.mk hline.symm hvalue.symm
  · exact ⟨⟨word.kind, word.value, line⟩, by rw [lexeme, if_neg hline]; rfl, rfl⟩

/-- Words stand in a text one after the other, each selected where it stands, with blanks
between them. -/
inductive Rendered : List Word → List Char → Prop
  | done : Rendered [] []
  | blank {c words source} (hc : c = ' ' ∨ c = '\t' ∨ c = '\r') (hrest : Rendered words source) :
      Rendered words (c :: source)
  | word {word : Word} {words source} (hselects : Selects word.lexeme word.text source)
      (hrest : Rendered words source) : Rendered (word :: words) (word.text ++ source)

/-- Scanning a text that words stand in adds them to the tokens found before. -/
theorem scanFrom_of_rendered {words : List Word} {source : List Char} (h : Rendered words source)
    (hlexed : ∀ word ∈ words, word.IsLexed)
    (hlines : words.IsChain fun first second => ¬ (first.kind = .newline ∧ second.kind = .newline))
    (before : List Char) (found : List Token) (hlast : ∀ word ∈ words.head?, word.kind = .newline →
      ∃ last ∈ found.getLast?, last.kind ≠ .newline) :
    ∃ tokens line, Token.scanFrom (Piece.lineAfter before) found.reverse source =
      .ok (found ++ tokens ++ [⟨.endOfInput, "", line⟩]) ∧ tokens.map Token.word = words := by
  induction h generalizing before found with
  | done =>
      refine ⟨[], Piece.lineAfter before, ?_, rfl⟩
      rw [Token.scanFrom_nil]
      simp [TokenKind.spelling]
  | @blank c _ source hc _ ih =>
      obtain ⟨tokens, line, hscan, htokens⟩ := ih hlexed hlines (before ++ [c]) found hlast
      refine ⟨tokens, line, ?_, htokens⟩
      rw [← hscan]
      simpa [Piece.added] using @Piece.scanFrom_of_selects _ _ source (.blank hc) before found
  | @word word words source hselects hrest ih =>
      obtain ⟨token, hadded, htoken⟩ :=
        exists_added (Piece.lineAfter before) (hlexed word List.mem_cons_self) (hlast word rfl)
      have hnext : ∀ other ∈ words.head?, other.kind = .newline →
          ∃ last ∈ (found ++ [token]).getLast?, last.kind ≠ .newline := by
        intro other hother hline
        obtain ⟨rest, rfl⟩ := List.head?_eq_some_iff.mp hother
        refine ⟨token, by simp, fun heq => ?_⟩
        exact (List.isChain_cons_cons.mp hlines).1 ⟨by rw [← htoken]; exact heq, hline⟩
      obtain ⟨tokens, line, hscan, htokens⟩ :=
        ih (fun other hother => hlexed other (List.mem_cons_of_mem word hother)) hlines.tail
          (before ++ word.text) (found ++ [token]) hnext
      refine ⟨token :: tokens, line, ?_, by rw [List.map_cons, htoken, htokens]⟩
      rw [Piece.scanFrom_of_selects hselects, hadded, hscan]
      simp

/-- Scanning a text that words stand in gives the words back, and the end of the input. -/
theorem scan_of_rendered {words : List Word} {source : List Char} (h : Rendered words source)
    (hlexed : ∀ word ∈ words, word.IsLexed)
    (hlines : words.IsChain fun first second => ¬ (first.kind = .newline ∧ second.kind = .newline))
    (hfirst : ∀ word ∈ words.head?, word.kind ≠ .newline) :
    ∃ tokens line, Token.scan (String.ofList source) =
      .ok (tokens ++ [⟨.endOfInput, "", line⟩]) ∧ tokens.map Token.word = words := by
  rw [Token.scan, String.toList_ofList]
  exact scanFrom_of_rendered h hlexed hlines [] [] fun word hword hline =>
    absurd hline (hfirst word hword)

theorem Rendered.after {words : List Word} (h : Rendered words (render words)) (word : Word) :
    Rendered words (word.after words) := by
  cases words with
  | nil => exact .done
  | cons second rest =>
      rw [Word.after, gap]
      split
      · exact h
      · exact .blank (.inl rfl) h

theorem Renderable.rendered {words : List Word} (h : Renderable words) :
    Rendered words (render words) := by
  induction words with
  | nil => exact .done
  | cons word words ih =>
      rw [render_cons]
      exact .word h.selects ((ih h.tail).after word)

/-- Scanning what words are rendered as gives the words back, and the end of the input. -/
theorem scan_render {words : List Word} (h : Renderable words)
    (hfirst : ∀ word ∈ words.head?, word.kind ≠ .newline) :
    ∃ tokens line, Token.scan (String.ofList (render words)) =
      .ok (tokens ++ [⟨.endOfInput, "", line⟩]) ∧ tokens.map Token.word = words := by
  exact scan_of_rendered h.rendered h.isLexed (h.separate.imp fun _ _ hseparate => hseparate.1)
    hfirst

theorem isLexed_of_mem_endLine {line : Int} {found : List Token}
    (hfound : ∀ token ∈ found, token.word.IsLexed) :
    ∀ token ∈ Token.endLine line found, token.word.IsLexed := by
  intro token htoken
  cases found with
  | nil => contradiction
  | cons last found =>
      rw [Token.endLine] at htoken
      split at htoken
      · exact hfound token htoken
      · rcases List.mem_cons.mp htoken with rfl | htoken
        · rfl
        · exact hfound token htoken

theorem isLexed_of_scanFrom {line : Int} {found tokens : List Token} {source : List Char}
    (hscan : Token.scanFrom line found source = .ok tokens)
    (hfound : ∀ token ∈ found, token.word.IsLexed) : ∀ token ∈ tokens, token.word.IsLexed := by
  fun_induction Token.scanFrom line found source with
  | case1 line found =>
      obtain rfl := Except.ok.inj hscan
      intro token htoken
      rw [List.mem_reverse, List.mem_cons] at htoken
      rcases htoken with rfl | htoken
      · rfl
      · exact hfound token htoken
  | case2 => contradiction
  | case3 line found c source rest hfirst ih => exact ih hscan (isLexed_of_mem_endLine hfound)
  | case4 line found c source rest hfirst ih => exact ih hscan hfound
  | case5 line found c source kind value rest hfirst ih =>
      obtain ⟨text, -, hselects⟩ := first_eq_ok_iff.mp hfirst
      exact ih hscan (List.forall_mem_cons.mpr ⟨isLexed_of_selects hselects, hfound⟩)

/-- Scanning gives only words that a source can have. -/
theorem isLexed_of_scan {source : String} {tokens : List Token}
    (hscan : Token.scan source = .ok tokens) : ∀ token ∈ tokens, token.word.IsLexed :=
  isLexed_of_scanFrom hscan (by simp)

end Word

end Bol
