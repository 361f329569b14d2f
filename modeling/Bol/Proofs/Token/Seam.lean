/-
# Texts joined by a line end

No piece of a source reaches over a line end. So where two texts are joined by one, the pieces are
those of the first text, the line end, and those of the second text, and the tokens are those of
both: in between there is one line end exactly if the first text has tokens and does not end with
a line end already, and the lines of the second text count on from those of the first.
-/

import Bol.Proofs.Token.Cut

namespace Bol

namespace Lexeme

variable {text rest more : List Char}

/-- Text without a line end that a source starts with stands before the first line end. -/
theorem exists_eq_append_of_notMem {front after : List Char} (hfront : '\n' ∉ front)
    (h : rest ++ '\n' :: more = front ++ after) :
    ∃ middle, rest = front ++ middle ∧ after = middle ++ '\n' :: more := by
  obtain ⟨tail, rfl, hmore⟩ | ⟨middle, rfl, rfl⟩ := List.append_eq_append_iff.mp h
  · cases tail with
    | nil => exact ⟨[], by simp, hmore.symm⟩
    | cons c tail =>
        obtain ⟨rfl, -⟩ := List.cons_eq_cons.mp hmore
        exact absurd (by simp) hfront
  · exact ⟨middle, rfl, rfl⟩

/-- A piece without a line end is the longest of its shape before a line end if it is so before
the end of the text. -/
theorem isLongest_append_lineEnd {shape : List Char → Prop}
    (hshape : ∀ text, shape text → '\n' ∉ text) :
    IsLongest shape text (rest ++ '\n' :: more) ↔ IsLongest shape text rest := by
  refine and_congr_right fun _ => forall_congr' fun other => ?_
  constructor
  · rintro h ⟨after, hsplit⟩
    exact h ⟨after ++ '\n' :: more, by rw [← List.append_assoc, hsplit, List.append_assoc]⟩
  · rintro h ⟨after, hsplit⟩ hother
    rw [← List.append_assoc] at hsplit
    obtain ⟨middle, hmiddle, -⟩ := exists_eq_append_of_notMem (hshape _ hother) hsplit.symm
    exact h ⟨middle, hmiddle.symm⟩ hother

theorem IsWord.lineEnd_notMem (h : IsWord text) : '\n' ∉ text := fun hmem =>
  absurd (h.all_isWordChar _ hmem) (by decide)

theorem IsNumber.lineEnd_notMem (h : IsNumber text) : '\n' ∉ text :=
  h.notMem (by decide) (by decide)

theorem IsGap.lineEnd_notMem (h : IsGap text) : '\n' ∉ text := by
  intro hmem
  obtain h | h := h.2 _ hmem <;> simp at h

theorem head?_append_lineEnd {c : Char} (h : c ∈ (rest ++ '\n' :: more).head?) :
    c ∈ rest.head? ∨ rest = [] ∧ c = '\n' := by
  cases rest with
  | nil => exact .inr ⟨rfl, (Option.mem_some.mp h).symm⟩
  | cons d rest => exact .inl h

/-- A piece is selected whether the text ends after `rest` or a line end follows there. -/
theorem Selects.append_lineEnd {lexeme : Lexeme} (h : Selects lexeme text rest) :
    Selects lexeme text (rest ++ '\n' :: more) := by
  have hword {text rest : List Char} :
      IsLongest IsWord text (rest ++ '\n' :: more) ↔ IsLongest IsWord text rest :=
    isLongest_append_lineEnd fun _ => IsWord.lineEnd_notMem
  cases h with
  | lineEnd => exact .lineEnd
  | blank hc => exact .blank hc
  | comment hbody hrest =>
      refine .comment hbody fun c hc => ?_
      obtain hc | ⟨-, rfl⟩ := head?_append_lineEnd hc
      · exact hrest c hc
      · rfl
  | string hbody => exact .string hbody
  | number htext =>
      exact .number ((isLongest_append_lineEnd fun _ => IsNumber.lineEnd_notMem).mpr htext)
  | compound hfirst hgap hsecond hkind =>
      rw [← hword, List.append_assoc] at hfirst
      exact .compound hfirst hgap (hword.mpr hsecond) hkind
  | word htext halone =>
      refine .word (hword.mpr htext) fun gap second after hsplit hgap hsecond => ?_
      have hfront : '\n' ∉ gap ++ second := by
        simp [hgap.lineEnd_notMem, hsecond.1.lineEnd_notMem]
      obtain ⟨middle, hrest, rfl⟩ := exists_eq_append_of_notMem hfront hsplit
      exact halone gap second middle hrest hgap (hword.mp hsecond)
  | pair hkind => exact .pair hkind
  | symbol hkind hpair hcomment =>
      refine .symbol hkind (fun d hd => ?_) fun hc d hd => ?_
      · obtain hd | ⟨-, rfl⟩ := head?_append_lineEnd hd
        · exact hpair d hd
        · refine Option.eq_none_iff_forall_ne_some.mpr fun kind hkind => ?_
          exact (ofPair?_eq_some hkind).2.2.2 rfl
      · obtain hd | ⟨-, rfl⟩ := head?_append_lineEnd hd
        · exact hcomment hc d hd
        · decide

theorem kind_ne_of_table {kind : TokenKind} {text : String} (h : (text, kind) ∈ TokenKind.table) :
    kind ≠ .endOfInput ∧ kind ≠ .newline := by
  have hmem := (TokenKind.mem_table_iff.mp h).1
  exact ⟨ne_of_mem_of_not_mem hmem (by decide), ne_of_mem_of_not_mem hmem (by decide)⟩

/-- No piece that stands for a token stands for the end of the input or of a line. -/
theorem Selects.kind_ne {kind : TokenKind} {value : String}
    (h : Selects (.token kind value) text rest) : kind ≠ .endOfInput ∧ kind ≠ .newline := by
  cases h with
  | string | number => decide
  | compound _ _ _ hkind => exact kind_ne_of_table (TokenKind.ofWords?_eq_some_iff.mp hkind).2
  | word =>
      rcases TokenKind.ofWord_eq_iff.mp rfl with ⟨-, htable⟩ | ⟨hname, -⟩
      · exact kind_ne_of_table htable
      · rw [hname]
        decide
  | pair hkind => exact kind_ne_of_table (TokenKind.ofPair?_eq_some_iff.mp hkind).2
  | symbol hkind => exact kind_ne_of_table (TokenKind.ofSymbol?_eq_some_iff.mp hkind).2

end Lexeme

namespace Piece

variable {source rest : List Char} {pieces morePieces : List Piece}

theorem Cut.append_lineEnd (h : Cut source pieces rest) (more : List Char) :
    Cut (source ++ '\n' :: more) pieces (rest ++ '\n' :: more) := by
  induction h with
  | done => exact .done
  | piece hselects _ ih =>
      rw [List.append_assoc]
      exact .piece hselects.append_lineEnd ih

theorem Cut.trans {last : List Char} (h : Cut source pieces rest)
    (hmore : Cut rest morePieces last) : Cut source (pieces ++ morePieces) last := by
  induction h with
  | done => exact hmore
  | piece hselects _ ih => exact .piece hselects (ih hmore)

/-- The text of the pieces and what is left make up the source. -/
theorem Cut.texts_append (h : Cut source pieces rest) : texts pieces ++ rest = source := by
  induction h with
  | done => rfl
  | piece _ _ ih => simpa [texts] using ih

theorem tokensAfter_append (before : List Char) (found : List Token) :
    tokensAfter before found (pieces ++ morePieces) =
      tokensAfter (before ++ texts pieces) (tokensAfter before found pieces) morePieces := by
  induction pieces generalizing before found with
  | nil => simp [texts, tokensAfter]
  | cons piece pieces ih => simp [tokensAfter, ih, texts]

theorem kind_ne_endOfInput_of_mem_added {lexeme : Lexeme} {text rest : List Char}
    (h : Lexeme.Selects lexeme text rest) {found : List Token} {line : Int} {t : Token}
    (ht : t ∈ added found line lexeme) : t.kind ≠ .endOfInput := by
  cases lexeme with
  | silent => cases ht
  | token kind value =>
      rw [List.mem_singleton.mp ht]
      exact h.kind_ne.1
  | lineEnd =>
      simp only [added] at ht
      split at ht
      · simp [List.mem_singleton.mp ht]
      · cases ht

theorem kind_ne_endOfInput_of_mem_tokensAfter (h : Cut source pieces rest) {before : List Char}
    {found : List Token} (hfound : ∀ t ∈ found, t.kind ≠ .endOfInput) :
    ∀ t ∈ tokensAfter before found pieces, t.kind ≠ .endOfInput := by
  induction h generalizing before found with
  | done => exact hfound
  | piece hselects _ ih =>
      exact ih (List.forall_mem_append.mpr
        ⟨hfound, fun t ht => kind_ne_endOfInput_of_mem_added hselects ht⟩)

end Piece

namespace Token

/-- The same token on another line. -/
def mapLine (f : Int → Int) (token : Token) : Token := { token with line := f token.line }

@[simp]
theorem mapLine_kind (f : Int → Int) (token : Token) : (token.mapLine f).kind = token.kind := rfl

end Token

namespace Piece

/-- The tokens of a text that a line end follows: the line end is a token unless there are none
or the last of them is a line end already. -/
def closed (text : List Char) (found : List Token) : List Token :=
  found ++ added found (lineAfter text) .lineEnd

/-- Tokens that call for no line end after them. -/
def IsClosed (found : List Token) : Prop := ∀ last ∈ found.getLast?, last.kind = .newline

theorem IsClosed.of_append {ts rest : List Token} (h : IsClosed (ts ++ rest)) : IsClosed rest := by
  intro last hlast
  exact h last (by rw [List.getLast?_append]; simp [Option.mem_def.mp hlast])

theorem IsClosed.of_cons {t : Token} {rest : List Token} (h : IsClosed (t :: rest)) :
    IsClosed rest := @of_append [t] rest h

theorem closed_cases (text : List Char) (found : List Token) :
    closed text found = found ∧ IsClosed found ∨
      ∃ t : Token, t.kind = .newline ∧ closed text found = found ++ [t] := by
  unfold closed added
  by_cases hopen : ∃ last ∈ found.getLast?, last.kind ≠ .newline
  · exact .inr ⟨_, rfl, congrArg (found ++ ·) (if_pos hopen)⟩
  · refine .inl ⟨(congrArg (found ++ ·) (if_neg hopen)).trans (List.append_nil found), ?_⟩
    intro last hlast
    by_contra hkind
    exact hopen ⟨last, hlast, hkind⟩

theorem isClosed_closed (text : List Char) (found : List Token) : IsClosed (closed text found) := by
  obtain ⟨hsame, hclosed⟩ | ⟨t, ht, hmore⟩ := closed_cases text found
  · rwa [hsame]
  · rw [hmore]
    intro last hlast
    rw [List.getLast?_concat, Option.mem_some] at hlast
    rwa [← hlast]

theorem added_append {first found : List Token} (hfirst : IsClosed first) (f : Int → Int)
    (line : Int) (lexeme : Lexeme) :
    added (first ++ found.map (Token.mapLine f)) (f line) lexeme =
      (added found line lexeme).map (Token.mapLine f) := by
  cases lexeme with
  | silent => rfl
  | token kind value => rfl
  | lineEnd =>
      rcases List.eq_nil_or_concat found with rfl | ⟨init, last, rfl⟩
      · have hnone : ¬ ∃ last ∈ first.getLast?, last.kind ≠ .newline := by
          rintro ⟨last, hlast, hkind⟩
          exact hkind (hfirst last hlast)
        simp only [added, List.map_nil, List.append_nil, if_neg hnone]
        rfl
      · by_cases hkind : last.kind = .newline <;>
          simp [added, hkind, Token.mapLine]

/-- Where tokens come before that call for no line end, a text has the tokens it has on its own,
on later lines. -/
theorem tokensAfter_closed {first : List Token} (hfirst : IsClosed first)
    (text before : List Char) (found : List Token) (pieces : List Piece) :
    tokensAfter (text ++ before) (first ++ found.map (Token.mapLine (· + text.count '\n'))) pieces =
      first ++ (tokensAfter before found pieces).map (Token.mapLine (· + text.count '\n')) := by
  induction pieces generalizing before found with
  | nil => rfl
  | cons piece pieces ih =>
      have hline : lineAfter (text ++ before) = lineAfter before + text.count '\n' := by
        simp only [lineAfter, List.count_append]
        omega
      rw [tokensAfter, hline, added_append hfirst (· + (text.count '\n' : Int))]
      simp only [List.append_assoc, ← List.map_append]
      exact ih (before ++ piece.text) _

end Piece

namespace Token

open Piece

theorem scan_of_complete_cut {source : String} {pieces : List Piece}
    (h : Cut source.toList pieces []) : scan source = .ok (Piece.tokens pieces) := by
  rw [scan_of_cut h, scanFrom_nil]
  simp [Piece.tokens, TokenKind.spelling]

theorem exists_cut_of_scan {source : String} {found : List Token} (h : scan source = .ok found) :
    ∃ pieces, Cut source.toList pieces [] ∧ found = Piece.tokens pieces := by
  obtain ⟨pieces, rest, hcut, rfl | ⟨fault, hstuck⟩⟩ := exists_cut source.toList
  · rw [scan_of_complete_cut hcut] at h
    exact ⟨pieces, hcut, (Except.ok.inj h).symm⟩
  · rw [scan_of_cut hcut, scanFrom_of_isStuck hstuck] at h
    cases h

/-- A text that cannot be read is cut up to the place that is to blame. -/
theorem exists_cut_of_scan_eq_error {source : String} {error : LexError}
    (h : scan source = .error error) :
    ∃ pieces rest, Cut source.toList pieces rest ∧ Lexeme.IsStuck error.fault rest ∧
      error.line = lineAfter (texts pieces) := by
  obtain ⟨pieces, rest, hcut, rfl | ⟨fault, hstuck⟩⟩ := exists_cut source.toList
  · rw [scan_of_complete_cut hcut] at h
    cases h
  · rw [scan_of_cut hcut, scanFrom_of_isStuck hstuck] at h
    cases h
    exact ⟨pieces, rest, hcut, hstuck, rfl⟩

/-- The end of the input is the last token and no other. -/
theorem exists_body_of_scan {source : String} {found : List Token} (h : scan source = .ok found) :
    ∃ body stop, found = body ++ [stop] ∧ stop.kind = .endOfInput ∧
      ∀ t ∈ body, t.kind ≠ .endOfInput := by
  obtain ⟨pieces, hcut, rfl⟩ := exists_cut_of_scan h
  exact ⟨_, _, rfl, rfl, kind_ne_endOfInput_of_mem_tokensAfter hcut (List.forall_mem_nil _)⟩

/-- Two texts that a line end joins are cut into the pieces of the first, the line end, and the
pieces of the second. -/
theorem cut_joined {a b : String} {first second : List Piece} {rest : List Char}
    (ha : Cut a.toList first []) (hb : Cut b.toList second rest) :
    Cut (a ++ "\n" ++ b).toList (first ++ ⟨.lineEnd, ['\n']⟩ :: second) rest := by
  have hmore : Cut (['\n'] ++ b.toList) (⟨.lineEnd, ['\n']⟩ :: second) rest := .piece .lineEnd hb
  simpa using (ha.append_lineEnd b.toList).trans hmore

/-- A place of the second text stands as many lines further down as the first text has. -/
theorem lineAfter_joined {a : String} {first second : List Piece} (ha : Cut a.toList first []) :
    lineAfter (texts (first ++ ⟨.lineEnd, ['\n']⟩ :: second)) =
      lineAfter (texts second) + (a.toList.count '\n' + 1 : Nat) := by
  have htexts : texts first = a.toList := by simpa using ha.texts_append
  have hall : texts (first ++ ⟨.lineEnd, ['\n']⟩ :: second) = a.toList ++ '\n' :: texts second := by
    simp [← htexts, texts]
  simp only [lineAfter, hall, List.count_append, List.count_cons_self]
  omega

/-- The tokens of two texts that a line end joins: those of the first, a line end if one is due,
and those of the second, on later lines. -/
theorem scan_joined {a b : String} {body bs : List Token} {stop : Token}
    (ha : scan a = .ok (body ++ [stop])) (hb : scan b = .ok bs) :
    scan (a ++ "\n" ++ b) =
      .ok (closed a.toList body ++ bs.map (mapLine (· + (a.toList.count '\n' + 1 : Nat)))) := by
  obtain ⟨first, hfirst, htokens⟩ := exists_cut_of_scan ha
  obtain ⟨second, hsecond, rfl⟩ := exists_cut_of_scan hb
  obtain ⟨rfl, -⟩ := List.append_inj' htokens rfl
  have htexts : texts first = a.toList := by simpa using hfirst.texts_append
  have hcount : (a.toList ++ ['\n']).count '\n' = a.toList.count '\n' + 1 := by simp
  have hclosed := tokensAfter_closed (isClosed_closed a.toList (tokensAfter [] [] first))
    (a.toList ++ ['\n']) [] [] second
  rw [hcount, List.append_nil, List.map_nil, List.append_nil] at hclosed
  rw [scan_of_complete_cut (cut_joined hfirst hsecond), Piece.tokens, tokensAfter_append,
    tokensAfter, List.nil_append, htexts, lineAfter_joined hfirst, Piece.tokens, List.map_append,
    ← List.append_assoc, ← hclosed]
  rfl

end Token

end Bol
