/-
# Line ends of two characters

Whether a line ends in a line feed or in a carriage return and a line feed makes no difference to
the tokens of a text: the carriage return is a blank or part of a comment, and where it is neither
the line feed after it would be refused as well. Each reader commutes with taking these carriage
returns out of the text, and so does the scan as a whole.
-/

import Bol.Proofs.Lexeme.Rules
import Bol.Text.Lines
import Bol.Token.Scan

namespace Bol

namespace Text

/-- The text without the carriage returns that have a line feed after them. -/
def mergeLineEnds : List Char → List Char
  | [] => []
  | '\r' :: '\n' :: rest => '\n' :: mergeLineEnds rest
  | c :: rest => c :: mergeLineEnds rest

/-- Every carriage return of the text has a line feed directly after it. -/
def ReturnsPaired : List Char → Prop
  | [] => True
  | c :: rest => (c = '\r' → rest.head? = some '\n') ∧ ReturnsPaired rest

instance decidableReturnsPaired : (text : List Char) → Decidable (ReturnsPaired text)
  | [] => isTrue trivial
  | c :: rest =>
    have := decidableReturnsPaired rest
    inferInstanceAs (Decidable ((c = '\r' → rest.head? = some '\n') ∧ ReturnsPaired rest))

variable {c : Char} {text rest : List Char}

theorem mergeLineEnds_cons (h : c = '\r' → rest.head? ≠ some '\n') :
    mergeLineEnds (c :: rest) = c :: mergeLineEnds rest :=
  mergeLineEnds.eq_3 c rest fun _ hc hrest => h hc (congrArg List.head? hrest)

/-- Where no carriage return stands alone, these are the only line ends to be unified. -/
theorem unifyLineEnds_eq (h : ReturnsPaired text) (read : List Char) :
    unifyLineEnds read text = read.reverse ++ mergeLineEnds text := by
  fun_induction unifyLineEnds read text with
  | case1 read => simp [mergeLineEnds]
  | case2 read rest ih => rw [ih h.2.2, mergeLineEnds]; simp
  | case3 read rest hrest ih =>
      obtain ⟨more, hmore⟩ := List.head?_eq_some_iff.mp (h.1 rfl)
      exact absurd hmore (hrest more)
  | case4 read c rest hpair hreturn ih =>
      rw [ih h.2, mergeLineEnds_cons fun hc => absurd hc hreturn]
      simp

/-- Taking line ends together does not change what a piece of a line is. -/
theorem takeWhile_mergeLineEnds {p : Char → Bool} (hreturn : p '\r' = false)
    (hfeed : p '\n' = false) (text : List Char) :
    (mergeLineEnds text).takeWhile p = text.takeWhile p := by
  fun_induction mergeLineEnds text with
  | case1 => rfl
  | case2 rest ih => simp [hreturn, hfeed]
  | case3 c rest _ ih => rw [List.takeWhile_cons, List.takeWhile_cons, ih]

theorem dropWhile_mergeLineEnds {p : Char → Bool} (hfeed : p '\n' = false) (text : List Char) :
    (mergeLineEnds text).dropWhile p = mergeLineEnds (text.dropWhile p) := by
  fun_induction mergeLineEnds text with
  | case1 => rfl
  | case2 rest ih =>
      by_cases hreturn : p '\r' = true <;> simp [hreturn, hfeed, mergeLineEnds]
  | case3 c rest hpair ih =>
      by_cases hc : p c = true
      · simpa [hc] using ih
      · rw [List.dropWhile_cons_of_neg hc, List.dropWhile_cons_of_neg hc]
        exact (mergeLineEnds.eq_3 c rest hpair).symm

end Text

namespace Lexeme

open Text

variable {c : Char} {rest : List Char}

/-- The first character is the same, or it is a carriage return that is gone. -/
theorem head?_mergeLineEnds (rest : List Char) :
    (mergeLineEnds rest).head? = rest.head? ∨
      rest.head? = some '\r' ∧ (mergeLineEnds rest).head? = some '\n' := by
  fun_cases mergeLineEnds rest with
  | case1 => exact .inl rfl
  | case2 rest => exact .inr ⟨rfl, rfl⟩
  | case3 c rest _ => exact .inl rfl

/-- Another first character than a line feed was there before. -/
theorem eq_cons_of_mergeLineEnds {merged : List Char} (h : mergeLineEnds rest = c :: merged)
    (hc : c ≠ '\n') : ∃ more, rest = c :: more ∧ merged = mergeLineEnds more := by
  fun_cases mergeLineEnds rest with
  | case1 => cases h
  | case2 more => exact absurd (List.cons.inj h).1.symm hc
  | case3 d more hpair =>
      rw [mergeLineEnds.eq_3 d more hpair] at h
      obtain ⟨rfl, rfl⟩ := List.cons.inj h
      exact ⟨more, rfl, rfl⟩

theorem string_mergeLineEnds (content rest : List Char) :
    string content (mergeLineEnds rest) =
      (string content rest).map fun read => (read.1, mergeLineEnds read.2) := by
  fun_induction string content rest with
  | case1 content => rfl
  | case2 content rest => rw [mergeLineEnds_cons (by simp)]; rfl
  | case3 content rest => rw [mergeLineEnds_cons (by simp)]; rfl
  | case4 content rest ih =>
      rw [mergeLineEnds_cons (by simp), mergeLineEnds_cons (by simp), string, ih]
  | case5 content c rest hquote hfeed hescape ih =>
      by_cases hpair : c = '\r' ∧ rest.head? = some '\n'
      · obtain ⟨rfl, hrest⟩ := hpair
        obtain ⟨rest, rfl⟩ := List.head?_eq_some_iff.mp hrest
        rfl
      · rw [mergeLineEnds_cons fun hc hrest => hpair ⟨hc, hrest⟩, ← ih,
          string.eq_5 _ _ _ hquote hfeed]
        intro merged hc hmerged
        obtain ⟨more, hrest, -⟩ := eq_cons_of_mergeLineEnds hmerged (by decide)
        exact hescape more hc hrest

theorem word_mergeLineEnds (source : List Char) :
    word (mergeLineEnds source) = ((word source).1, mergeLineEnds (word source).2) := by
  unfold word
  simp only [takeWhile_mergeLineEnds (p := isWordChar) (by decide) (by decide),
    dropWhile_mergeLineEnds (p := isWordChar) (by decide),
    dropWhile_mergeLineEnds (p := isWordGap) (by decide)]
  split <;> rfl

/-- A number has a fraction if a point and a digit stand after its first digits. -/
theorem number_eq_fraction {source : List Char}
    (h : source.dropWhile Char.isDigit = '.' :: c :: rest) (hc : c.isDigit = true) :
    number source = (source.takeWhile Char.isDigit ++ '.' :: (c :: rest).takeWhile Char.isDigit,
      (c :: rest).dropWhile Char.isDigit) := by
  unfold number
  rw [h]
  exact if_pos hc

theorem number_eq_whole {source : List Char}
    (h : ∀ c rest, source.dropWhile Char.isDigit = '.' :: c :: rest → c.isDigit = false) :
    number source = (source.takeWhile Char.isDigit, source.dropWhile Char.isDigit) := by
  unfold number
  split
  · rename_i c rest hdrop
    rw [hdrop, h c rest hdrop]
    rfl
  · rfl

theorem number_mergeLineEnds (source : List Char) :
    number (mergeLineEnds source) = ((number source).1, mergeLineEnds (number source).2) := by
  have htake := takeWhile_mergeLineEnds (p := Char.isDigit) (by decide) (by decide)
  have hdrop := dropWhile_mergeLineEnds (p := Char.isDigit) (by decide)
  by_cases hfraction : ∃ c rest, source.dropWhile Char.isDigit = '.' :: c :: rest ∧ c.isDigit = true
  · obtain ⟨c, rest, hsource, hc⟩ := hfraction
    have hreturn : c ≠ '\r' := by
      rintro rfl
      cases hc
    have hmerged : (mergeLineEnds source).dropWhile Char.isDigit =
        '.' :: c :: mergeLineEnds rest := by
      rw [hdrop, hsource, mergeLineEnds_cons (by simp), mergeLineEnds_cons (by simp [hreturn])]
    rw [number_eq_fraction hmerged hc, number_eq_fraction hsource hc, htake,
      ← mergeLineEnds_cons (by simp [hreturn]), htake, hdrop]
  · have hnone : ∀ c rest, source.dropWhile Char.isDigit = '.' :: c :: rest →
        c.isDigit = false := fun c rest hsource =>
      Bool.eq_false_iff.mpr fun hc => hfraction ⟨c, rest, hsource, hc⟩
    rw [number_eq_whole hnone, number_eq_whole, htake, hdrop]
    intro c merged hmerged
    rw [hdrop] at hmerged
    obtain ⟨more, hsource, hmore⟩ := eq_cons_of_mergeLineEnds hmerged (by decide)
    by_contra hc
    obtain ⟨rest, rfl, -⟩ := eq_cons_of_mergeLineEnds hmore.symm (by rintro rfl; exact hc rfl)
    exact hc (hnone c rest hsource)

/-- All operators of two characters end alike. -/
theorem eq_of_ofPair? {d : Char} {kind : TokenKind} (h : TokenKind.ofPair? c d = some kind) :
    d = '=' := by
  unfold TokenKind.ofPair? at h
  split at h <;> first | rfl | cases h

theorem symbol_mergeLineEnds (c : Char) (rest : List Char) :
    symbol c (mergeLineEnds rest) =
      (symbol c rest).map fun cut => (cut.1, mergeLineEnds cut.2) := by
  cases hpair : rest.head?.bind (TokenKind.ofPair? c) with
  | some kind =>
      obtain ⟨d, hhead, hkind⟩ := Option.bind_eq_some_iff.mp hpair
      obtain ⟨more, rfl⟩ := List.head?_eq_some_iff.mp hhead
      obtain rfl := eq_of_ofPair? hkind
      rw [mergeLineEnds_cons (by simp), symbol_of_pair hkind, symbol_of_pair hkind]
      rfl
  | none =>
      have hmerged : (mergeLineEnds rest).head?.bind (TokenKind.ofPair? c) = none := by
        rcases head?_mergeLineEnds rest with hsame | ⟨-, hfeed⟩
        · rw [hsame, hpair]
        · rw [hfeed]
          refine Option.eq_none_iff_forall_ne_some.mpr fun kind hkind => ?_
          cases eq_of_ofPair? hkind
      unfold symbol
      rw [hpair, hmerged]
      cases TokenKind.ofSymbol? c <;> rfl

/-- Cutting off the first lexeme and taking line ends together can be done in either order, unless
the text starts with a line end of two characters. -/
theorem first_mergeLineEnds (c : Char) (rest : List Char) :
    first c (mergeLineEnds rest) =
      (first c rest).map fun cut => (cut.1, mergeLineEnds cut.2) := by
  have hdash : c = '-' ∧ (mergeLineEnds rest).head? = some '-' ↔
      c = '-' ∧ rest.head? = some '-' := by
    rcases head?_mergeLineEnds rest with hsame | ⟨hreturn, hfeed⟩
    · rw [hsame]
    · simp [hreturn, hfeed]
  have hcomment := dropWhile_mergeLineEnds (p := (· != '\n')) (by decide) rest
  unfold first
  simp only [hdash, hcomment, string_mergeLineEnds]
  split
  · rfl
  split
  · rfl
  split
  · rfl
  split
  · cases string [] rest <;> rfl
  split
  · rename_i hdigit
    have hreturn : c ≠ '\r' := by
      rintro rfl
      cases hdigit
    rw [← mergeLineEnds_cons fun hc => absurd hc hreturn, number_mergeLineEnds]
    rfl
  split
  · rename_i hword
    have hreturn : c ≠ '\r' := by
      rintro rfl
      cases hword
    rw [← mergeLineEnds_cons fun hc => absurd hc hreturn, word_mergeLineEnds]
    rfl
  · exact symbol_mergeLineEnds c rest

end Lexeme

namespace Token

open Text

/-- The carriage return of a line end is a blank. -/
theorem scanFrom_return (line : Int) (found : List Token) (rest : List Char) :
    scanFrom line found ('\r' :: rest) = scanFrom line found rest := by
  rw [scanFrom_cons]
  rfl

/-- Taking line ends together changes neither the tokens of a text nor its error. -/
theorem scanFrom_mergeLineEnds (line : Int) (found : List Token) (source : List Char) :
    scanFrom line found (mergeLineEnds source) = scanFrom line found source := by
  match source with
  | [] => rfl
  | c :: rest =>
      by_cases hpair : c = '\r' ∧ rest.head? = some '\n'
      · obtain ⟨rfl, hrest⟩ := hpair
        obtain ⟨rest, rfl⟩ := List.head?_eq_some_iff.mp hrest
        have hmerged : mergeLineEnds ('\r' :: '\n' :: rest) = mergeLineEnds ('\n' :: rest) := rfl
        rw [hmerged, scanFrom_return]
        exact scanFrom_mergeLineEnds line found ('\n' :: rest)
      · rw [mergeLineEnds_cons fun hc hrest => hpair ⟨hc, hrest⟩, scanFrom_cons, scanFrom_cons,
          Lexeme.first_mergeLineEnds]
        cases hfirst : Lexeme.first c rest with
        | error fault => rfl
        | ok cut =>
            have hshorter := Lexeme.length_first_le hfirst
            obtain ⟨lexeme, after⟩ := cut
            cases lexeme with
            | lineEnd | silent | token _ _ => exact scanFrom_mergeLineEnds _ _ after
termination_by source.length
decreasing_by
  · simp_all
  all_goals exact Nat.lt_succ_of_le hshorter

/-- Line ends of two characters do not matter. A text reads the same with a line feed in place of
every carriage return and line feed: its tokens are the same, with their kinds, values and lines,
or it is refused with the same message, line and text. -/
theorem scan_mergeLineEnds (source : String) :
    scan (.ofList (mergeLineEnds source.toList)) = scan source := by
  rw [scan, String.toList_ofList, scanFrom_mergeLineEnds, scan]

/-- The carriage return that is left over does not pair with the line feed a second time. -/
example : mergeLineEnds "he\r\r\nbol\r\n".toList = "he\r\nbol\n".toList := by decide

/-- A text whose carriage returns all belong to line ends reads the same with unified line ends. -/
theorem scan_unifyLineEnds {source : String} (h : ReturnsPaired source.toList) :
    scan (.ofList (unifyLineEnds [] source.toList)) = scan source := by
  rw [scan, String.toList_ofList, unifyLineEnds_eq h, List.reverse_nil, List.nil_append,
    scanFrom_mergeLineEnds, scan]

end Token

end Bol
