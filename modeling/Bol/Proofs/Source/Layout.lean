/-
# The words of a program can be rendered

Every word that a program is written as is one that a source can have, no line is empty, and a
name is never followed by a word. The words are followed from the end of the program on: what is
put in front of renderable words depends on their first one only.
-/

import Bol.Proofs.Source.Print
import Bol.Proofs.Source.Render

namespace Bol

/-- The kinds that are always spelled alike and that any other may follow. -/
def TokenKind.opens : TokenKind → Bool
  | .identifier | .number | .string | .elseWord | .newline | .endOfInput => false
  | _ => true

namespace Word

/-- The first of the words may stand after any word but a line end. -/
def Closed (words : List Word) : Prop :=
  ∀ word ∈ words.head?, word.kind ≠ .identifier ∧ word.kind ≠ .ifWord

/-- The first of the words is no line end, so that they may stand after one. -/
def OnLine (words : List Word) : Prop := ∀ word ∈ words.head?, word.kind ≠ .newline

variable {word : Word} {words : List Word}

@[simp]
theorem closed_cons : Closed (word :: words) ↔ word.kind ≠ .identifier ∧ word.kind ≠ .ifWord := by
  simp [Closed]

@[simp]
theorem onLine_cons : OnLine (word :: words) ↔ word.kind ≠ .newline := by
  simp [OnLine]

namespace Renderable

theorem nil : Renderable [] := ⟨by simp, by simp, .nil⟩

theorem cons (h : Renderable words) (hlexed : word.IsLexed) (hend : word.kind ≠ .endOfInput)
    (hseparate : ∀ next ∈ words.head?, Separate word.kind next.kind) :
    Renderable (word :: words) := by
  refine ⟨List.forall_mem_cons.mpr ⟨hlexed, h.isLexed⟩,
    List.forall_mem_cons.mpr ⟨hend, h.not_endOfInput⟩, ?_⟩
  cases words with
  | nil => exact .singleton word
  | cons next rest => exact List.isChain_cons_cons.mpr ⟨hseparate next rfl, h.separate⟩

theorem cons_word (h : Renderable words) {kind : TokenKind} (hkind : kind.opens = true) :
    Renderable (kind.word :: words) := by
  apply h.cons
  · cases kind <;> first | rfl | contradiction
  · rintro heq
    cases heq
    contradiction
  · intro next _
    constructor
    · rintro ⟨rfl, _⟩
      contradiction
    · rintro (rfl | rfl) <;> contradiction

theorem cons_number (h : Renderable words) {digits : String}
    (hdigits : Lexeme.IsNumber digits.toList) : Renderable (⟨.number, digits⟩ :: words) :=
  h.cons hdigits (by simp) fun _ _ => ⟨by simp, by simp⟩

theorem cons_string (h : Renderable words) {value : String} (hvalue : IsContent value.toList) :
    Renderable (⟨.string, value⟩ :: words) :=
  h.cons hvalue (by simp) fun _ _ => ⟨by simp, by simp⟩

theorem cons_name (h : Renderable words) (hclosed : Closed words) {name : String}
    (hname : IsName name) : Renderable (⟨.identifier, name⟩ :: words) :=
  h.cons hname (by simp) fun next hnext => ⟨by simp, fun _ => hclosed next hnext⟩

theorem cons_else (h : Renderable words) (hclosed : Closed words) :
    Renderable (TokenKind.elseWord.word :: words) :=
  h.cons rfl (by simp) fun next hnext => ⟨by simp, fun _ => hclosed next hnext⟩

theorem cons_newline (h : Renderable words) (hline : OnLine words) :
    Renderable (TokenKind.newline.word :: words) :=
  h.cons rfl (by simp) fun next hnext => ⟨fun hlines => hline next hnext hlines.2, by simp⟩

end Renderable

end Word

open Word

variable {spell : Float → Numeral} {words : List Word}

/-! ## Expressions -/

theorem Numeral.renderable {numeral : Numeral} (h : Lexeme.IsNumber numeral.digits.toList)
    (hwords : Renderable words) : Renderable (numeral.words ++ words) := by
  rw [Numeral.words, List.append_assoc, List.singleton_append]
  induction numeral.signs with
  | zero => exact hwords.cons_number h
  | succ signs ih =>
      rw [List.replicate_succ, List.cons_append]
      exact ih.cons_word rfl

/-- An operator of the language is written as the word of its kind. -/
theorem BinaryOp.word_eq {op : BinaryOp} (hop : op ∈ BinaryOp.all) :
    op.word = op.kind.word ∧ op.kind.opens = true ∧ op.kind ≠ .ifWord := by
  cases op <;> first | exact ⟨rfl, rfl, by decide⟩ | exact absurd hop (by simp [BinaryOp.all])

namespace Expr

/-- Where words may follow any word, the words of the expression may be put in front of them. -/
def Fits (spell : Float → Numeral) (e : Expr) : Prop :=
  ∀ words, Renderable words → Closed words → Renderable (e.words spell ++ words)

theorem Fits.wrapped {e : Expr} (h : e.Fits spell) (level inner : Nat) (hwords : Renderable words)
    (hclosed : Closed words) : Renderable (wrapped level inner (e.words spell) ++ words) := by
  unfold Bol.wrapped
  split
  · rw [List.cons_append, List.append_assoc]
    apply Renderable.cons_word _ rfl
    exact h _ (hwords.cons_word rfl) (by simp)
  · exact h words hwords hclosed

theorem Fits.list {args : List Expr} (h : ∀ arg ∈ args, arg.Fits spell)
    (hwords : Renderable words) (hclosed : Closed words) :
    Renderable (listWords spell args ++ words) := by
  induction args with
  | nil => exact hwords
  | cons e rest ih =>
      rw [List.forall_mem_cons] at h
      cases rest with
      | nil => exact h.1 words hwords hclosed
      | cons other rest =>
          rw [listWords, List.append_assoc, List.cons_append]
          exact h.1 _ ((ih h.2).cons_word rfl) (by simp)

theorem Printable.fits (hspell : IsSpelling spell) {e : Expr} (h : e.Printable) : e.Fits spell := by
  induction h with
  | number h => exact fun words hwords _ => Numeral.renderable (hspell _ h).1 hwords
  | string h => exact fun words hwords _ => hwords.cons_string h
  | @boolean value =>
      intro words hwords _
      cases value <;> exact hwords.cons_word rfl
  | null => exact fun words hwords _ => hwords.cons_word rfl
  | name h => exact fun words hwords hclosed => hwords.cons_name hclosed h
  | @binary op left right hop _ _ hleft hright =>
      intro words hwords hclosed
      obtain ⟨hword, hopens, hif⟩ := BinaryOp.word_eq hop
      have hname : op.kind ≠ .identifier := by
        rintro heq
        rw [heq] at hopens
        contradiction
      rw [Expr.words, hword, List.append_assoc, List.cons_append]
      apply hleft.wrapped
      · exact (hright.wrapped _ _ hwords hclosed).cons_word hopens
      · simp [hname, hif]
  | negate _ _ h | not _ h =>
      intro words hwords hclosed
      exact (h.wrapped _ _ hwords hclosed).cons_word rfl
  | @call callee args hcallee _ hargs =>
      intro words hwords _
      rw [Expr.words, List.cons_append, List.cons_append, List.append_assoc]
      apply Renderable.cons_name _ (by simp) hcallee
      apply Renderable.cons_word _ rfl
      exact Fits.list hargs (hwords.cons_word rfl) (by simp)

end Expr

/-! ## Statements -/

theorem renderable_newline {value : Expr} (h : value.Fits spell) (hwords : Renderable words)
    (hline : OnLine words) :
    Renderable (value.words spell ++ TokenKind.newline.word :: words) :=
  h _ (hwords.cons_newline hline) (by simp)

theorem renderable_nameWords {params : List String} (h : ∀ param ∈ params, IsName param)
    (hwords : Renderable words) (hclosed : Closed words) :
    Renderable (nameWords params ++ words) := by
  induction params with
  | nil => exact hwords
  | cons name rest ih =>
      rw [List.forall_mem_cons] at h
      cases rest with
      | nil => exact hwords.cons_name hclosed h.1
      | cons other rest =>
          rw [nameWords, List.cons_append, List.cons_append]
          exact ((ih h.2).cons_word rfl).cons_name (by simp) h.1

namespace Stmt

/-- Where words may follow a line end, the words of the statement may be put in front of them, and
so may be a line end. -/
def Fits (spell : Float → Numeral) (stmt : Stmt) : Prop :=
  ∀ words, Renderable words → OnLine words →
    Renderable (stmt.words spell ++ words) ∧ OnLine (stmt.words spell ++ words)

theorem Fits.list {body : List Stmt} (h : ∀ stmt ∈ body, stmt.Fits spell)
    (hwords : Renderable words) (hline : OnLine words) :
    Renderable (listWords spell body ++ words) ∧ OnLine (listWords spell body ++ words) := by
  induction body with
  | nil => exact ⟨hwords, hline⟩
  | cons stmt rest ih =>
      rw [List.forall_mem_cons] at h
      obtain ⟨hrest, honLine⟩ := ih h.2
      rw [listWords, List.append_assoc]
      exact h.1 _ hrest honLine

theorem Fits.braced {body : List Stmt} (h : ∀ stmt ∈ body, stmt.Fits spell)
    (hwords : Renderable words) : Renderable (braced (listWords spell body) ++ words) := by
  have hclose : Renderable (TokenKind.rightBrace.word :: words) := hwords.cons_word rfl
  obtain ⟨hbody, honLine⟩ := Fits.list h hclose (by simp)
  rw [Bol.braced, List.cons_append, List.cons_append, List.append_assoc]
  exact (hbody.cons_newline honLine).cons_word rfl

end Stmt

mutual

theorem Stmt.Printable.fits (hspell : IsSpelling spell) {stmt : Stmt} (h : stmt.Printable) :
    stmt.Fits spell := by
  intro words hwords hline
  cases h with
  | declare hname h =>
      rw [Stmt.words, List.cons_append, List.cons_append, List.cons_append, List.append_assoc]
      refine ⟨?_, by simp⟩
      apply Renderable.cons_word _ rfl
      apply Renderable.cons_name _ (by simp) hname
      exact (renderable_newline (h.fits hspell) hwords hline).cons_word rfl
  | assign hname h =>
      rw [Stmt.words, List.cons_append, List.cons_append, List.append_assoc]
      refine ⟨?_, by simp⟩
      apply Renderable.cons_name _ (by simp) hname
      exact (renderable_newline (h.fits hspell) hwords hline).cons_word rfl
  | print h =>
      rw [Stmt.words, List.cons_append, List.append_assoc]
      exact ⟨(renderable_newline (h.fits hspell) hwords hline).cons_word rfl, by simp⟩
  | ifThen hcondition hbody halternative =>
      have hrest := halternative.fits hspell words hwords hline
      have hblock := Stmt.Fits.braced (fun stmt hstmt => (hbody stmt hstmt).fits hspell) hrest
      rw [Stmt.words, List.cons_append, List.append_assoc, List.append_assoc]
      refine ⟨?_, by simp⟩
      apply Renderable.cons_word _ rfl
      exact hcondition.fits hspell _ hblock (by simp [braced])
  | whileDo hcondition hbody =>
      have hblock := Stmt.Fits.braced (fun stmt hstmt => (hbody stmt hstmt).fits hspell)
        (hwords.cons_newline hline)
      rw [Stmt.words, List.cons_append, List.append_assoc, List.append_assoc]
      refine ⟨?_, by simp⟩
      apply Renderable.cons_word _ rfl
      exact hcondition.fits hspell _ hblock (by simp [braced])
  | breakLoop | continueLoop | returnNothing =>
      exact ⟨(hwords.cons_newline hline).cons_word rfl, by simp [Stmt.words]⟩
  | function hname hparams hbody =>
      have hblock := Stmt.Fits.braced (fun stmt hstmt => (hbody stmt hstmt).fits hspell)
        (hwords.cons_newline hline)
      rw [Stmt.words, List.cons_append, List.cons_append, List.cons_append, List.append_assoc,
        List.cons_append, List.append_assoc]
      refine ⟨?_, by simp⟩
      apply Renderable.cons_word _ rfl
      apply Renderable.cons_name _ (by simp) hname
      apply Renderable.cons_word _ rfl
      exact renderable_nameWords hparams (hblock.cons_word rfl) (by simp)
  | returnValue h =>
      rw [Stmt.words, List.cons_append, List.append_assoc]
      exact ⟨(renderable_newline (h.fits hspell) hwords hline).cons_word rfl, by simp⟩

theorem Alternative.Printable.fits (hspell : IsSpelling spell) {alternative : Alternative}
    (h : alternative.Printable) (words : List Word) (hwords : Renderable words)
    (hline : OnLine words) : Renderable (alternative.words spell ++ words) := by
  cases h with
  | nothing => exact hwords.cons_newline hline
  | otherwise hbody =>
      have hblock := Stmt.Fits.braced (fun stmt hstmt => (hbody stmt hstmt).fits hspell)
        (hwords.cons_newline hline)
      rw [Alternative.words, List.cons_append, List.append_assoc]
      exact hblock.cons_else (by simp [braced])
  | elseIf hcondition hbody hnext =>
      have hrest := hnext.fits hspell words hwords hline
      have hblock := Stmt.Fits.braced (fun stmt hstmt => (hbody stmt hstmt).fits hspell) hrest
      rw [Alternative.words, List.cons_append, List.append_assoc, List.append_assoc]
      apply Renderable.cons_word _ rfl
      exact hcondition.fits hspell _ hblock (by simp [braced])

end

/-! ## Programs -/

theorem Program.Printable.renderable (hspell : IsSpelling spell) {P : Program}
    (h : P.Printable) : Renderable (P.words spell) := by
  have hclose : Renderable [TokenKind.programEnd.word] := Renderable.nil.cons_word rfl
  obtain ⟨hbody, honLine⟩ := Stmt.Fits.list (fun stmt hstmt => (h stmt hstmt).fits hspell)
    hclose (by simp)
  exact (hbody.cons_newline honLine).cons_word rfl

end Bol
