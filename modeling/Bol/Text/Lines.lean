/-
# Lines of text

A text has one line more than it has line feeds. Files may end their lines in other ways: a
carriage return, alone or before a line feed, is read as a line feed. Blanks at the ends of a text
can be trimmed.
-/

import Bol.Text.Characters

namespace Bol.Text

/-- The text without the blanks at its end. -/
def trimEnd (text : List Char) : List Char := (text.reverse.dropWhile isBlank).reverse

/-- The text without the blanks at both ends. -/
def trim (text : List Char) : List Char := trimEnd (text.dropWhile isBlank)

/-- The pieces of a text between the places of a separator: one more than there are of those. -/
def pieces (separator : Char) (text : List Char) : List (List Char) :=
  text.foldr (fun c pieces =>
      if c = separator then [] :: pieces
      else
        match pieces with
        | [] => [[c]]
        | piece :: rest => (c :: piece) :: rest)
    [[]]

/-- The lines of a text, without their ends. -/
def lines (text : List Char) : List (List Char) := pieces '\n' text

/-- The text with a line feed for every other way to end a line; `read` collects what was read so
far, the last character first. -/
def unifyLineEnds (read : List Char) : List Char → List Char
  | [] => read.reverse
  | '\r' :: '\n' :: rest => unifyLineEnds ('\n' :: read) rest
  | '\r' :: rest => unifyLineEnds ('\n' :: read) rest
  | c :: rest => unifyLineEnds (c :: read) rest

end Bol.Text
