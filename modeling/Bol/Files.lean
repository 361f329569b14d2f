/-
# Files and paths

The files that a program may be read from: a tree of directories below the working directory, and
the paths that lead into it. A path is followed name by name, so every name before the last one
has to be that of a directory, also where the path leaves it again.
-/

import Bol.Text.Lines

namespace Bol

/-- What a path may lead to. -/
inductive Entry
  | file (content : ByteArray)
  | directory

/-- Entries below the working directory, by the names that lead to them. The directories on the
way to an entry exist without being listed. -/
structure Files where
  entries : List (List String × Entry)

namespace Path

/-- The names in a path, with an empty one before, between and after neighbouring slashes. -/
def names (path : String) : List String := (Text.pieces '/' path.toList).map String.ofList

/-- Goes along names from a place that lies below the root by the names in `place`, the last one
first: empty names and single dots stay there, two dots go up, and nothing is above the root. -/
def follow (place : List String) : List String → List String
  | [] => place
  | name :: rest =>
    if name = "" ∨ name = "." then follow place rest
    else if name = ".." then follow place.tail rest
    else follow (name :: place) rest

/-- The path from the root that leads to the same place, for someone who is in the directory
`current`, without regard to what exists. A path that starts with exactly two slashes keeps
both. -/
def absolute (current path : String) : String :=
  let start := if path.toList.head? = some '/' then [] else follow [] (names current)
  let slashes :=
    if "//".toList.isPrefixOf path.toList ∧ path.toList[2]? ≠ some '/' then "//" else "/"
  slashes ++ "/".intercalate (follow start (names path)).reverse

/-- What follows the last slash of a path. -/
def lastName (path : String) : String := (names path).getLast?.getD ""

end Path

namespace Files

def empty : Files := ⟨[]⟩

/-- What stands at a place below the working directory. -/
def at? (files : Files) (place : List String) : Option Entry :=
  match files.entries.lookup place with
  | some entry => some entry
  | none =>
    if place.isEmpty || files.entries.any (fun entry => place.isPrefixOf entry.1) then
      some .directory
    else none

/-- Follows names from a place below the working directory, the last name of the place first. -/
def walk? (files : Files) (place : List String) : List String → Option Entry
  | [] => files.at? place.reverse
  | name :: rest =>
    match files.at? place.reverse with
    | some .directory =>
      if name = "" ∨ name = "." then walk? files place rest
      else if name = ".." then
        match place with
        | [] => none
        | _ :: above => walk? files above rest
      else walk? files (name :: place) rest
    | _ => none

/-- The content of the file that a path leads to. Paths from the root lead to no known file. -/
def read? (files : Files) (path : String) : Option ByteArray :=
  if path = "" ∨ path.toList.head? = some '/' then none
  else
    match files.walk? [] (Path.names path) with
    | some (.file content) => some content
    | _ => none

end Files

end Bol
