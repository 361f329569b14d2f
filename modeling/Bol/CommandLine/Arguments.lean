/-
# Command-line arguments

How the arguments of a command are told apart. An argument that starts with `-` is a flag; a flag
may be cut short as long as it stays unambiguous, and short flags may be written together. A `--`
ends the flags. Numbers below zero, and anything with a blank in it, are no flags. A command has
at most one slot for arguments that are no flags; whatever it has no use for is left over.
-/

import Bol.Text.Characters
import Bol.Text.Quoted

namespace Bol.CommandLine

/-- How the program ends: its status and what it has written. -/
structure Exit where
  status : Nat
  stdout : String
  stderr : String
  deriving DecidableEq, Repr

/-- A flag without a value, by its names. Using it ends the program. -/
structure Flag where
  names : List String
  exit : Exit
  deriving DecidableEq, Repr

/-- A flag as messages mention it. -/
def Flag.label (flag : Flag) : String := "/".intercalate flag.names

/-- The slot of a command for arguments that are no flags. -/
inductive Slot
  | nothing
  /-- One argument. -/
  | single
  /-- The name of another command and all its arguments. -/
  | command
  deriving DecidableEq, Repr

structure Command where
  name : String
  usage : String
  flags : List Flag
  slot : Slot

/-- What an argument is taken for. -/
inductive Mark
  /-- A flag under one of its names, and the text attached to it, if there is any. -/
  | flag (flag : Flag) (name : String) (attached : Option (List Char))
  | unknownFlag
  | argument
  /-- The `--` that ends the flags. -/
  | separator

def Mark.isFlag : Mark → Bool
  | flag .. | unknownFlag => true
  | argument | separator => false

def Mark.isSeparator : Mark → Bool
  | separator => true
  | _ => false

/-- Whether a text is a number below zero: a minus sign and digits of any script, with a point
before the last of them or none. A line feed may follow. -/
def isNegativeNumber (text : List Char) : Bool :=
  match if text.getLast? = some '\n' then text.dropLast else text with
  | '-' :: number =>
    match number.dropWhile Text.isDecimalDigit with
    | [] => !number.isEmpty
    | '.' :: fraction => !fraction.isEmpty && fraction.all Text.isDecimalDigit
    | _ => false
  | _ => false

namespace Command

/-- Ends the program because its arguments make no sense. -/
def refuse (command : Command) (message : String) : Exit :=
  ⟨2, "", s!"usage: {command.usage}\n{command.name}: error: {message}\n"⟩

/-- The names of flags, in order, with the flags. -/
def flagNames (command : Command) : List (String × Flag) :=
  command.flags.flatMap fun flag => flag.names.map (·, flag)

/-- The flags that an argument may stand for without being the full name of one. A long one may
be cut short; a short one may have text attached. -/
def candidates (command : Command) (text : List Char) : List (String × Mark) :=
  let cut := text.takeWhile (· != '=')
  let attached := if cut.length < text.length then some (text.drop (cut.length + 1)) else none
  command.flagNames.filterMap fun (name, flag) =>
    if "--".toList.isPrefixOf text then
      if cut.isPrefixOf name.toList then
        some (name, .flag flag name attached)
      else none
    else if name.toList = text.take 2 then
      some (name, .flag flag name (some (text.drop 2)))
    else if text.isPrefixOf name.toList then some (name, .flag flag name none)
    else none

/-- What an argument before any `--` is taken for. -/
def mark (command : Command) (arg : String) : Except Exit Mark :=
  let text := arg.toList
  let cut := String.ofList (text.takeWhile (· != '='))
  match text with
  | [] => .ok .argument
  | c :: rest =>
    if c ≠ '-' then .ok .argument
    else
      match command.flagNames.lookup arg with
      | some flag => .ok (.flag flag arg none)
      | none =>
        if rest = [] then .ok .argument
        else
          match if cut.length < text.length then command.flagNames.lookup cut else none with
          | some flag => .ok (.flag flag cut (some (text.drop (cut.length + 1))))
          | none =>
            match command.candidates text with
            | [(_, mark)] => .ok mark
            | first :: second :: more =>
              let names := ", ".intercalate ((first :: second :: more).map Prod.fst)
              .error (command.refuse s!"ambiguous option: {arg} could match {names}")
            | [] =>
              if isNegativeNumber text ∨ text.contains ' ' then .ok .argument
              else .ok .unknownFlag

/-- What each argument is taken for. -/
def marks (command : Command) : List String → Except Exit (List (Mark × String))
  | [] => .ok []
  | arg :: rest =>
    if arg = "--" then .ok ((.separator, arg) :: rest.map (.argument, ·))
    else do
      let mark ← command.mark arg
      return (mark, arg) :: (← marks command rest)

/-- Refuses text attached to a flag that has no use for it. -/
def refuseAttached (command : Command) (flag : Flag) (text : List Char) : Exit :=
  command.refuse
    s!"argument {flag.label}: ignored explicit argument {Text.quoted (.ofList text)}"

/-- Uses a short flag with text attached: more short flags, each known. `used` is the first of
them and `flag` the last one before the text. -/
def useShort (command : Command) (used flag : Flag) : List Char → Exit
  | [] => command.refuseAttached flag []
  | c :: rest =>
    match command.flagNames.lookup (.ofList ['-', c]), rest with
    | none, _ => command.refuseAttached flag (c :: rest)
    | some _, [] => used.exit
    | some next, d :: rest => useShort command used next (d :: rest)

/-- Uses a flag. -/
def useFlag (command : Command) (flag : Flag) (name : String) : Option (List Char) → Exit
  | none => flag.exit
  | some text =>
    if "--".toList.isPrefixOf name.toList then command.refuseAttached flag text
    else command.useShort flag flag text

/-- How many arguments from the front fill the slot. -/
def fill (command : Command) (marks : List Mark) : Nat :=
  let opening := (marks.takeWhile Mark.isSeparator).length
  match command.slot, marks.drop opening with
  | .single, .argument :: rest => opening + 1 + (rest.takeWhile Mark.isSeparator).length
  | .command, .argument :: _ => marks.length
  | _, _ => 0

/-- How many of some marked arguments fill the slot, unless it is filled already. -/
def filling (command : Command) (filled : Option (List String)) (args : List (Mark × String)) :
    Nat :=
  if filled.isNone then command.fill (args.map Prod.fst) else 0

/-- Goes through marked arguments: what fills the slot, if anything does, and what is left over.
`filled` and `left` are what was found so far. -/
def assign (command : Command) (filled : Option (List String)) (left : List String)
    (args : List (Mark × String)) : Except Exit (Option (List String) × List String) :=
  let count := command.filling filled args
  if args.any (·.1.isFlag) then
    match args with
    | [] => .ok (filled, left)
    | (.flag flag name attached, _) :: _ => .error (command.useFlag flag name attached)
    | (.unknownFlag, arg) :: rest => assign command filled (left ++ [arg]) rest
    | first :: rest =>
      if 0 < count then
        assign command (some (((first :: rest).take count).map Prod.snd)) left
          ((first :: rest).drop count)
      else
        assign command filled
          (left ++ first.2 :: (rest.takeWhile (!·.1.isFlag)).map Prod.snd)
          (rest.dropWhile (!·.1.isFlag))
  else if 0 < count then
    .ok (some ((args.take count).map Prod.snd), left ++ (args.drop count).map Prod.snd)
  else .ok (filled, left ++ args.map Prod.snd)
termination_by args.length
decreasing_by
  · simp
  · simp only [List.length_drop, List.length_cons]; omega
  · exact Nat.lt_succ_of_le (List.dropWhile_suffix _).length_le

/-- What fills the slot of a command, if anything does, and what is left over. -/
def read (command : Command) (args : List String) :
    Except Exit (Option (List String) × List String) := do
  command.assign none [] (← command.marks args)

end Command

end Bol.CommandLine
