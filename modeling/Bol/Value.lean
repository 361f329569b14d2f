/-
# Values

What expressions evaluate to. A function value carries the number of the declaration that made
it: declaring a function twice makes two functions, and a function equals only itself.
-/

import Bol.Number
import Bol.Program

namespace Bol

/-- A declared function. It holds no variables: its body sees its parameters and the globals. -/
structure Function where
  id : Nat
  name : String
  params : List String
  body : List Stmt
  deriving Inhabited

/-- How a function is shown. -/
def Function.display (function : Function) : String := s!"<karya {function.name}>"

inductive Value
  | null
  | boolean (value : Bool)
  | number (value : Float)
  | string (value : String)
  | function (function : Function)
  deriving Inhabited

/-- The types of values. -/
inductive ValueType
  | null | boolean | number | string | function
  deriving DecidableEq, Repr

def ValueType.name : ValueType → String
  | null => "null"
  | boolean => "boolean"
  | number => "number"
  | string => "string"
  | function => "function"

namespace Value

def type : Value → ValueType
  | null => .null
  | boolean _ => .boolean
  | number _ => .number
  | string _ => .string
  | function _ => .function

/-- The text that printing a value shows, and that joining it to a string adds. -/
def display : Value → String
  | null => "shunya"
  | boolean true => "khara"
  | boolean false => "khota"
  | number value => Number.text value
  | string value => value
  | function value => value.display

/-- Values of different types are never equal, what is no number is not equal to itself, and
functions are told apart by their declarations. -/
def equal : Value → Value → Bool
  | null, null => true
  | boolean a, boolean b => a == b
  | number a, number b => a == b
  | string a, string b => a == b
  | function a, function b => a.id == b.id
  | _, _ => false

end Value

end Bol
