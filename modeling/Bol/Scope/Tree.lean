/-
# Trees of scopes

Scopes that stay: every scope but the roots has a parent, and any number of scopes may share one.
The chain of a scope leads from it along its parents to a root. Unlike the chains of a run, which
come and go with blocks and calls, all scopes of a tree can be used at any time.
-/

import Bol.Fault
import Bol.Scope

namespace Bol.Scope

/-- A scope of a tree and the place of its parent. -/
structure Node where
  parent : Option Nat
  scope : Scope

/-- Scopes in the order in which they were made, known by their places in it. -/
structure Tree where
  nodes : Array Node

namespace Tree

def empty : Tree := ⟨#[]⟩

/-- Makes an empty scope; its place is the number of scopes made before. -/
def grow (tree : Tree) (parent : Option Nat) : Tree := ⟨tree.nodes.push ⟨parent, .empty⟩⟩

/-- The scope at a place; there is an empty one everywhere else. -/
def scopeAt (tree : Tree) (place : Nat) : Scope := (tree.nodes[place]?.map Node.scope).getD .empty

/-- Whether the scope at a place holds a name by itself. -/
def has (tree : Tree) (place : Nat) (name : String) : Bool := (tree.scopeAt place).has name

/-- The places from a scope along its parents to a root. A parent is made before its children, so
places fall along the chain. -/
def chain (tree : Tree) (place : Nat) : List Nat :=
  place ::
    match (tree.nodes[place]?).bind Node.parent with
    | none => []
    | some parent => if parent < place then chain tree parent else []
termination_by place

/-- The first place on the chain of a scope whose scope holds a name. -/
def resolve? (tree : Tree) (place : Nat) (name : String) : Option Nat :=
  (tree.chain place).find? (tree.has · name)

/-- Puts another scope at a place. -/
def put (tree : Tree) (place : Nat) (scope : Scope) : Tree :=
  ⟨tree.nodes.modify place fun node => { node with scope }⟩

/-- Declares a name in one scope. -/
def declare (tree : Tree) (place : Nat) (name : String) (value : Value) : Except Fault Tree :=
  match (tree.scopeAt place).declare? name value with
  | some scope => .ok (tree.put place scope)
  | none => .error (.alreadyDeclared name)

/-- Assigns to a name in the first scope of a chain that holds it. -/
def assign (tree : Tree) (place : Nat) (name : String) (value : Value) : Except Fault Tree :=
  match tree.resolve? place name with
  | some found => .ok (tree.put found ((tree.scopeAt found).set name value))
  | none => .error (.assignUndeclared name)

/-- The value of a name in the first scope of a chain that holds it. -/
def get (tree : Tree) (place : Nat) (name : String) : Except Fault Value :=
  match (tree.resolve? place name).bind fun found => (tree.scopeAt found).get? name with
  | some value => .ok value
  | none => .error (.undeclared name)

end Tree

end Bol.Scope
