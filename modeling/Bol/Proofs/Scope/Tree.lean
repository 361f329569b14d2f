/-
# The laws of scope trees

Making scopes, declaring names and assigning to them build a tree, whether each of them succeeds or
fails. A parent is made before its children, so the chain of a scope follows the parents up to a
root, and resolving a name leads to the nearest scope that holds it. From this follows what one
operation does to the look-up of every name from every scope of the tree: a declaration is seen from
the scopes that reach its own with no holder of the name before it, an assignment from the scopes
that resolve the name to the same holder, and all other look-ups are as before.
-/

import Mathlib.Logic.Relation
import Bol.Scope.Tree

namespace Bol.Scope.Tree

/-! ## Trees and their operations -/

/-- There is a scope at the place. -/
def IsPlace (tree : Tree) (place : Nat) : Prop := place < tree.nodes.size

instance (tree : Tree) (place : Nat) : Decidable (tree.IsPlace place) :=
  inferInstanceAs (Decidable (place < tree.nodes.size))

/-- What is done to a tree of scopes. -/
inductive Operation
  | grow (parent : Option Nat)
  | declare (place : Nat) (name : String) (value : Value)
  | assign (place : Nat) (name : String) (value : Value)

/-- The scopes that an operation concerns are in the tree. -/
def Operation.IsAbout (tree : Tree) : Operation → Prop
  | .grow parent => ∀ place ∈ parent, tree.IsPlace place
  | .declare place _ _ | .assign place _ _ => tree.IsPlace place

instance (tree : Tree) : (operation : Operation) → Decidable (operation.IsAbout tree)
  | .grow parent => inferInstanceAs (Decidable (∀ place ∈ parent, tree.IsPlace place))
  | .declare place _ _ | .assign place _ _ => inferInstanceAs (Decidable (tree.IsPlace place))

/-- Does an operation: whether it succeeds, and the tree afterwards. -/
def perform (tree : Tree) : Operation → Except Fault Unit × Tree
  | .grow parent => (.ok (), tree.grow parent)
  | .declare place name value => settle (tree.declare place name value)
  | .assign place name value => settle (tree.assign place name value)
where
  /-- A failure leaves the tree as it is. -/
  settle : Except Fault Tree → Except Fault Unit × Tree
    | .ok after => (.ok (), after)
    | .error fault => (.error fault, tree)

/-- The trees that operations build, failed ones included. -/
inductive Built : Tree → Prop
  | empty : Built .empty
  | perform {tree : Tree} {operation : Operation} (h : Built tree)
      (habout : operation.IsAbout tree) :
      Built (tree.perform operation).2

/-! ## Parents -/

/-- The parent of a scope, if it has one. -/
def parent? (tree : Tree) (place : Nat) : Option Nat := tree.nodes[place]?.bind Node.parent

/-- The second scope is the parent of the first. -/
def IsParent (tree : Tree) (child parent : Nat) : Prop := tree.parent? child = some parent

instance (tree : Tree) (child parent : Nat) : Decidable (tree.IsParent child parent) :=
  inferInstanceAs (Decidable (tree.parent? child = some parent))

/-- One scope leads to another along parents. -/
def Reaches (tree : Tree) : Nat → Nat → Prop := Relation.ReflTransGen tree.IsParent

/-- One scope leads to another along parents, and none before the latter holds the name. -/
def ReachesFreely (tree : Tree) (name : String) : Nat → Nat → Prop :=
  Relation.ReflTransGen fun child parent => tree.has child name = false ∧ tree.IsParent child parent

/-- Parents are made before their children. -/
def IsOrdered (tree : Tree) : Prop := ∀ child parent, tree.IsParent child parent → parent < child

variable {tree : Tree} {place child parent : Nat} {name other : String} {value : Value}
  {scope : Scope}

theorem isParent_put :
    (tree.put place scope).IsParent child parent ↔ tree.IsParent child parent := by
  unfold IsParent parent? put
  rw [Array.getElem?_modify]
  split
  · rename_i hsame
    subst hsame
    cases tree.nodes[place]? <;> rfl
  · rfl

theorem isParent_grow {root : Option Nat} :
    (tree.grow root).IsParent child parent ↔
      tree.IsParent child parent ∨ child = tree.nodes.size ∧ root = some parent := by
  unfold IsParent parent? grow
  rw [Array.getElem?_push]
  split
  · rename_i hsame
    subst hsame
    simp
  · simp_all

theorem declare_eq_ok {after : Tree} (h : tree.declare place name value = .ok after) :
    tree.has place name = false ∧ after = tree.put place ((tree.scopeAt place).add name value) := by
  unfold declare Scope.declare? at h
  cases hhas : (tree.scopeAt place).has name <;> rw [hhas] at h <;> cases h
  exact ⟨hhas, rfl⟩

theorem assign_eq_ok {after : Tree} (h : tree.assign place name value = .ok after) :
    ∃ found, tree.resolve? place name = some found ∧
      after = tree.put found ((tree.scopeAt found).set name value) := by
  unfold assign at h
  cases hfound : tree.resolve? place name <;> rw [hfound] at h <;> cases h
  exact ⟨_, rfl, rfl⟩

theorem IsOrdered.put (h : tree.IsOrdered) (place : Nat) (scope : Scope) :
    (tree.put place scope).IsOrdered :=
  fun child parent hparent => h child parent (isParent_put.mp hparent)

/-- Operations keep parents before their children. -/
theorem IsOrdered.perform {operation : Operation} (h : tree.IsOrdered)
    (habout : operation.IsAbout tree) : (tree.perform operation).2.IsOrdered := by
  cases operation with
  | grow root =>
      intro child parent hparent
      obtain hparent | ⟨rfl, rfl⟩ := isParent_grow.mp hparent
      · exact h child parent hparent
      · exact habout parent rfl
  | declare place name value =>
      change (Tree.perform.settle tree (tree.declare place name value)).2.IsOrdered
      cases hresult : tree.declare place name value with
      | error => exact h
      | ok after => exact (declare_eq_ok hresult).2 ▸ h.put _ _
  | assign place name value =>
      change (Tree.perform.settle tree (tree.assign place name value)).2.IsOrdered
      cases hresult : tree.assign place name value with
      | error => exact h
      | ok after =>
          obtain ⟨found, -, rfl⟩ := assign_eq_ok hresult
          exact h.put _ _

theorem Built.isOrdered (h : tree.Built) : tree.IsOrdered := by
  induction h with
  | empty => exact fun _ _ hparent => by simp [IsParent, parent?, Tree.empty] at hparent
  | perform _ habout ih => exact ih.perform habout

/-! ## Resolving names -/

/-- A scope that holds the name resolves it to itself, and any other one leaves it to its parent. -/
theorem IsOrdered.resolve?_eq (h : tree.IsOrdered) (place : Nat) (name : String) :
    tree.resolve? place name =
      if tree.has place name then some place
      else (tree.parent? place).bind (tree.resolve? · name) := by
  have hchain : tree.chain place = place :: ((tree.parent? place).map tree.chain).getD [] := by
    rw [chain, ← parent?]
    cases hparent : tree.parent? place with
    | none => rfl
    | some parent => simp [h place parent hparent]
  unfold resolve?
  rw [hchain, List.find?_cons]
  cases tree.has place name with
  | true => rfl
  | false => cases tree.parent? place <;> rfl

/-- Scopes above the first one are reached through its parent. -/
theorem reachesFreely_iff {found : Nat} :
    tree.ReachesFreely name place found ↔
      place = found ∨ tree.has place name = false ∧
        ∃ parent, tree.IsParent place parent ∧ tree.ReachesFreely name parent found := by
  unfold ReachesFreely
  rw [Relation.ReflTransGen.cases_head_iff]
  simp only [and_assoc, exists_and_left]

theorem reaches_iff {found : Nat} :
    tree.Reaches place found ↔
      place = found ∨ ∃ parent, tree.IsParent place parent ∧ tree.Reaches parent found :=
  Relation.ReflTransGen.cases_head_iff

/-- Parents come before children, so what passes from parents to their children holds of all scopes.
-/
theorem IsOrdered.induction (h : tree.IsOrdered) {p : Nat → Prop}
    (hchild : ∀ place, (∀ parent, tree.IsParent place parent → p parent) → p place) (place : Nat) :
    p place := by
  induction place using Nat.strongRecOn with
  | ind place ih => exact hchild place fun parent hparent => ih parent (h place parent hparent)

/-- A name is resolved to the nearest scope that holds it. -/
theorem IsOrdered.resolve?_eq_some_iff (h : tree.IsOrdered) {found : Nat} :
    tree.resolve? place name = some found ↔
      tree.ReachesFreely name place found ∧ tree.has found name = true := by
  induction place using h.induction with
  | hchild place ih =>
      rw [h.resolve?_eq, reachesFreely_iff]
      cases hhas : tree.has place name with
      | true =>
          constructor
          · rintro ⟨⟩
            exact ⟨.inl rfl, hhas⟩
          · rintro ⟨rfl | ⟨hnot, -⟩, -⟩
            · rfl
            · cases hnot
      | false =>
          simp only [Bool.false_eq_true, ↓reduceIte, Option.bind_eq_some_iff, true_and]
          constructor
          · rintro ⟨parent, hparent, hfound⟩
            obtain ⟨hreaches, hholds⟩ := (ih parent hparent).mp hfound
            exact ⟨.inr ⟨parent, hparent, hreaches⟩, hholds⟩
          · rintro ⟨rfl | ⟨parent, hparent, hreaches⟩, hholds⟩
            · rw [hhas] at hholds
              cases hholds
            · exact ⟨parent, hparent, (ih parent hparent).mpr ⟨hreaches, hholds⟩⟩

/-- A name is not resolved where no scope of the chain holds it. -/
theorem IsOrdered.resolve?_eq_none_iff (h : tree.IsOrdered) :
    tree.resolve? place name = none ↔
      ∀ found, tree.Reaches place found → tree.has found name = false := by
  induction place using h.induction with
  | hchild place ih =>
      rw [h.resolve?_eq]
      cases hhas : tree.has place name with
      | true =>
          refine ⟨nofun, fun hnone => ?_⟩
          rw [hnone place .refl] at hhas
          cases hhas
      | false =>
          simp only [Bool.false_eq_true, ↓reduceIte, Option.bind_eq_none_iff]
          constructor
          · intro hnone found hreaches
            obtain rfl | ⟨parent, hparent, hreaches⟩ := reaches_iff.mp hreaches
            · exact hhas
            · exact (ih parent hparent).mp (hnone parent hparent) found hreaches
          · intro hnone parent hparent
            exact (ih parent hparent).mpr fun found hreaches =>
              hnone found (reaches_iff.mpr (.inr ⟨parent, hparent, hreaches⟩))

/-- What a look-up comes to in the scope that the name is resolved to. -/
theorem get_of_resolve? {found : Nat} (h : tree.resolve? place name = some found)
    (hvalue : (tree.scopeAt found).get? name = some value) : tree.get place name = .ok value := by
  rw [get, h, Option.bind_some, hvalue]

theorem get_of_resolve?_eq_none (h : tree.resolve? place name = none) :
    tree.get place name = .error (.undeclared name) := by
  rw [get, h]
  rfl

/-- Look-ups agree in trees that resolve a name to the same scope and bind it there to the same
value. -/
theorem get_congr {tree' : Tree} (hresolve : tree'.resolve? place name = tree.resolve? place name)
    (hvalue : ∀ found, tree.resolve? place name = some found →
      (tree'.scopeAt found).get? name = (tree.scopeAt found).get? name) :
    tree'.get place name = tree.get place name := by
  unfold get
  rw [hresolve]
  cases hfound : tree.resolve? place name with
  | none => rfl
  | some found => rw [Option.bind_some, Option.bind_some, hvalue found hfound]

/-! ## What operations change -/

theorem scopeAt_put (h : tree.IsPlace place) (other : Nat) :
    (tree.put place scope).scopeAt other = if other = place then scope else tree.scopeAt other := by
  unfold scopeAt put
  rw [Array.getElem?_modify]
  split
  · rename_i hsame
    subst hsame
    rw [if_pos rfl, Array.getElem?_eq_getElem h]
    rfl
  · rename_i hother
    rw [if_neg (Ne.symm hother)]

/-- After a declaration one scope more holds the name. -/
theorem has_declared (h : tree.IsPlace place) (holder : Nat) :
    (tree.put place ((tree.scopeAt place).add name value)).has holder other = true ↔
      tree.has holder other = true ∨ holder = place ∧ other = name := by
  unfold has
  rw [scopeAt_put h]
  split
  · rename_i hsame
    subst hsame
    simp only [has_eq_true_iff, names_add, List.mem_cons, true_and, or_comm]
  · rename_i hne
    simp only [hne, false_and, or_false]

/-- After an assignment the same scopes hold the same names. -/
theorem has_assigned (h : tree.IsPlace place) (holder : Nat) :
    (tree.put place ((tree.scopeAt place).set name value)).has holder other =
      tree.has holder other := by
  unfold has
  rw [scopeAt_put h]
  split
  · rename_i hsame
    subst hsame
    rw [Bool.eq_iff_iff, has_eq_true_iff, has_eq_true_iff, names_set]
  · rfl

/-- Only scopes of the tree hold names. -/
theorem isPlace_of_has (h : tree.has place name = true) : tree.IsPlace place := by
  refine Nat.lt_of_not_le fun hle => ?_
  unfold has scopeAt at h
  rw [Array.getElem?_eq_none hle] at h
  cases h

theorem parent?_put (start : Nat) : (tree.put place scope).parent? start = tree.parent? start :=
  Option.ext fun _ => isParent_put

/-- Where the same scopes hold a name it is resolved to the same scope. -/
theorem IsOrdered.resolve?_put (h : tree.IsOrdered)
    (hhas : ∀ holder, (tree.put place scope).has holder name = tree.has holder name) (start : Nat) :
    (tree.put place scope).resolve? start name = tree.resolve? start name := by
  induction start using h.induction with
  | hchild start ih =>
      rw [(h.put place scope).resolve?_eq, h.resolve?_eq, hhas, parent?_put]
      split
      · rfl
      · exact Option.bind_congr ih

section Declared

variable (h : tree.IsOrdered) (hplace : tree.IsPlace place)
include h hplace

/-- The declared name is resolved to the scope of the declaration where no other holder comes first.
-/
theorem resolve?_declared_of_reachesFreely {start : Nat}
    (hreaches : tree.ReachesFreely name start place) :
    (tree.put place ((tree.scopeAt place).add name value)).resolve? start name = some place := by
  induction start using h.induction with
  | hchild start ih =>
      rw [(h.put _ _).resolve?_eq, parent?_put]
      obtain rfl | ⟨hnot, parent, hparent, hreaches⟩ := reachesFreely_iff.mp hreaches
      · rw [if_pos ((has_declared hplace start).mpr (.inr ⟨rfl, rfl⟩))]
      · split
        · rename_i hhas
          obtain hhas | ⟨rfl, -⟩ := (has_declared hplace start).mp hhas
          · rw [hhas] at hnot
            cases hnot
          · rfl
        · rw [hparent]
          exact ih parent hparent hreaches

/-- Elsewhere names are resolved as before. -/
theorem resolve?_declared {start : Nat}
    (hnot : ¬ (other = name ∧ tree.ReachesFreely name start place)) :
    (tree.put place ((tree.scopeAt place).add name value)).resolve? start other =
      tree.resolve? start other := by
  by_cases hname : other = name
  · subst hname
    induction start using h.induction with
    | hchild start ih =>
        rw [and_iff_right rfl, reachesFreely_iff, not_or] at hnot
        have hhas : (tree.put place ((tree.scopeAt place).add other value)).has start other =
            tree.has start other := by
          rw [Bool.eq_iff_iff, has_declared hplace]
          simp [hnot.1]
        rw [(h.put _ _).resolve?_eq, h.resolve?_eq, hhas, parent?_put]
        split
        · rfl
        · rename_i hlacks
          refine Option.bind_congr fun parent hparent => ih parent hparent fun hreaches => ?_
          exact hnot.2 ⟨by simpa using hlacks, parent, hparent, hreaches.2⟩
  · refine h.resolve?_put (fun holder => ?_) start
    rw [Bool.eq_iff_iff, has_declared hplace]
    simp [hname]

end Declared

/-! ## Operations as a whole -/

theorem settle_of_error {result : Except Fault Tree} {fault : Fault}
    (h : (perform.settle tree result).1 = .error fault) :
    (perform.settle tree result).2 = tree := by
  cases result with
  | ok => cases h
  | error => rfl

/-- A new scope holds no names. -/
theorem scopeAt_grow {root : Option Nat} (holder : Nat) :
    (tree.grow root).scopeAt holder = tree.scopeAt holder := by
  unfold scopeAt grow
  rw [Array.getElem?_push]
  split
  · rename_i hsame
    subst hsame
    simp
  · rfl

/-- Look-ups from the scopes of a tree do not depend on scopes that are made later. -/
theorem IsOrdered.get_grow (h : tree.IsOrdered) {root : Option Nat}
    (habout : (Operation.grow root).IsAbout tree) (hplace : tree.IsPlace place) :
    (tree.grow root).get place name = tree.get place name := by
  have hparent : ∀ start, tree.IsPlace start →
      (tree.grow root).parent? start = tree.parent? start := by
    intro start hstart
    refine Option.ext fun parent => isParent_grow.trans ⟨?_, .inl⟩
    rintro (hparent | ⟨rfl, -⟩)
    · exact hparent
    · exact absurd hstart (Nat.lt_irrefl _)
  have hhas : ∀ holder, (tree.grow root).has holder name = tree.has holder name := fun holder =>
    congrArg (Scope.has · name) (scopeAt_grow holder)
  have hgrown : (tree.grow root).IsOrdered := h.perform habout
  have hresolve : (tree.grow root).resolve? place name = tree.resolve? place name := by
    induction place using h.induction with
    | hchild place ih =>
        rw [hgrown.resolve?_eq, h.resolve?_eq, hhas, hparent place hplace]
        split
        · rfl
        · exact Option.bind_congr fun parent hchild =>
            ih parent hchild (Nat.lt_trans (h place parent hchild) hplace)
  exact get_congr hresolve fun found _ => by rw [scopeAt_grow]

/-- The names that scopes hold by themselves after an operation. -/
theorem has_perform {operation : Operation} (habout : operation.IsAbout tree) :
    (tree.perform operation).2.has place name = true ↔ tree.has place name = true ∨
      (tree.perform operation).1 = .ok () ∧ ∃ value, operation = .declare place name value := by
  cases operation with
  | grow root =>
      have hhas : (tree.grow root).has place name = tree.has place name :=
        congrArg (Scope.has · name) (scopeAt_grow place)
      simp [perform, hhas]
  | declare holder bound value =>
      change (perform.settle tree (tree.declare holder bound value)).2.has place name = true ↔ _ ∨
        (perform.settle tree (tree.declare holder bound value)).1 = .ok () ∧ _
      cases hresult : tree.declare holder bound value with
      | error fault => simp [perform.settle]
      | ok after =>
          obtain ⟨-, rfl⟩ := declare_eq_ok hresult
          simp [perform.settle, has_declared habout, @eq_comm _ place, @eq_comm _ name]
  | assign holder bound value =>
      change (perform.settle tree (tree.assign holder bound value)).2.has place name = true ↔ _
      cases hresult : tree.assign holder bound value with
      | error fault => simp [perform.settle]
      | ok after =>
          obtain ⟨found, hfound, rfl⟩ := assign_eq_ok hresult
          have hplace : tree.IsPlace found :=
            isPlace_of_has (List.find?_some (p := (tree.has · bound)) hfound)
          simp [perform.settle, has_assigned hplace]

/-! ## The laws -/

/-- What an operation comes to that binds a name for some of the scopes: from these the name has the
value, and every other look-up is as before. -/
structure Binds (tree after : Tree) (name : String) (value : Value) (concerned : Nat → Prop) :
    Prop where
  bound : ∀ place, concerned place → after.get place name = .ok value
  kept : ∀ place other, ¬ (other = name ∧ concerned place) →
    after.get place other = tree.get place other

theorem binds_declare {after : Tree} (h : tree.IsOrdered) (hplace : tree.IsPlace place)
    (hdeclare : tree.declare place name value = .ok after) :
    Binds tree after name value (tree.ReachesFreely name · place) := by
  obtain ⟨-, rfl⟩ := declare_eq_ok hdeclare
  refine ⟨fun start hreaches => ?_, fun start other hnot => ?_⟩
  · refine get_of_resolve? (resolve?_declared_of_reachesFreely h hplace hreaches) ?_
    rw [scopeAt_put hplace, if_pos rfl, get?_add, if_pos rfl]
  · refine get_congr (resolve?_declared h hplace hnot) fun found hfound => ?_
    rw [scopeAt_put hplace]
    split
    · rename_i hsame
      subst hsame
      -- The name is another one, for the scope would hold it already.
      rw [get?_add, if_neg]
      rintro rfl
      exact hnot ⟨rfl, (h.resolve?_eq_some_iff.mp hfound).1⟩
    · rfl

theorem binds_assign {after : Tree} (h : tree.IsOrdered)
    (hassign : tree.assign place name value = .ok after) :
    Binds tree after name value fun start =>
      tree.resolve? start name = tree.resolve? place name := by
  obtain ⟨found, hfound, rfl⟩ := assign_eq_ok hassign
  have hholds := (h.resolve?_eq_some_iff.mp hfound).2
  have hplace := isPlace_of_has hholds
  have hresolve : ∀ start other,
      (tree.put found ((tree.scopeAt found).set name value)).resolve? start other =
      tree.resolve? start other :=
    fun start other => h.resolve?_put (fun holder => has_assigned hplace holder) start
  refine ⟨fun start hsame => ?_, fun start other hnot => ?_⟩
  · refine get_of_resolve? ((hresolve start name).trans (hsame.trans hfound)) ?_
    obtain ⟨old, hold⟩ := Option.isSome_iff_exists.mp hholds
    rw [scopeAt_put hplace, if_pos rfl, get?_set, if_pos rfl, hold]
    rfl
  · refine get_congr (hresolve start other) fun other' hother => ?_
    rw [scopeAt_put hplace]
    split
    · rename_i hsame
      subst hsame
      rw [get?_set, if_neg]
      rintro rfl
      exact hnot ⟨rfl, hother.trans hfound.symm⟩
    · rfl

theorem declare_eq_error_iff :
    tree.declare place name value = .error (.alreadyDeclared name) ↔
      tree.has place name = true := by
  unfold declare Scope.declare? has
  cases (tree.scopeAt place).has name <;> simp

theorem assign_eq_error_iff :
    tree.assign place name value = .error (.assignUndeclared name) ↔
      tree.resolve? place name = none := by
  unfold assign
  cases tree.resolve? place name <;> simp

/-- A name that is resolved has a value. -/
theorem IsOrdered.exists_get (h : tree.IsOrdered) {found : Nat}
    (hfound : tree.resolve? place name = some found) :
    ∃ value, (tree.scopeAt found).get? name = some value ∧ tree.get place name = .ok value := by
  have hholds := (h.resolve?_eq_some_iff.mp hfound).2
  obtain ⟨value, hvalue⟩ := Option.isSome_iff_exists.mp hholds
  exact ⟨value, hvalue, get_of_resolve? hfound hvalue⟩

/-- What holds in a tree of scopes for every operation. -/
structure IsLawful (tree : Tree) : Prop where
  /-- A declaration fails if its own scope holds the name, whatever its parents do. -/
  declare_fails : ∀ place name value, tree.IsPlace place →
    (tree.declare place name value = .error (.alreadyDeclared name) ↔ tree.has place name = true)
  /-- Otherwise it binds the name for the scopes that reach its own with no holder before it. -/
  declare_binds : ∀ place name value, tree.IsPlace place → tree.has place name = false →
    ∃ after, tree.declare place name value = .ok after ∧
      Binds tree after name value (tree.ReachesFreely name · place)
  /-- An assignment fails if no scope of the chain holds the name. -/
  assign_fails : ∀ place name value, tree.IsPlace place →
    (tree.assign place name value = .error (.assignUndeclared name) ↔
      ∀ holder, tree.Reaches place holder → tree.has holder name = false)
  /-- Otherwise it binds the name for the scopes that resolve it to the same holder. -/
  assign_binds : ∀ place name value holder, tree.IsPlace place → tree.Reaches place holder →
    tree.has holder name = true →
      ∃ after, tree.assign place name value = .ok after ∧
        Binds tree after name value fun start => tree.resolve? start name = tree.resolve? place name
  /-- A name is resolved to the nearest scope of the chain that holds it. -/
  resolve : ∀ place name holder, tree.resolve? place name = some holder ↔
    tree.ReachesFreely name place holder ∧ tree.has holder name = true
  get_fails : ∀ place name,
    tree.get place name = .error (.undeclared name) ↔ tree.resolve? place name = none
  /-- Otherwise the value is that of the name in the scope that it is resolved to. -/
  get_finds : ∀ place name holder, tree.resolve? place name = some holder →
    ∃ value, (tree.scopeAt holder).get? name = some value ∧ tree.get place name = .ok value
  /-- No look-up from a scope that exists depends on the scopes made later. -/
  grow_keeps : ∀ root place name, (Operation.grow root).IsAbout tree → tree.IsPlace place →
    (tree.grow root).get place name = tree.get place name
  /-- The names that a scope holds by itself change only by a declaration in it that succeeds. -/
  has_changes : ∀ operation, operation.IsAbout tree → ∀ place name,
    ((tree.perform operation).2.has place name = true ↔ tree.has place name = true ∨
      (tree.perform operation).1 = .ok () ∧ ∃ value, operation = .declare place name value)
  failed_keeps : ∀ operation fault, operation.IsAbout tree →
    (tree.perform operation).1 = .error fault → (tree.perform operation).2 = tree

/-- Every tree that operations build, failed ones included, is lawful. -/
theorem Built.isLawful (h : tree.Built) : tree.IsLawful where
  declare_fails _ _ _ _ := declare_eq_error_iff
  declare_binds place name value hplace hhas := by
    have hdeclare : tree.declare place name value =
        .ok (tree.put place ((tree.scopeAt place).add name value)) := by
      unfold declare Scope.declare?
      rw [if_neg (by simpa [has] using hhas)]
    exact ⟨_, hdeclare, binds_declare h.isOrdered hplace hdeclare⟩
  assign_fails _ _ _ _ := assign_eq_error_iff.trans h.isOrdered.resolve?_eq_none_iff
  assign_binds place name value holder _ hreaches hhas := by
    cases hfound : tree.resolve? place name with
    | none =>
        rw [h.isOrdered.resolve?_eq_none_iff.mp hfound holder hreaches] at hhas
        cases hhas
    | some found =>
        have hassign : tree.assign place name value =
            .ok (tree.put found ((tree.scopeAt found).set name value)) := by
          rw [assign, hfound]
        exact ⟨_, hassign, hfound ▸ binds_assign h.isOrdered hassign⟩
  resolve _ _ _ := h.isOrdered.resolve?_eq_some_iff
  get_fails place name := by
    refine ⟨fun hfails => ?_, get_of_resolve?_eq_none⟩
    cases hfound : tree.resolve? place name with
    | none => rfl
    | some found =>
        obtain ⟨value, -, hget⟩ := h.isOrdered.exists_get hfound
        cases hget.symm.trans hfails
  get_finds _ _ _ := h.isOrdered.exists_get
  grow_keeps _ _ _ := h.isOrdered.get_grow
  has_changes operation habout place name := has_perform habout
  failed_keeps operation fault _ hfails := by
    cases operation with
    | grow => cases hfails
    | declare => exact settle_of_error hfails
    | assign => exact settle_of_error hfails

/-- Four scopes, each the parent of the next, of which the first and the third hold the name `x`;
its second declaration in the first one fails. -/
def shadowing : Tree :=
  [Operation.grow none, .declare 0 "x" (.string "outer"), .declare 0 "x" .null, .grow (some 0),
    .grow (some 1), .declare 2 "x" (.string "inner"), .grow (some 2)].foldl
    (fun tree operation => (tree.perform operation).2) .empty

/-- A declaration in the second scope is not seen from behind the third, and an assignment from the
last one is seen there alone. -/
theorem isLawful_shadowing :
    shadowing.Built ∧ shadowing.IsLawful ∧
      (∃ after, shadowing.declare 1 "x" .null = .ok after ∧ after.get 1 "x" = .ok .null ∧
        after.get 3 "x" = shadowing.get 3 "x") ∧
      ∃ after, shadowing.assign 3 "x" .null = .ok after ∧ after.get 2 "x" = .ok .null ∧
        after.get 1 "x" = shadowing.get 1 "x" := by
  have hbuilt : shadowing.Built := by
    refine .perform (.perform (.perform (.perform (.perform (.perform (.perform .empty ?_) ?_) ?_)
      ?_) ?_) ?_) ?_ <;> decide +kernel
  have hlawful := hbuilt.isLawful
  have hbetween : shadowing.resolve? 3 "x" = some 2 := by decide +kernel
  obtain ⟨after, hdeclare, hbinds⟩ :=
    hlawful.declare_binds 1 "x" .null (by decide +kernel) (by decide +kernel)
  obtain ⟨after', hassign, hbinds'⟩ := hlawful.assign_binds 3 "x" .null 2 (by decide +kernel)
    (.single (by decide +kernel)) (by decide +kernel)
  refine ⟨hbuilt, hlawful, ⟨after, hdeclare, hbinds.bound 1 .refl, hbinds.kept 3 "x" ?_⟩,
    after', hassign, hbinds'.bound 2 (by decide +kernel), hbinds'.kept 1 "x" (by decide +kernel)⟩
  rintro ⟨-, hreaches⟩
  obtain hsame | ⟨-, parent, hparent, hreaches⟩ := reachesFreely_iff.mp hreaches
  · cases hsame
  · obtain rfl : parent = 2 := Option.some.inj (hparent.symm.trans (by decide +kernel))
    obtain hsame | ⟨hlacks, -⟩ := reachesFreely_iff.mp hreaches
    · cases hsame
    · exact absurd hlacks (by decide +kernel)

end Bol.Scope.Tree
