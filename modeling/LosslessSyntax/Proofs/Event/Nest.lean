import LosslessSyntax.Event.Script
import LosslessSyntax.Proofs.Outline

/-!
# Proofs/Event/Nest — building the tree at once

What a recorder writes down, a nest does at once: it keeps the outlines of every open node, the
innermost first.  A node that is opened begins empty, one that is closed goes to the end of the node
around it, and one that encloses a closed node takes it, with everything behind it, out of the current
node.  Nodes have numbers, since open nodes must be closed from the inside out and a closed node can be
enclosed only where it stands.
-/

namespace LosslessSyntax

/-- An outline in an open node.  It has a number as long as it may be enclosed. -/
structure Item where
  handle : Option Nat
  outline : Outline
  deriving Repr, Inhabited

/-- An open node: its number, and the items that stand before it in the node around it. -/
structure Scope where
  opened : Nat
  before : List Item
  deriving Repr, Inhabited

/-- The open nodes of a tree under construction, above a base that is not a node. -/
structure Nest where
  /-- The items of the innermost open node. -/
  current : List Item
  /-- The open nodes, the innermost first. -/
  scopes : List Scope
  deriving Repr, Inhabited

namespace Nest

/-- Nothing has been built. -/
def empty : Nest := ⟨[], []⟩

/-- Adds an outline to the current node. -/
def add (g : Nest) (o : Outline) : Nest := { g with current := g.current ++ [⟨none, o⟩] }

/-- Opens a node. -/
def start (g : Nest) (number : Nat) : Nest := ⟨[], ⟨number, g.current⟩ :: g.scopes⟩

/-- Closes the innermost open node, if it is the one of that number. -/
def close? (g : Nest) (number : Nat) (kind : SyntaxKind) (handle : Nat) : Option Nest :=
  match g.scopes with
  | [] => none
  | s :: ss =>
    if s.opened = number then
      some ⟨s.before ++ [⟨some handle, .node kind (g.current.map Item.outline)⟩], ss⟩
    else none

/-- The items before the one with a handle, its outline, and the items after it. -/
def split? (handle : Nat) : List Item → Option (List Item × Outline × List Item)
  | [] => none
  | it :: its =>
    if it.handle = some handle then some ([], it.outline, its)
    else (split? handle its).map fun p => (it :: p.1, p.2)

/-- Opens a node that takes a closed one and everything behind it out of the current node. -/
def enclose? (g : Nest) (handle number : Nat) : Option Nest :=
  (split? handle g.current).map fun p => ⟨⟨none, p.2.1⟩ :: p.2.2, ⟨number, p.1⟩ :: g.scopes⟩

theorem eq_append_of_split? {handle : Nat} {its : List Item}
    {p : List Item × Outline × List Item} (h : split? handle its = some p) :
    its = p.1 ++ ⟨some handle, p.2.1⟩ :: p.2.2 := by
  induction its generalizing p with
  | nil => exact absurd h (by simp [split?])
  | cons it its ih =>
    rw [split?] at h
    split at h
    · next hit =>
      obtain rfl := Option.some.inj h
      rw [← hit, List.nil_append]
    · obtain ⟨q, hq, rfl⟩ := Option.map_eq_some_iff.mp h
      rw [ih hq, List.cons_append]

end Nest

/-! ## Scripts -/

/-- A tree under construction over the words of a text, with the numbers that the next nodes get. -/
structure Construction where
  /-- The words that are still to be read. -/
  rest : List Lexeme
  /-- How many nodes have been opened. -/
  opened : Nat
  /-- How many nodes have been closed. -/
  closed : Nat
  nest : Nest
  deriving Repr

namespace Construction

/-- Nothing has been built over a text. -/
def ofLexemes (ls : List Lexeme) : Construction := ⟨Lexeme.significant ls, 0, 0, .empty⟩

/-- Adds the next word, if there is one. -/
def take (b : Construction) : Construction :=
  match b.rest with
  | [] => b
  | l :: ls => { b with rest := ls, nest := b.nest.add (.word l) }

open Recorder (Step) in
/-- Carries out a step; nothing if it is not one that builds, or is used where the nesting does not
allow it. -/
def step (b : Construction) : Step → Option Construction
  | .start => some { b with opened := b.opened + 1, nest := b.nest.start b.opened }
  | .close i kind =>
    (b.nest.close? i kind b.closed).map fun nest => { b with closed := b.closed + 1, nest }
  | .enclose i => (b.nest.enclose? i b.opened).map fun nest => { b with opened := b.opened + 1, nest }
  | .take => some b.take
  | .complain c => some { b with nest := b.nest.add (.error c) }
  | _ => none

/-- **Carries out a script**: the outlines it builds, if it keeps to the nesting and closes every
node. -/
def run (b : Construction) : List Recorder.Step → Option (List Outline)
  | [] => if b.nest.scopes.isEmpty then some (b.nest.current.map Item.outline) else none
  | x :: xs => (b.step x).bind fun b => b.run xs

end Construction

end LosslessSyntax
