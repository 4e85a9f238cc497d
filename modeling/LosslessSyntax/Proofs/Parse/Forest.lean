import LosslessSyntax.Proofs.Body.PostOrder
import LosslessSyntax.Proofs.Parse.Meaning

/-!
# Proofs/Parse/Forest — how the expressions of a parse are numbered

A tree that was put together by hand may lose an expression, but never shares one.  In a parse every sign
is an operator, so nothing is lost either, and the numbers of the expressions follow the text: from left
to right, operands before what is made of them.
-/

namespace LosslessSyntax

open Lexeme (significant tokenize)

namespace Parse

variable {os : List Outline} {ls : List Lexeme}

/-- Of two expressions of a parse, the one with the smaller number comes first in post-order. -/
theorem precedes_of_lt (hreads : Grammar.ReadsFile (significant ls) os) (hpos : ∀ l ∈ ls, 0 < l.length)
    {i j : ExprId} (hij : i < j) {p q : SyntaxPointer}
    (hp : (Lowering.ofFile (ofOutlines os ls).root).map.origin? i = some p)
    (hq : (Lowering.ofFile (ofOutlines os ls).root).map.origin? j = some q) : p.Precedes q := by
  have ordered : (ofOutlines os ls).root.IsOrdered := by
    refine isOrdered_of_mem_nodes hreads hpos ?_
    rw [nodes_root]
    exact List.mem_cons_self
  exact Lowering.precedes_of_lt (fun c => isTidy_of_mem_children hreads hpos)
    (SyntaxTree.isNested_placedAt _ 0) ordered.pairwise hij hp hq

/-- **The arena of a body is a forest that is numbered in post-order.**  Whatever tree a body is read off,
all that is referred to is there, operands have smaller numbers than what is made of them, and nothing is
referred to twice.  If the tree is that of a text, everything is referred to exactly once, the statements
are about expressions with rising numbers, and of two expressions that come from nodes, the node of the one
with the smaller number ends before the other begins or is inside the other. -/
theorem numbersInPostOrder :
    (∀ t : SyntaxTree, (Body.ofFile t.placed).IsForest) ∧
    ∀ text : String, ∃ p, ofText text = .ok p ∧
      (Body.ofFile p.root).references.Perm (List.range (Body.ofFile p.root).exprs.size) ∧
      ((Body.ofFile p.root).statements.toList.map Stmt.value).Pairwise (· < ·) ∧
      ∀ (i j : ExprId) (q r : SyntaxPointer), i < j →
        (Lowering.ofFile p.root).map.origin? i = some q →
        (Lowering.ofFile p.root).map.origin? j = some r → q.Precedes r := by
  refine ⟨fun t => (Body.grows_ofFile t.placed).isForest, fun text => ?_⟩
  obtain ⟨os, hreads, htext⟩ := ofText_eq text
  have hpos : ∀ l ∈ tokenize text, 0 < l.length := fun _ => Lexeme.length_pos_of_mem_tokenize
  refine ⟨_, htext, ?_, (Body.grows_ofFile _).rising, fun i j q r hij hq hr => ?_⟩
  · exact Body.references_perm_ofFile fun c => isTidy_of_mem_children hreads hpos
  · exact precedes_of_lt hreads hpos hij hq hr

end Parse

end LosslessSyntax
