import LosslessSyntax.Proofs.Parse.Meaning
import LosslessSyntax.Proofs.Tree.Pointer

/-!
# Proofs/Parse/Pointers — pointers into a parse

A pointer remembers only kind and range, and yet there is but one node of a parse that it can mean.  No
node below the root is empty, whatever was missing when it was made; and each has a word of its own, so
it is longer than any node inside it.  The root alone may consist of a single statement, but its kind
occurs nowhere else.
-/

namespace LosslessSyntax

open Lexeme (significant tokenize extent)
open SyntaxKind
open Element (nodesAll)

/-- No rule makes a file inside a file. -/
theorem Grammar.Made.kind_ne_sourceFile {kind : SyntaxKind} {os : List Outline} {ws : List Lexeme}
    (h : Made kind os ws) : kind ≠ sourceFile := by
  rcases h with _ | _ | _ | _ | _ | _ | _ | _ | _ <;> simp

namespace Parse

variable {os : List Outline} {ls : List Lexeme} {e : Element}

/-- A node below the root covers something. -/
theorem start_lt_stop (hreads : Grammar.ReadsFile (significant ls) os)
    (hpos : ∀ l ∈ ls, 0 < l.length) (he : e ∈ nodesAll (ofOutlines os ls).root.children) :
    e.start < e.stop := by
  have hshaped := (isShaped_and_isOrdered hreads hpos he).1
  obtain ⟨kind, ts, place, rfl, hts⟩ :=
    SyntaxTree.exists_of_mem_nodes_placedAt _ (Element.mem_nodes_of_mem_children he)
  obtain ⟨⟨l, hl, -⟩, -⟩ := hshaped.trimmed
  rw [← Element.leaves_tree, SyntaxTree.tree_placedAt, SyntaxTree.leaves_node] at hl
  have hleaves : ∀ l ∈ SyntaxTree.leavesAll ts, 0 < l.length := by
    intro l hl
    have hmem := hts l hl
    rw [tree_ofOutlines, Outline.leaves_planted hreads.wordsAll_eq.symm] at hmem
    exact hpos l hmem
  have := Lexeme.extent_pos (List.ne_nil_of_mem (List.mem_of_head? hl)) hleaves
  rw [SyntaxTree.start_placedAt, SyntaxTree.stop_placedAt, SyntaxTree.leaves_node]
  omega

/-- **The nodes of a parse can be told apart** by kind and range. -/
theorem isDiscernible_root (hreads : Grammar.ReadsFile (significant ls) os)
    (hpos : ∀ l ∈ ls, 0 < l.length) : (ofOutlines os ls).root.IsDiscernible := by
  have hroot := isRoot_ofOutlines hreads.wordsAll_eq.symm
  have kind_ne : ∀ m ∈ nodesAll (ofOutlines os ls).root.children, m.kind ≠ sourceFile := by
    intro m hm
    obtain ⟨kind, ps, vs, hstands⟩ := hroot.stands_of_mem_nodesAll hreads.every hm
    rw [hstands.kind_eq]
    exact hstands.holds.kind_ne_sourceFile
  refine ⟨?_, SyntaxTree.isNested_placedAt _ 0, fun n hn => start_lt_stop hreads hpos hn, ?_⟩
  · intro n hn
    exact (isOrdered_of_mem_nodes hreads hpos hn).pairwise
  · intro n hn m hm heq
    rw [nodes_root] at hn
    rcases List.mem_cons.mp hn with rfl | hn
    · have hkind : m.kind = (ofOutlines os ls).root.kind := congrArg SyntaxPointer.kind heq
      exact kind_ne m hm (hkind.trans hroot.kind_eq)
    · obtain ⟨shaped, ordered⟩ := isShaped_and_isOrdered hreads hpos hn
      obtain ⟨w, hw, hword⟩ := shaped.exists_word (kind_ne n hn)
      obtain ⟨kind, ts, place, rfl, -⟩ :=
        SyntaxTree.exists_of_mem_nodes_placedAt _ (Element.mem_nodes_of_mem_children hn)
      exact ordered.range_ne (SyntaxTree.isNested_placedAt _ _) hw hword hm
        (congrArg SyntaxPointer.range heq)

/-- **Syntax pointers are unambiguous.**  No two nodes of the tree of a text have the same kind and range,
and the pointer to a node leads back to that very node, whatever construct it is expected to be, if it is
one. -/
theorem pointers_unambiguous (text : String) : ∃ p, ofText text = .ok p ∧
    (p.root.nodes.map SyntaxPointer.of).Nodup ∧
    ∀ n ∈ p.root.nodes, ∀ v : View, v.accepts n.kind = true →
      (SyntaxPointer.of n).toNode v p.root = .ok n := by
  obtain ⟨os, hreads, htext⟩ := ofText_eq text
  have h := isDiscernible_root hreads fun _ => Lexeme.length_pos_of_mem_tokenize
  exact ⟨_, htext, h.nodup, fun n hn v hv => SyntaxPointer.toNode_of h hn hv⟩

end Parse

end LosslessSyntax
