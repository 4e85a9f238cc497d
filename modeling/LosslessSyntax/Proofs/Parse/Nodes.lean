import LosslessSyntax.Proofs.Grammar.Schema
import LosslessSyntax.Proofs.Parse.Lossless
import LosslessSyntax.Proofs.Tree.Placement

/-!
# Proofs/Parse/Nodes — the nodes of a parse

A node of a parse is the root, whose children stand for what was read and are followed by the trivia at
the end of the text, or it stands for one of the nodes that were read.
-/

namespace LosslessSyntax

open Lexeme (significant tokenize)

namespace Parse

/-- **The root of a parse**: its children stand for what was read, with trivia behind them. -/
inductive IsRoot (os : List Outline) (ls : List Lexeme) : Element → Prop
  | intro {es trail : List Element} {mid stop : Nat} (row : Row ls 0 os [] es mid)
      (trivia : ∀ e ∈ trail, e.isTrivia = true) :
      IsRoot os ls (.node .sourceFile 0 stop (es ++ trail))

theorem nodes_root (os : List Outline) (ls : List Lexeme) : (ofOutlines os ls).root.nodes =
    (ofOutlines os ls).root :: Element.nodesAll (ofOutlines os ls).root.children := by
  rw [root, tree_ofOutlines, Outline.planted, SyntaxTree.placed, SyntaxTree.placedAt_node,
    Element.nodes_node]
  rfl

theorem isRoot_ofOutlines {os : List Outline} {ls : List Lexeme}
    (h : significant ls = Outline.wordsAll os) : IsRoot os ls (ofOutlines os ls).root := by
  obtain ⟨es, trail, mid, stop, hplaced, row, trivia⟩ := Outline.exists_row_rooted .sourceFile h
  change IsRoot os ls (Outline.rooted .sourceFile os ls).placed
  rw [hplaced]
  exact .intro row trivia

variable {P : SyntaxKind → List Outline → List Lexeme → Prop} {os : List Outline} {ls : List Lexeme}

theorem IsRoot.kind_eq {r : Element} (h : IsRoot os ls r) : r.kind = .sourceFile := by
  obtain ⟨-, -⟩ := h
  rfl

/-- **A node of a parse is the root or stands for a node that was read.** -/
theorem IsRoot.eq_or_stands {r e : Element} (h : IsRoot os ls r) (hos : Outline.EveryAll P os [])
    (he : e ∈ r.nodes) : e = r ∨ ∃ kind ps vs, e.Stands P ls kind ps vs := by
  obtain ⟨row, trivia⟩ := h
  rw [Element.nodes_node, Element.nodesAll_append, Element.nodesAll_of_isTrivia trivia,
    List.append_nil] at he
  exact (List.mem_cons.mp he).imp_right fun he => row.exists_of_mem_nodes hos he

/-- A node below the root stands for a node that was read. -/
theorem IsRoot.stands_of_mem_nodesAll {r e : Element} (h : IsRoot os ls r)
    (hos : Outline.EveryAll P os []) (he : e ∈ Element.nodesAll r.children) :
    ∃ kind ps vs, e.Stands P ls kind ps vs := by
  obtain ⟨row, trivia⟩ := h
  rw [Element.children, Element.nodesAll_append, Element.nodesAll_of_isTrivia trivia,
    List.append_nil] at he
  exact row.exists_of_mem_nodes hos he

/-- A node among the children of the root stands for one of the outlines. -/
theorem IsRoot.stands_of_mem {r c : Element} (h : IsRoot os ls r) (hos : Outline.EveryAll P os [])
    (hc : c ∈ r.children) (hn : c.isNode = true) : ∃ before kind ps after,
      os = before ++ .node kind ps :: after ∧ c.Stands P ls kind ps (Outline.wordsAll after) := by
  obtain ⟨row, trivia⟩ := h
  rcases List.mem_append.mp hc with hc | hc
  · obtain ⟨before, kind, ps, after, hsplit, hstands⟩ := row.stands_of_mem hos hc hn
    exact ⟨before, kind, ps, after, hsplit, by rwa [List.append_nil] at hstands⟩
  · exact absurd hn (by simp [Element.isNode_of_isTrivia (trivia c hc)])

/-- A word that was read belongs to the file itself or to a node. -/
theorem IsRoot.exists_of_mem_wordsAll {r : Element} (h : IsRoot os ls r)
    (hos : Outline.EveryAll P os []) {l : Lexeme} (hl : l ∈ Outline.wordsAll os) : .word l ∈ os ∨
      ∃ e ∈ r.nodes, ∃ kind ps vs, e.Stands P ls kind ps vs ∧ .word l ∈ ps := by
  obtain ⟨row, -⟩ := h
  refine (row.exists_of_mem_wordsAll hos hl).imp_right fun ⟨e, he, hstands⟩ => ⟨e, ?_, hstands⟩
  rw [Element.nodes_node, Element.nodesAll_append]
  simp [he]

end Parse

end LosslessSyntax
