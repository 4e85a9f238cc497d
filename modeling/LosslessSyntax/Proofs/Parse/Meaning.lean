import LosslessSyntax.Proofs.Body.Erasure
import LosslessSyntax.Proofs.Parse.Schema

/-!
# Proofs/Parse/Meaning — what a parse means

Every node of a parse has its shape and its children in order, so the body of a parse is made of what
the tree means.  Since trivia has no part in that, only what was read matters, and not where
(`Parse.body_ofOutlines`).  The body unfolds to what is left of the tree without its spelling
(`Parse.erasure_ofOutlines`).
-/

namespace LosslessSyntax

open Lexeme (significant tokenize)
open SyntaxKind

/-- **What outlines mean** as the statements of a file. -/
def Outline.sentences (os : List Outline) : List Sentence :=
  (bareAll os).filterMap SyntaxTree.sentence?

theorem Outline.sentences_cons {o : Outline} {u : SyntaxTree} {s : Sentence} (hu : o.bare = [u])
    (hs : u.sentence? = some s) (os : List Outline) :
    Outline.sentences (o :: os) = s :: Outline.sentences os := by
  rw [Outline.sentences, bareAll_cons, hu, List.singleton_append, List.filterMap_cons, hs, sentences]

/-- Without trivia, the tree of a file is the tree of what was read. -/
theorem Outline.bare_planted {os : List Outline} {ls : List Lexeme}
    (h : significant ls = wordsAll os) : (planted os ls).bare = .node sourceFile (bareAll os) :=
  bare_rooted sourceFile h

namespace Parse

variable {os : List Outline} {ls : List Lexeme} {r e : Element}

/-- A node below the root has its shape. -/
theorem IsRoot.isShaped (h : IsRoot os ls r) (hreads : Grammar.ReadsFile (significant ls) os)
    (he : e ∈ Element.nodesAll r.children) : e.IsShaped := by
  obtain ⟨kind, ps, vs, hstands⟩ := h.stands_of_mem_nodesAll hreads.every he
  refine ⟨?_, hstands.isTrimmed fun _ _ _ => Grammar.Made.wordsAll_ne_nil⟩
  rw [hstands.kind_eq, hstands.parts_eq]
  exact hstands.holds.fits

/-- Every node has its children in order. -/
theorem isOrdered_of_mem_nodes (hreads : Grammar.ReadsFile (significant ls) os)
    (hpos : ∀ l ∈ ls, 0 < l.length) (he : e ∈ (ofOutlines os ls).root.nodes) : e.IsOrdered := by
  refine SyntaxTree.isOrdered_of_mem_nodes ?_ he
  rw [tree_ofOutlines, Outline.leaves_planted hreads.wordsAll_eq.symm]
  exact hpos

/-- Every node below the root has its shape and its children in order. -/
theorem isShaped_and_isOrdered (hreads : Grammar.ReadsFile (significant ls) os)
    (hpos : ∀ l ∈ ls, 0 < l.length) (he : e ∈ Element.nodesAll (ofOutlines os ls).root.children) :
    e.IsShaped ∧ e.IsOrdered :=
  ⟨(isRoot_ofOutlines hreads.wordsAll_eq.symm).isShaped hreads he,
    isOrdered_of_mem_nodes hreads hpos (Element.mem_nodes_of_mem_children he)⟩

/-- **Every child of the root is tidy.** -/
theorem isTidy_of_mem_children (hreads : Grammar.ReadsFile (significant ls) os)
    (hpos : ∀ l ∈ ls, 0 < l.length) (he : e ∈ (ofOutlines os ls).root.children) : e.IsTidy :=
  fun _ hn => isShaped_and_isOrdered hreads hpos (Element.mem_nodesAll he hn)

/-- The words of a parse are lexemes of the text. -/
theorem isOf_root {text : String} (hreads : Grammar.ReadsFile (significant (tokenize text)) os) :
    (ofOutlines os (tokenize text)).root.IsOf text := by
  intro l hl
  rwa [← Element.leaves_tree, root, SyntaxTree.placed, SyntaxTree.tree_placedAt, tree_ofOutlines,
    Outline.leaves_planted hreads.wordsAll_eq.symm] at hl

/-- A parse means what was read, wherever it was read. -/
theorem sentences_ofOutlines (hreads : Grammar.ReadsFile (significant ls) os) :
    (ofOutlines os ls).root.tree.sentences = Outline.sentences os := by
  rw [root, SyntaxTree.placed, SyntaxTree.tree_placedAt, tree_ofOutlines, ← SyntaxTree.sentences_bare,
    Outline.bare_planted hreads.wordsAll_eq.symm]
  rfl

/-- **A sentence of a text is legible.** -/
theorem legible_of_mem_sentences {text : String}
    (hreads : Grammar.ReadsFile (significant (tokenize text)) os) {s : Sentence}
    (hs : s ∈ Outline.sentences os) : s.Legible := by
  rw [← sentences_ofOutlines hreads, SyntaxTree.sentences, Element.children_tree] at hs
  obtain ⟨t, ht, hs⟩ := List.mem_filterMap.mp hs
  obtain ⟨c, hc, rfl⟩ := List.mem_map.mp ht
  have htidy := isTidy_of_mem_children hreads (fun l => Lexeme.length_pos_of_mem_tokenize) hc
  exact Element.legible_of_sentence? htidy ((isOf_root hreads).of_mem_children hc) hs

/-- **The body of a parse is made of what was read.** -/
theorem body_ofOutlines (hreads : Grammar.ReadsFile (significant ls) os)
    (hpos : ∀ l ∈ ls, 0 < l.length) :
    Body.ofFile (ofOutlines os ls).root = Body.ofSentences (Outline.sentences os) := by
  rw [Body.ofFile_eq fun c => isTidy_of_mem_children hreads hpos, sentences_ofOutlines hreads]

/-- What is left of the tree of a text without its spelling is what the tree means. -/
theorem erasure_ofOutlines {text : String}
    (hreads : Grammar.ReadsFile (significant (tokenize text)) os) :
    (ofOutlines os (tokenize text)).tree.erasure =
      (ofOutlines os (tokenize text)).root.tree.sentences := by
  have htree : (ofOutlines os (tokenize text)).root.tree = (ofOutlines os (tokenize text)).tree :=
    SyntaxTree.tree_placedAt _ _
  rw [← htree]
  exact Element.erasure_tree
    (fun c => isTidy_of_mem_children hreads fun _ => Lexeme.length_pos_of_mem_tokenize)
    fun c => (isOf_root hreads).of_mem_children

/-- **Reading a body off a tree erases its spelling.**  Of every text, the statements of the body unfold
to what is left of the statements of the tree, one by one, and they are written as that is, in a line for
each, with every operation in parentheses. -/
theorem unfoldsToErasure (text : String) : ∃ p, ofText text = .ok p ∧
    (Body.ofFile p.root).unfolded = p.tree.erasure.map some ∧
    (Body.ofFile p.root).pretty = String.join (p.tree.erasure.map Sentence.render) := by
  obtain ⟨os, hreads, htext⟩ := ofText_eq text
  refine ⟨_, htext, ?_⟩
  have hbody := Body.says_ofSentences (ofOutlines os (tokenize text)).root.tree.sentences
  rw [← Body.ofFile_eq fun c => isTidy_of_mem_children hreads fun _ => Lexeme.length_pos_of_mem_tokenize]
    at hbody
  rw [erasure_ofOutlines hreads]
  exact ⟨hbody.unfolded_eq, hbody.pretty_eq⟩

end Parse

end LosslessSyntax
