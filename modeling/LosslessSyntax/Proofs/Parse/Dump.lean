import LosslessSyntax.Proofs.Parse.Acceptance
import LosslessSyntax.Proofs.Tree.Bare
import LosslessSyntax.Proofs.Tree.Dump

/-!
# Proofs/Parse/Dump — parses are told apart by their dumps

Every wording of an error is one line, so a dump determines what it shows of the tree and where the errors
are and what they say.  Only the rest of long words is not shown: two texts with the same dump are the
same if they have no long words.
-/

namespace LosslessSyntax

open Lexeme (significant tokenize)

theorem SyntaxTree.lexemes_placed (t : SyntaxTree) : t.placed.lexemes = t.leaves := by
  rw [← Element.leaves_tree, placed, tree_placedAt]

namespace Parse

variable {text : String} {p q : Parse}

/-- **The wording of an error is one line.** -/
theorem lineFeed_notMem_message (h : ofText text = .ok p) :
    ∀ e ∈ p.errors, '\n' ∉ e.message.toList := by
  have hwordings : ∀ c ∈ .literalTooLarge :: Grammar.repertoire, '\n' ∉ c.message.toList := by
    decide +kernel
  obtain ⟨os, hreads, hp⟩ := ofText_eq text
  obtain rfl := Except.ok.inj (h.symm.trans hp)
  intro e he
  refine hwordings e.complaint ?_
  rcases List.mem_append.mp he with he | he
  · exact List.mem_cons_of_mem _ (Outline.complaint_mem_repertoire hreads he)
  · obtain ⟨n, -, rfl⟩ := List.mem_map.mp he
    exact List.mem_cons_self

/-- **A dump determines the parse.**  Two texts have the same dump exactly if the same is shown of their
trees, that is, the nesting and the kinds and ranges of all nodes and words, and their errors are in the
same places and say the same in the same order; and texts without words of 25 bytes or more have the same
dump only if they are the same. -/
theorem dump_determines (text text' : String) : ∃ p q, ofText text = .ok p ∧ ofText text' = .ok q ∧
    (p.dump = q.dump ↔ p.root.sketch = q.root.sketch ∧
      p.errors.map (fun e => (e.location, e.message)) =
        q.errors.map fun e => (e.location, e.message)) ∧
    (p.dump = q.dump → (∀ l ∈ p.tree.leaves, l.length < 25) → text = text') := by
  obtain ⟨-, p, -, -, -, hp, -, -, htext⟩ := lossless text
  obtain ⟨-, q, -, -, -, hq, -, -, htext'⟩ := lossless text'
  have hdump := SyntaxTree.dump_eq_iff (t := p.tree) (u := q.tree) (lineFeed_notMem_message hp)
    (lineFeed_notMem_message hq)
  refine ⟨p, q, hp, hq, hdump, fun h hshort => ?_⟩
  rw [← SyntaxTree.lexemes_placed] at hshort
  have hleaves := Element.lexemes_eq_of_sketch_eq hshort (hdump.mp h).1
  rw [SyntaxTree.lexemes_placed, SyntaxTree.lexemes_placed] at hleaves
  calc text = Lexeme.spell p.tree.leaves := htext.symm
    _ = Lexeme.spell q.tree.leaves := by rw [hleaves]
    _ = text' := htext'

/-- Names of 27 letters that differ in the last one, and blanks that differ. -/
theorem dump_determines_long : (∃ p q, ofText "let abcdefghijklmnopqrstuvwxyza = 1 +" = .ok p ∧
      ofText "let abcdefghijklmnopqrstuvwxyzb = 1 +" = .ok q ∧ p.dump = q.dump ∧
      p.root.sketch = q.root.sketch ∧ p.errors.map (fun e => (e.location, e.message)) =
        q.errors.map fun e => (e.location, e.message)) ∧
    ∃ p q, ofText "let a = 1\n+" = .ok p ∧ ofText "let a = 1\r+" = .ok q ∧
      (∀ l ∈ p.tree.leaves, l.length < 25) ∧ p.dump ≠ q.dump := by
  constructor
  · obtain ⟨p, q, hp, hq, h, -⟩ := dump_determines "let abcdefghijklmnopqrstuvwxyza = 1 +"
      "let abcdefghijklmnopqrstuvwxyzb = 1 +"
    have hsame : (ofText "let abcdefghijklmnopqrstuvwxyza = 1 +").toOption.map dump =
        (ofText "let abcdefghijklmnopqrstuvwxyzb = 1 +").toOption.map dump := by
      decide +kernel
    rw [hp, hq] at hsame
    have hdump := Option.some.inj hsame
    exact ⟨p, q, hp, hq, hdump, h.mp hdump⟩
  · obtain ⟨p, q, hp, hq, -, h⟩ := dump_determines "let a = 1\n+" "let a = 1\r+"
    have hshort : ((ofText "let a = 1\n+").toOption.all fun p =>
        p.tree.leaves.all fun l => decide (l.length < 25)) = true := by
      decide +kernel
    rw [hp] at hshort
    have hshort : ∀ l ∈ p.tree.leaves, l.length < 25 := by
      simpa [Except.toOption] using hshort
    exact ⟨p, q, hp, hq, hshort, fun hdump => absurd (h hdump hshort) (by decide)⟩

end Parse

end LosslessSyntax
