import LosslessSyntax.Parse
import LosslessSyntax.Proofs.Event.Nesting
import LosslessSyntax.Proofs.Grammar.Junction
import LosslessSyntax.Proofs.Grammar.Recording
import LosslessSyntax.Proofs.Tree.Sinking

/-!
# Proofs/Parse/Lossless — every text has a tree, and the tree has every word

The stages of a parse fit together: what the grammar reads is recorded without a failure, the record is
replayed without a broken link, and the sink plants what was read among all lexemes of the text.  So a
parse is a matter of the rules of the grammar and of planting alone (`ofText_eq`).
-/

namespace LosslessSyntax

open Lexeme (significant tokenize)
open SyntaxTree (leaf leavesAll)

/-! ## The tree of a file -/

/-- The tree of a file among its lexemes: the root has the trivia at the end of the text inside. -/
def Outline.planted (os : List Outline) (ls : List Lexeme) : SyntaxTree :=
  .node .sourceFile ((plantAll os 0 ls).trees ++ (plantAll os 0 ls).rest.map leaf)

theorem Outline.leaves_planted {os : List Outline} {ls : List Lexeme}
    (h : significant ls = wordsAll os) : (planted os ls).leaves = ls :=
  leaves_rooted .sourceFile h

namespace Parse

/-! ## The record of a file -/

/-- **What the grammar reads is recorded and replayed**, and in the end no node is open. -/
theorem record_eq (ls : List Lexeme) : ∃ os log, Grammar.ReadsFile (significant ls) os ∧
    record ls = .ok log ∧ (∀ i : Nat, log[i]? ≠ some .hole) ∧
    Event.replay log = ⟨(Outline.node .sourceFile os).calls.toArray, none⟩ := by
  obtain ⟨os, hreads, poised⟩ := Grammar.reads_file (Grammar.poised_ofTokens ls)
  change Recorder.Poised 0 (recording ls) _ _ at poised
  obtain ⟨hlinked, hcalls⟩ := poised.builds.agrees.linked
  have hfail : (recording ls).failure? = none :=
    Recorder.failure?_eq_none poised.builds.misuse (Nat.le_trans poised.longest (by decide))
  refine ⟨os, (recording ls).log, hreads, by simp only [record, hfail], fun i hi => ?_, ?_⟩
  · exact absurd (poised.builds.agrees.holes i hi) (by simp)
  · rw [Event.replay_of_linked hlinked, hcalls]
    simp

/-- The record of what was read is built into the tree of the file. -/
theorem build_eq {ls : List Lexeme} {os : List Outline} {log : Array Event}
    (hreads : Grammar.ReadsFile (significant ls) os)
    (hreplay : Event.replay log = ⟨(Outline.node .sourceFile os).calls.toArray, none⟩) :
    build ls log = .ok ⟨Outline.planted os ls, (Outline.plantAll os 0 ls).errors⟩ := by
  obtain ⟨s, hcalls, hbuild⟩ := Sink.build_file .sourceFile hreads.wordsAll_eq.symm
  simp only [build, hreplay, hcalls, hbuild]
  rfl

/-- The parse of a file that was read as some outlines. -/
def ofOutlines (os : List Outline) (ls : List Lexeme) : Parse :=
  validated ⟨Outline.planted os ls, (Outline.plantAll os 0 ls).errors⟩

@[simp] theorem tree_ofOutlines (os : List Outline) (ls : List Lexeme) :
    (ofOutlines os ls).tree = Outline.planted os ls := rfl

theorem ofText_of_replay {text : String} {os : List Outline} {log : Array Event}
    (hreads : Grammar.ReadsFile (significant (tokenize text)) os)
    (hrecord : record (tokenize text) = .ok log)
    (hreplay : Event.replay log = ⟨(Outline.node .sourceFile os).calls.toArray, none⟩) :
    ofText text = .ok (ofOutlines os (tokenize text)) := by
  simp only [ofText, hrecord, build_eq hreads hreplay]
  rfl

/-- **A parse plants what the grammar reads**, and adds the errors of the literals. -/
theorem ofText_eq (text : String) : ∃ os, Grammar.ReadsFile (significant (tokenize text)) os ∧
    ofText text = .ok (ofOutlines os (tokenize text)) := by
  obtain ⟨os, log, hreads, hrecord, -, hreplay⟩ := record_eq (tokenize text)
  exact ⟨os, hreads, ofText_of_replay hreads hrecord hreplay⟩

/-- There is only one way to read a file, so a parse plants what was read in any way at all. -/
theorem ofText_of_reads {text : String} {os : List Outline}
    (h : Grammar.ReadsFile (significant (tokenize text)) os) :
    ofText text = .ok (ofOutlines os (tokenize text)) := by
  obtain ⟨ps, hreads, htext⟩ := ofText_eq text
  rw [h.unique hreads]
  exact htext

/-- **Every text has a tree, and nothing of the text is lost.**  The record of the grammar is made
without a failure and leaves no node open, it is replayed without a broken link, the sink builds a tree
of it, and the leaves of that tree are the lexemes of the text, which spell it. -/
theorem lossless (text : String) : ∃ log p, record (tokenize text) = .ok log ∧
    (∀ i : Nat, log[i]? ≠ some .hole) ∧ (Event.replay log).broken = none ∧ ofText text = .ok p ∧
    p.tree.kind = .sourceFile ∧ p.tree.leaves = tokenize text ∧ p.text = text := by
  obtain ⟨os, log, hreads, hrecord, hholes, hreplay⟩ := record_eq (tokenize text)
  have hleaves := Outline.leaves_planted hreads.wordsAll_eq.symm
  refine ⟨log, ofOutlines os (tokenize text), hrecord, hholes, by rw [hreplay],
    ofText_of_replay hreads hrecord hreplay, rfl, hleaves, ?_⟩
  rw [Parse.text, SyntaxTree.text, tree_ofOutlines, hleaves, Lexeme.spell_tokenize]

end Parse

end LosslessSyntax
