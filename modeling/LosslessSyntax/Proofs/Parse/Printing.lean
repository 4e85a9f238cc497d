import LosslessSyntax.Proofs.Body.Unambiguous
import LosslessSyntax.Proofs.Parse.Meaning

/-!
# Proofs/Parse/Printing — bodies of texts are told apart by the way they are written

A body of a text is made of legible sentences, whether or not the text has errors, so what is written says
which sentences these are; and sentences are entered into an arena in one way only, so it says the number
of every expression as well, those that are missing included.
-/

namespace LosslessSyntax.Parse

open Lexeme (tokenize)

/-- **A body is made of legible sentences.** -/
theorem exists_sentences (text : String) : ∃ p ss, ofText text = .ok p ∧
    Body.ofFile p.root = Body.ofSentences ss ∧ ∀ s ∈ ss, s.Legible := by
  obtain ⟨os, hreads, htext⟩ := ofText_eq text
  exact ⟨_, _, htext, body_ofOutlines hreads fun _ => Lexeme.length_pos_of_mem_tokenize,
    fun _ => legible_of_mem_sentences hreads⟩

/-- **Writing a body down loses nothing.**  Of any two texts, with or without errors, the bodies are the
same if they are written in the same way: they have the same statements in the same order, and the same
expressions under the same numbers. -/
theorem pretty_injective (text text' : String) : ∃ p q, ofText text = .ok p ∧ ofText text' = .ok q ∧
    ((Body.ofFile p.root).pretty = (Body.ofFile q.root).pretty →
      Body.ofFile p.root = Body.ofFile q.root) := by
  obtain ⟨p, ss, hp, hbody, hss⟩ := exists_sentences text
  obtain ⟨q, rs, hq, hbody', hrs⟩ := exists_sentences text'
  refine ⟨p, q, hp, hq, fun h => ?_⟩
  rw [hbody, hbody'] at h ⊢
  rw [pretty_inj hss hrs h]

/-- Two ways to leave out an operand, and a number that is too large: all are written as something
missing. -/
theorem pretty_injective_missing : ∃ p q, ofText "let a = 1 +; 99999999999999999999" = .ok p ∧
    ofText "let a = (1 + ); (" = .ok q ∧
    (Body.ofFile p.root).pretty = (Body.ofFile q.root).pretty ∧
    Body.ofFile p.root = Body.ofFile q.root := by
  obtain ⟨p, q, hp, hq, h⟩ :=
    pretty_injective "let a = 1 +; 99999999999999999999" "let a = (1 + ); ("
  have hsame : ((ofText "let a = 1 +; 99999999999999999999").toOption.map fun p =>
      (Body.ofFile p.root).pretty) =
        (ofText "let a = (1 + ); (").toOption.map fun q => (Body.ofFile q.root).pretty := by
    decide +kernel
  rw [hp, hq] at hsame
  have hpretty := Option.some.inj hsame
  exact ⟨p, q, hp, hq, hpretty, h hpretty⟩

end LosslessSyntax.Parse
