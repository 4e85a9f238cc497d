import LosslessSyntax.Proofs.Parse.Literals
import LosslessSyntax.Proofs.Parse.Meaning
import LosslessSyntax.Proofs.Tree.Realising

/-!
# Proofs/Parse/Trivia — white space and comments never change what a text means

Two texts whose words are the same apart from trivia are read in the same way: the record is the same,
and so is what it is replayed into.  Only planting puts the two apart, and it keeps trivia out of every
place where a part of a node is looked for: trivia belongs to the innermost node around its neighbours
(`placesTrivia`).
-/

namespace LosslessSyntax.Parse

open Lexeme (significant tokenize)

/-- The record of a text depends on nothing but what is not trivia. -/
theorem record_congr {ls ms : List Lexeme} (h : significant ls = significant ms) :
    record ls = record ms := by
  have hrest : (TokenStream.ofTokens (ls.map Lexeme.token)).rest =
      (TokenStream.ofTokens (ms.map Lexeme.token)).rest := by
    rw [Recorder.map_token_significant, Recorder.map_token_significant, h]
  have hstream : TokenStream.ofTokens (ls.map Lexeme.token) = .ofTokens (ms.map Lexeme.token) :=
    congrArg TokenStream.mk hrest
  rw [record, record, recording, recording, Recorder.ofTokens, Recorder.ofTokens, hstream]

/-- The messages of the grammar are those of what was read. -/
theorem map_message_plantAll (os : List Outline) (offset : Nat) (ls : List Lexeme) :
    (Outline.plantAll os offset ls).errors.map SyntaxError.message =
      (Outline.complaintsAll os).map Complaint.message := by
  rw [← Outline.map_complaint_plantAll os offset ls, List.map_map]
  rfl

/-- Trees that are the same without trivia have as many literals that are out of range. -/
theorem length_literalErrors_congr {p q : Parse} (h : p.tree.bare = q.tree.bare) :
    (literalErrors p.root).length = (literalErrors q.root).length := by
  rw [literalErrors_root, literalErrors_root, ← SyntaxTree.length_literalErrorsAt_bare p.tree 0 0, h,
    SyntaxTree.length_literalErrorsAt_bare q.tree 0 0]

/-- **Two texts are read alike**: `p` and `q` are what becomes of them before the literals are looked
at. -/
structure ReadAlike (x y : String) (log : Array Event) (p q : Parse) : Prop where
  /-- The texts have the same record. -/
  record_left : record (tokenize x) = .ok log
  record_right : record (tokenize y) = .ok log
  build_left : build (tokenize x) log = .ok p
  build_right : build (tokenize y) log = .ok q
  ofText_left : ofText x = .ok p.validated
  ofText_right : ofText y = .ok q.validated
  /-- The trees are the same without trivia. -/
  bare_eq : p.tree.bare = q.tree.bare
  /-- The grammar complains about the same. -/
  messages_eq : p.errors.map SyntaxError.message = q.errors.map SyntaxError.message
  /-- As many literals are out of range. -/
  length_eq : (literalErrors p.root).length = (literalErrors q.root).length
  /-- The texts mean the same. -/
  body_eq : Body.ofFile p.root = Body.ofFile q.root

/-- **Trivia never changes the meaning of a text**: texts with the same words apart from white space and
comments are read alike. -/
theorem readAlike {x y : String} (h : significant (tokenize x) = significant (tokenize y)) :
    ∃ log p q, ReadAlike x y log p q := by
  obtain ⟨os, log, hreads, hrecord, -, hreplay⟩ := record_eq (tokenize x)
  have hreads' : Grammar.ReadsFile (significant (tokenize y)) os := h ▸ hreads
  have hrecord' : record (tokenize y) = .ok log := record_congr h ▸ hrecord
  have hbare : (Outline.planted os (tokenize x)).bare = (Outline.planted os (tokenize y)).bare :=
    (Outline.bare_planted hreads.wordsAll_eq.symm).trans
      (Outline.bare_planted hreads'.wordsAll_eq.symm).symm
  have hbody := body_ofOutlines hreads fun _ => Lexeme.length_pos_of_mem_tokenize
  have hbody' := body_ofOutlines hreads' fun _ => Lexeme.length_pos_of_mem_tokenize
  refine ⟨log, _, _, hrecord, hrecord', build_eq hreads hreplay, build_eq hreads' hreplay,
    ofText_of_replay hreads hrecord hreplay, ofText_of_replay hreads' hrecord' hreplay, hbare, ?_,
    length_literalErrors_congr hbare, hbody.trans hbody'.symm⟩
  rw [map_message_plantAll, map_message_plantAll]

theorem readAlike_with_comments :
    significant (tokenize "let a=1+(2") = significant (tokenize "let a = // sum\n1 /* one */ + ( 2") ∧
      ∃ log p q, ReadAlike "let a=1+(2" "let a = // sum\n1 /* one */ + ( 2" log p q := by
  have h : significant (tokenize "let a=1+(2") =
      significant (tokenize "let a = // sum\n1 /* one */ + ( 2") := by decide +kernel
  exact ⟨h, readAlike h⟩

/-- **In the tree of every text, white space and comments are in their place.** -/
theorem placesTrivia (text : String) : ∃ p, ofText text = .ok p ∧ p.root.PlacesTrivia := by
  obtain ⟨os, hreads, htext⟩ := ofText_eq text
  refine ⟨_, htext, ?_⟩
  exact Outline.placesTrivia_rooted .sourceFile hreads.wordsAll_eq.symm
    (fun _ => Lexeme.length_pos_of_mem_tokenize) hreads.every fun _ _ _ =>
      Grammar.Made.wordsAll_ne_nil

end LosslessSyntax.Parse
