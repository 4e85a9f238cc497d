import LosslessSyntax.Proofs.Parse.Literals
import LosslessSyntax.Proofs.Parse.Meaning

/-!
# Proofs/Parse/Joining — a text that is cut in front of a statement

Where a semicolon or the keyword of a definition begins the second half of a text, whatever the first
half has left open ends there.  So the parse of the whole is made of the parses of the halves, with the
errors of the second half moved by the length of the first.
-/

namespace LosslessSyntax

open Lexeme (significant tokenize extent)
open Grammar (ReadsFile BeginsAfresh)
open SyntaxKind
open SyntaxTree (literalErrorsAllAt literalErrorsAllAt_append literalErrorsAllAt_add)

/-- What is read where a file begins afresh begins with a word or a node. -/
theorem Grammar.ReadsFile.exists_cons {ls : List Lexeme} {os : List Outline} (h : ReadsFile ls os)
    (hls : BeginsAfresh ls) : ∃ o ps, os = o :: ps ∧ ∀ c, o ≠ .error c := by
  obtain ⟨m, ms, rfl, hm⟩ := hls.exists_cons
  cases h with
  | separator => exact ⟨_, _, rfl, by simp⟩
  | unmatched hl => exact absurd hm (by simp [hl])
  | definition => exact ⟨_, _, rfl, by simp⟩
  | expression hl => exact absurd hm (by simp [ne_of_notMem_stops hl])

namespace Parse

/-- The parse of a text before its literals are looked at. -/
def unvalidated (text : String) : Except Failure Parse :=
  (record (tokenize text)).bind (build (tokenize text))

/-- **A text yields a parse** before its literals are looked at, and the same parse with their errors
added in the end. -/
structure Yields (text : String) (p : Parse) : Prop where
  unvalidated_eq : unvalidated text = .ok p
  ofText_eq : ofText text = .ok p.validated

theorem yields_of_reads {text : String} {os : List Outline}
    (h : ReadsFile (significant (tokenize text)) os) : Yields text
      ⟨Outline.planted os (tokenize text), (Outline.plantAll os 0 (tokenize text)).errors⟩ := by
  obtain ⟨ps, log, hreads, hrecord, -, hreplay⟩ := record_eq (tokenize text)
  obtain rfl := h.unique hreads
  refine ⟨?_, ofText_of_reads h⟩
  rw [unvalidated, hrecord]
  exact build_eq hreads hreplay

/-! ## Two halves -/

section Halves

variable {os ps : List Outline} {ls ms : List Lexeme}

/-- What is planted in two halves: the trees of the one and then those of the other, and likewise the
errors. -/
theorem planted_append (hos : ReadsFile (significant ls) os) (hps : ReadsFile (significant ms) ps)
    (hms : BeginsAfresh (significant ms)) :
    (Outline.planted (os ++ ps) (ls ++ ms)).children =
      (Outline.planted os ls).children ++ (Outline.planted ps ms).children ∧
    (Outline.plantAll (os ++ ps) 0 (ls ++ ms)).errors = (Outline.plantAll os 0 ls).errors ++
      (Outline.plantAll ps 0 ms).errors.map (SyntaxError.shift (extent ls)) := by
  obtain ⟨o, ps, rfl, ho⟩ := hps.exists_cons hms
  have halves : Outline.plantAll (os ++ o :: ps) 0 (ls ++ ms) = _ :=
    Outline.plantAll_halves (fun _ _ _ => Grammar.Made.wordsAll_ne_nil) hos.wordsAll_eq.symm hos.every
      ho ms
  constructor
  · simp only [Outline.planted, halves, SyntaxTree.children_node, List.append_assoc]
  · rw [halves]

/-- The literals of a file are those of its statements. -/
theorem literalErrors_planted (os : List Outline) (ls : List Lexeme) (es : List SyntaxError) :
    literalErrors (root ⟨Outline.planted os ls, es⟩) =
      literalErrorsAllAt 0 (Outline.planted os ls).children := by
  rw [literalErrors_root, Outline.planted, SyntaxTree.literalErrorsAt_node, SyntaxTree.children_node]
  rfl

/-- The literals of a file that is read in two halves. -/
theorem literalErrorsAllAt_planted_append (hos : ReadsFile (significant ls) os)
    (hps : ReadsFile (significant ms) ps) (hms : BeginsAfresh (significant ms)) :
    literalErrorsAllAt 0 (Outline.planted (os ++ ps) (ls ++ ms)).children =
      literalErrorsAllAt 0 (Outline.planted os ls).children ++
        (literalErrorsAllAt 0 (Outline.planted ps ms).children).map (SyntaxError.shift (extent ls)) := by
  have hleaves : SyntaxTree.leavesAll (Outline.planted os ls).children = ls :=
    (SyntaxTree.leaves_node ..).symm.trans (Outline.leaves_planted hos.wordsAll_eq.symm)
  rw [(planted_append hos hps hms).1, literalErrorsAllAt_append, hleaves, Nat.zero_add,
    ← literalErrorsAllAt_add, Nat.add_zero]

/-- The body of a file that is read in two halves is written as the one and then the other. -/
theorem pretty_ofSentences_append (os ps : List Outline) :
    (Body.ofSentences (Outline.sentences (os ++ ps))).pretty =
      (Body.ofSentences (Outline.sentences os)).pretty ++
        (Body.ofSentences (Outline.sentences ps)).pretty := by
  rw [Body.pretty_ofSentences, Body.pretty_ofSentences, Body.pretty_ofSentences, Outline.sentences,
    Outline.bareAll_append, List.filterMap_append, List.map_append, String.join_append]
  rfl

end Halves

/-- **A parse is joined from two others**, the second of which begins so many bytes further on. -/
structure JoinedFrom (n : Nat) (p q r : Parse) : Prop where
  /-- The children of the root are those of the one and then those of the other, -/
  children_eq : r.tree.children = p.tree.children ++ q.tree.children
  /-- and so are the errors of the grammar -/
  errors_eq : r.errors = p.errors ++ q.errors.map (.shift n)
  /-- and those of the literals. -/
  literalErrors_eq :
    literalErrors r.root = literalErrors p.root ++ (literalErrors q.root).map (.shift n)
  /-- The body is written as the one and then the other. -/
  pretty_eq : (Body.ofFile r.root).pretty = (Body.ofFile p.root).pretty ++ (Body.ofFile q.root).pretty

/-- **A text may be cut in front of a semicolon or a definition**: if its lexemes are those of the
halves, whatever errors these have, its parse is joined from the parses of the halves. -/
theorem joinedFrom {x y : String} (h : tokenize (x ++ y) = tokenize x ++ tokenize y)
    (hy : BeginsAfresh (significant (tokenize y))) :
    ∃ p q r, Yields x p ∧ Yields y q ∧ Yields (x ++ y) r ∧ JoinedFrom x.utf8ByteSize p q r := by
  obtain ⟨os, hos, -⟩ := ofText_eq x
  obtain ⟨ps, hps, -⟩ := ofText_eq y
  have hreads := hos.append hy hps
  rw [← Lexeme.significant_append, ← h] at hreads
  obtain ⟨hchildren, herrors⟩ := planted_append hos hps hy
  have hliterals := literalErrorsAllAt_planted_append hos hps hy
  have hbody : ∀ {text qs es}, ReadsFile (significant (tokenize text)) qs →
      Body.ofFile (root ⟨Outline.planted qs (tokenize text), es⟩) =
        Body.ofSentences (Outline.sentences qs) :=
    fun hqs => body_ofOutlines hqs fun _ => Lexeme.length_pos_of_mem_tokenize
  rw [Lexeme.extent_eq, Lexeme.spell_tokenize] at herrors hliterals
  rw [← h] at hchildren herrors hliterals
  refine ⟨_, _, _, yields_of_reads hos, yields_of_reads hps, yields_of_reads hreads, hchildren,
    herrors, ?_, ?_⟩
  · rw [literalErrors_planted, literalErrors_planted, literalErrors_planted, hliterals]
  · rw [hbody hos, hbody hps, hbody hreads, pretty_ofSentences_append]

theorem joinedFrom_unfinished :
    tokenize ("let a = (9999999999999999999 +" ++ " ; let 2") =
      tokenize "let a = (9999999999999999999 +" ++ tokenize " ; let 2" ∧
    BeginsAfresh (significant (tokenize " ; let 2")) ∧
    ∃ p q r, Yields "let a = (9999999999999999999 +" p ∧ Yields " ; let 2" q ∧
      Yields ("let a = (9999999999999999999 +" ++ " ; let 2") r ∧
      JoinedFrom "let a = (9999999999999999999 +".utf8ByteSize p q r := by
  have h : tokenize ("let a = (9999999999999999999 +" ++ " ; let 2") =
      tokenize "let a = (9999999999999999999 +" ++ tokenize " ; let 2" := by decide +kernel
  have hy : BeginsAfresh (significant (tokenize " ; let 2")) :=
    ⟨⟨semi, ";"⟩, by decide +kernel, .inl rfl⟩
  exact ⟨h, hy, joinedFrom h hy⟩

end Parse

end LosslessSyntax
