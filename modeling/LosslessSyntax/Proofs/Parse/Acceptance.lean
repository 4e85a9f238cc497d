import LosslessSyntax.Proofs.Grammar.Complaints
import LosslessSyntax.Proofs.Grammar.Language
import LosslessSyntax.Proofs.Lexeme.Number
import LosslessSyntax.Proofs.Parse.Nodes

/-!
# Proofs/Parse/Acceptance — which texts have no errors

A parse has the complaints of the grammar and the errors of its literals.  The first are absent when the
grammar derives the kinds of the words (`ReadsFile.complaintsAll_eq_nil_iff`).  The second are about the
numbers of the text: without a complaint every number is a literal, and the literals are numbers.
-/

namespace LosslessSyntax

open Lexeme (significant tokenize)
open SyntaxKind Grammar Outline

/-! ## Complaints -/

/-- The complaints of the grammar about a text are among those that it has. -/
theorem Outline.complaint_mem_repertoire {ls : List Lexeme} {os : List Outline}
    (h : ReadsFile (significant ls) os) {x : SyntaxError} (hx : x ∈ (plantAll os 0 ls).errors) :
    x.complaint ∈ repertoire := by
  refine h.complaintsAll_subset ?_
  rw [← map_complaint_plantAll os 0 ls]
  exact List.mem_map_of_mem hx

/-! ## Numbers and literals -/

/-- A literal consists of a number of the text. -/
theorem Element.Stands.exists_number {P : SyntaxKind → List Outline → List Lexeme → Prop}
    {all ws : List Lexeme} {os : List Outline} {e : Element}
    (hP : ∀ kind os ws, P kind os ws → Made kind os ws) (h : e.Stands P all literal os ws) :
    ∃ l ∈ all, l.kind = intNumber ∧ os = [.word l] ∧
      ∃ place, e.children = [.word l.kind place l.text] := by
  obtain ⟨holds, -, row, tight⟩ := h
  rcases hP _ _ _ holds with ⟨hl⟩
  obtain ⟨front, place, back, rfl, hfront, hmem, -, hback⟩ := row.exists_word
  obtain rfl := hback.eq_nil
  rcases front with _ | ⟨f, front⟩
  · exact ⟨_, hmem, hl, rfl, place, rfl⟩
  · exact absurd (hfront f List.mem_cons_self).1 (by simp [tight f rfl])

theorem Element.isInteger_of_children {e : Element} {kind : SyntaxKind} {place : Nat} {text : String}
    (h : e.children = [.word kind place text]) (hk : kind = intNumber) :
    e.isInteger = true ∧ e.intValue? = Text.Integer.parse? text.toList := by
  subst hk
  simp [isInteger, intValue?, literalWord?, firstWord?, childWords, h, Element.kind,
    SyntaxKind.isTrivia]

namespace Parse

theorem literalErrors_eq_nil_iff_nodes (r : Element) : literalErrors r = [] ↔
    ∀ e ∈ r.nodes, e.kind = literal → e.isInteger = true → e.intValue?.isNone = false := by
  simp [literalErrors, List.filter_eq_nil_iff, Option.isSome_iff_ne_none]

variable {text : String} {os : List Outline}

/-- **Where the grammar does not complain, the literals are in range if the numbers are.** -/
theorem literalErrors_eq_nil_iff (h : ReadsFile (significant (tokenize text)) os)
    (hos : complaintsAll os = []) :
    literalErrors (ofOutlines os (tokenize text)).root = [] ↔
      ∀ l ∈ tokenize text, l.kind = intNumber → l.value ≤ 2 ^ 63 - 1 := by
  have hroot := isRoot_ofOutlines h.wordsAll_eq.symm
  have hevery := everyAll_and os h.every (everyAll_of_complaintsAll os hos)
  rw [literalErrors_eq_nil_iff_nodes]
  constructor
  · intro hnodes l hl hkind
    have hword : l ∈ wordsAll os := by
      rw [h.wordsAll_eq]
      exact List.mem_filter.mpr ⟨hl, by simp [Lexeme.isTrivia, hkind, isTrivia]⟩
    rcases hroot.exists_of_mem_wordsAll hevery hword with hmem | ⟨e, he, kind, ps, vs, hstands, hmem⟩
    · exact absurd (hkind.symm.trans (h.kind_of_mem hmem)) (by decide)
    · obtain ⟨hmade, hclean⟩ := hstands.holds
      obtain rfl := hmade.eq_literal hclean hmem hkind
      obtain ⟨m, -, hm, hps, place, hchildren⟩ := hstands.exists_number fun _ _ _ h => h.1
      obtain rfl : l = m := by simpa [hps] using hmem
      obtain ⟨hint, hvalue⟩ := Element.isInteger_of_children hchildren hkind
      have hsome := hnodes e he hstands.kind_eq hint
      rwa [hvalue, Lexeme.parse?_isNone_eq_false_iff hl hkind] at hsome
  · intro hbound e he hkind hint
    rcases hroot.eq_or_stands hevery he with rfl | ⟨kind, ps, vs, hstands⟩
    · exact absurd (hroot.kind_eq.symm.trans hkind) (by decide)
    · obtain rfl : kind = literal := hstands.kind_eq.symm.trans hkind
      obtain ⟨l, hl, hm, hps, place, hchildren⟩ := hstands.exists_number fun _ _ _ h => h.1
      rw [(Element.isInteger_of_children hchildren hm).2, Lexeme.parse?_isNone_eq_false_iff hl hm]
      exact hbound l hl hm

/-- **A text has no errors exactly if the grammar derives it and its numbers are in range.** -/
theorem errors_eq_nil_iff (text : String) : ∃ p, ofText text = .ok p ∧ (p.errors = [] ↔
    (∀ l ∈ tokenize text, l.kind = intNumber → l.value ≤ 2 ^ 63 - 1) ∧
      Derives .file ((significant (tokenize text)).map Lexeme.kind)) := by
  obtain ⟨os, hreads, hp⟩ := ofText_eq text
  refine ⟨_, hp, ?_⟩
  have herrors : (plantAll os 0 (tokenize text)).errors = [] ↔ complaintsAll os = [] := by
    rw [← map_complaint_plantAll os 0 (tokenize text), List.map_eq_nil_iff]
  have hsplit : (ofOutlines os (tokenize text)).errors = (plantAll os 0 (tokenize text)).errors ++
      literalErrors (ofOutlines os (tokenize text)).root := rfl
  rw [hsplit, List.append_eq_nil_iff, herrors, ← hreads.complaintsAll_eq_nil_iff, and_comm]
  exact and_congr_left fun hclean => literalErrors_eq_nil_iff hreads hclean

end Parse

end LosslessSyntax
