import LosslessSyntax.Proofs.Grammar.Schema
import LosslessSyntax.Proofs.Parse.Nodes
import LosslessSyntax.Proofs.Tree.Shape

/-!
# Proofs/Parse/Schema — the tree of every text follows the schema

Each way in which the rules make a node (`Made`) fills the slots of its kind, whatever was missed or
skipped on the way, so every node of a parse has its shape.
-/

namespace LosslessSyntax

open Lexeme (significant tokenize)
open SyntaxKind Outline

namespace Grammar

/-! ## What is read fills slots -/

section Slots

variable {ls ws rest : List Lexeme} {os : List Outline} {qs : List Part} {ss : List Slot}

theorem Recovery.filterMap_part? (h : Recovery os) :
    os.filterMap part? = [] ∨ os.filterMap part? = [.node error] := by
  obtain c | ⟨c, l⟩ := h
  · exact .inl rfl
  · exact .inr rfl

/-- What is read as an expression fills the place of an operand. -/
theorem Reads.fits {power : Nat} {x : Outcome} (h : Reads (.expression power) ls x ws)
    (more : Fits ss qs) : Fits (.optional operandParts :: ss) (x.items.filterMap part? ++ qs) := by
  refine .optional ?_ more
  obtain ⟨o, rfl, ho⟩ | hrec := h.isExpression_or_recovery
  · obtain ⟨kind, os, rfl, hk⟩ := exists_node_of_isExpression ho
    exact .inr ⟨.node kind, List.mem_cons_of_mem _ (mem_expressionParts.mpr hk), rfl⟩
  · exact hrec.filterMap_part?.imp_right fun heq => ⟨_, List.mem_cons_self, heq⟩

theorem fits_expectation {kind : SyntaxKind} (h : expectation kind ls = (os, rest))
    (more : Fits ss qs) : Fits (.optional [.word kind] :: ss) (os.filterMap part? ++ qs) := by
  refine .optional ?_ more
  cases ls with
  | nil =>
    obtain ⟨rfl, rfl⟩ := Prod.mk.inj h
    exact .inl rfl
  | cons l ls =>
    rw [expectation] at h
    split at h
    · next hl =>
      obtain ⟨rfl, rfl⟩ := Prod.mk.inj h
      exact .inr ⟨_, by simp [hl], rfl⟩
    · obtain ⟨rfl, rfl⟩ := Prod.mk.inj h
      exact .inl rfl

theorem fits_naming (h : naming ls = (os, rest)) (more : Fits ss qs) :
    Fits (.optional [.node name, .node error] :: ss) (os.filterMap part? ++ qs) := by
  refine .optional ?_ more
  have missed : ∀ {ms}, recovery .expectedName nameStops ms = (os, rest) →
      os.filterMap part? = [] ∨ ∃ p ∈ [Part.node name, .node error], os.filterMap part? = [p] :=
    fun h => (recovery_of_eq h).filterMap_part?.imp_right fun heq => ⟨_, by simp, heq⟩
  cases ls with
  | nil => exact missed (by rwa [naming] at h)
  | cons l ls =>
    rw [naming] at h
    split at h
    · obtain ⟨rfl, rfl⟩ := Prod.mk.inj h
      exact .inr ⟨_, List.mem_cons_self, rfl⟩
    · exact missed h

theorem mem_operators {k : SyntaxKind} {op : BinaryOperator} (h : BinaryOperator.ofKind? k = some op) :
    Part.word k ∈ [Part.word plus, .word minus, .word star, .word slash] := by
  cases k <;> first | decide | exact absurd h (by simp [BinaryOperator.ofKind?])

theorem ne_of_notMem_stops {k : SyntaxKind} (h : expressionStops.contains k = false) :
    k ≠ semi ∧ k ≠ letKw := by
  constructor <;> rintro rfl <;> exact absurd h (by decide)

/-- **A node fills the slots of its kind**, in whichever way it is made. -/
theorem Made.fits {kind : SyntaxKind} (h : Made kind os ws) :
    ∃ ss, schema? kind = some ss ∧ Fits ss (os.filterMap part?) := by
  cases h with
  | number hl | reference hl | name hl =>
    exact ⟨_, rfl, .one (List.mem_singleton.mpr (congrArg Part.word hl)) .nil⟩
  | negation hl inner =>
    have hinner := inner.fits .nil
    rw [List.append_nil] at hinner
    exact ⟨_, rfl, .one (List.mem_singleton.mpr (congrArg Part.word hl)) hinner⟩
  | parenthesised hl inner close =>
    have hclose := fits_expectation close .nil
    rw [List.append_nil] at hclose
    have hinner := inner.fits hclose
    rw [← List.filterMap_append] at hinner
    exact ⟨_, rfl, .one (List.mem_singleton.mpr (congrArg Part.word hl)) hinner⟩
  | operation hleft hop inner =>
    obtain ⟨k, ps, rfl, hk⟩ := exists_node_of_isExpression hleft
    have hinner := inner.fits .nil
    rw [List.append_nil] at hinner
    exact ⟨_, rfl, .one (mem_expressionParts.mpr hk) (.one (mem_operators hop) hinner)⟩
  | definition hl named equals value =>
    have hvalue := value.fits .nil
    rw [List.append_nil] at hvalue
    have hnamed := fits_naming named (fits_expectation equals hvalue)
    rw [← List.filterMap_append, ← List.filterMap_append] at hnamed
    exact ⟨_, rfl, .one (List.mem_singleton.mpr (congrArg Part.word hl)) hnamed⟩
  | skipped hl => exact ⟨_, rfl, .one (mem_errorParts.mpr (ne_of_notMem_stops hl)) .nil⟩
  | unmatched hl => exact ⟨_, rfl, .one (mem_errorParts.mpr (by simp [hl])) .nil⟩

/-- The statements of a file fill the places in it. -/
theorem ReadsFile.fits (h : ReadsFile ls os) :
    ∃ ss, schema? sourceFile = some ss ∧ Fits ss (os.filterMap part?) := by
  refine ⟨_, rfl, ?_⟩
  induction h with
  | nil => exact .done .nil
  | separator hl _ ih => exact .again (List.mem_cons.mpr (.inl (congrArg Part.word hl))) ih
  | unmatched _ _ ih => exact .again (by simp [operandParts]) ih
  | definition _ _ _ _ _ ih => exact .again (by simp) ih
  | expression _ value _ ih =>
    rw [List.filterMap_append]
    obtain ⟨o, rfl, ho⟩ | hrec := value.isExpression_or_recovery
    · obtain ⟨kind, os, rfl, hk⟩ := exists_node_of_isExpression ho
      exact .again (by simp [operandParts, mem_expressionParts.mpr hk]) ih
    · obtain heq | heq := hrec.filterMap_part?
      · rwa [heq]
      · rw [heq]
        exact .again (by simp [operandParts]) ih

/-- Every node has a word of its own. -/
theorem Made.exists_word {kind : SyntaxKind} (h : Made kind os ws) : ∃ l, .word l ∈ os := by
  cases h with
  | operation | skipped | unmatched => exact ⟨_, List.mem_cons_of_mem _ List.mem_cons_self⟩
  | _ => exact ⟨_, List.mem_cons_self⟩

/-- There are words in every node. -/
theorem Made.wordsAll_ne_nil {kind : SyntaxKind} (h : Made kind os ws) : wordsAll os ≠ [] := by
  obtain ⟨l, hl⟩ := h.exists_word
  obtain ⟨before, after, rfl⟩ := List.append_of_mem hl
  simp

/-! ## What is skipped inside a statement -/

theorem skipped_of_recovery {c : Complaint} {stops : KindSet} {ps : List Outline}
    (h : recovery c stops ls = (os, rest)) (hps : .node error ps ∈ os) :
    ∃ l, ps = [.error c, .word l] ∧ stops.contains l.kind = false := by
  cases ls with
  | nil =>
    obtain ⟨rfl, rfl⟩ := Prod.mk.inj h
    exact absurd hps (by simp)
  | cons l ls =>
    rw [recovery] at h
    split at h <;> obtain ⟨rfl, rfl⟩ := Prod.mk.inj h
    · exact absurd hps (by simp)
    · next hl =>
      obtain ⟨-, rfl⟩ := Outline.node.inj (List.mem_singleton.mp hps)
      exact ⟨l, rfl, Bool.eq_false_iff.mpr hl⟩

theorem Reads.skipped_of_mem {power : Nat} {x : Outcome} {ps : List Outline}
    (h : Reads (.expression power) ls x rest) (hps : .node error ps ∈ x.items) :
    ∃ c l, ps = [.error c, .word l] ∧ expressionStops.contains l.kind = false := by
  cases h with
  | absent first =>
    cases first with
    | missing _ recover => exact ⟨_, skipped_of_recovery recover hps⟩
  | present first more =>
    obtain ⟨o, rfl⟩ := more.found_of_operations
    have ho := (Reads.present first more).isExpression (List.forall_mem_nil _) o rfl
    rw [← List.mem_singleton.mp hps] at ho
    exact absurd ho (by simp [IsExpression, isExpr])

theorem skipped_of_naming {ps : List Outline} (h : naming ls = (os, rest)) (hps : .node error ps ∈ os) :
    ∃ c l, ps = [.error c, .word l] ∧ expressionStops.contains l.kind = false := by
  have missed : ∀ {ms}, recovery .expectedName nameStops ms = (os, rest) →
      ∃ c l, ps = [.error c, .word l] ∧ expressionStops.contains l.kind = false := by
    intro ms h
    obtain ⟨l, hl, hstops⟩ := skipped_of_recovery h hps
    exact ⟨_, l, hl, expressionStops_of_nameStops _ hstops⟩
  cases ls with
  | nil => exact missed (by rwa [naming] at h)
  | cons l ls =>
    rw [naming] at h
    split at h
    · obtain ⟨rfl, rfl⟩ := Prod.mk.inj h
      exact absurd hps (by simp)
    · exact missed h

theorem node_notMem_expectation {kind k : SyntaxKind} {ps : List Outline}
    (h : expectation kind ls = (os, rest)) : .node k ps ∉ os := by
  cases ls with
  | nil =>
    obtain ⟨rfl, rfl⟩ := Prod.mk.inj h
    simp
  | cons l ls =>
    rw [expectation] at h
    split at h <;> obtain ⟨rfl, rfl⟩ := Prod.mk.inj h <;> simp

/-- **What is skipped inside a statement** is not a word at which a statement or an expression in
parentheses can end. -/
theorem Made.skipped_of_mem {kind : SyntaxKind} {ps : List Outline} (h : Made kind os ws)
    (hps : .node error ps ∈ os) :
    ∃ c l, ps = [.error c, .word l] ∧ expressionStops.contains l.kind = false := by
  cases h with
  | negation _ inner => exact inner.skipped_of_mem (by simpa using hps)
  | parenthesised _ inner close =>
    simp only [List.mem_cons, List.mem_append, node_notMem_expectation close, or_false] at hps
    exact inner.skipped_of_mem (hps.resolve_left (by simp))
  | operation hleft _ inner =>
    obtain rfl | hps := List.mem_cons.mp hps
    · exact absurd hleft (by simp [IsExpression, isExpr])
    · exact inner.skipped_of_mem (by simpa using hps)
  | definition _ named equals value =>
    simp only [List.mem_cons, List.mem_append, node_notMem_expectation equals, false_or] at hps
    obtain hps | hps := hps.resolve_left (by simp)
    · exact skipped_of_naming named hps
    · exact value.skipped_of_mem hps
  | _ => exact absurd hps (by simp)

end Slots

end Grammar

namespace Parse

open Element (nodesAll)

/-- **The schema holds of a tree.** -/
structure FollowsSchema (r : Element) : Prop where
  /-- The root is a file. -/
  kind_eq : r.kind = sourceFile
  /-- The parts of every node fill the slots of its kind. -/
  fits : ∀ e ∈ r.nodes, ∃ ss, schema? e.kind = some ss ∧ Fits ss e.parts
  /-- A parenthesis that closes nothing is skipped only between statements. -/
  unmatched : ∀ e ∈ r.nodes, ∀ c ∈ e.children, c.part = .node error → .word rParen ∈ c.parts → e = r
  /-- No node but the root is empty or has trivia at its ends. -/
  trimmed : ∀ e ∈ nodesAll r.children, Lexeme.IsTrimmed e.lexemes

variable {os : List Outline} {ls : List Lexeme} {r : Element}

/-- The parts of the root are what was read. -/
theorem IsRoot.parts_eq (h : IsRoot os ls r) : r.parts = os.filterMap part? := by
  obtain @⟨_, trail, _, _, row, trivia⟩ := h
  have htrail : (trail.filter fun c => !c.isTrivia) = [] :=
    List.filter_eq_nil_iff.mpr fun c hc => by simp [trivia c hc]
  rw [Element.parts, Element.solid, Element.children, List.filter_append, htrail, List.append_nil]
  exact row.map_part

theorem IsRoot.followsSchema (h : IsRoot os ls r) (hreads : Grammar.ReadsFile (significant ls) os) :
    FollowsSchema r := by
  refine ⟨h.kind_eq, ?_, ?_, ?_⟩
  · intro e he
    obtain rfl | ⟨kind, ps, vs, hstands⟩ := h.eq_or_stands hreads.every he
    · rw [h.kind_eq, h.parts_eq]
      exact hreads.fits
    · rw [hstands.kind_eq, hstands.parts_eq]
      exact hstands.holds.fits
  · intro e he c hc hk hparen
    obtain rfl | ⟨kind, ps, vs, hstands⟩ := h.eq_or_stands hreads.every he
    · rfl
    obtain ⟨hmade, every, row, -⟩ := hstands
    cases c with
    | word => exact absurd hk (by simp [Element.part])
    | node k start stop cs =>
      obtain ⟨before, k, qs, after, rfl, hstands⟩ := row.stands_of_mem every hc rfl
      obtain rfl := (Part.node.inj hk).symm.trans hstands.kind_eq
      obtain ⟨c, l, rfl, hl⟩ := hmade.skipped_of_mem (List.mem_append_right _ List.mem_cons_self)
      rw [hstands.parts_eq] at hparen
      have hl' : l.kind = rParen := by simpa [part?] using hparen
      rw [hl'] at hl
      exact absurd hl (by decide)
  · intro e he
    obtain ⟨kind, ps, vs, hstands⟩ := h.stands_of_mem_nodesAll hreads.every he
    exact hstands.isTrimmed fun _ _ _ => Grammar.Made.wordsAll_ne_nil

/-- **The tree of every text follows the schema**, whether or not the text has errors. -/
theorem schema (text : String) : ∃ p, ofText text = .ok p ∧ FollowsSchema p.root := by
  obtain ⟨os, hreads, htext⟩ := ofText_eq text
  exact ⟨_, htext, (isRoot_ofOutlines hreads.wordsAll_eq.symm).followsSchema hreads⟩

end Parse

end LosslessSyntax
