import LosslessSyntax.Proofs.Grammar.Schema

/-!
# Proofs/Grammar/Precedence — which operations stand below which, and where expressions end

An expression that is read with a power is an operation only if its operator binds the operand on its
left at least that tightly, and it ends where the next operator does not (`Reads.leftPower_lt`).  An
operand that is missed ends an expression early, but then there is nothing to its right.
-/

namespace LosslessSyntax

namespace BinaryOperator

/-- Whether an operator makes a product of its operands. -/
def isProduct : BinaryOperator → Bool
  | multiply | divide => true
  | add | subtract => false

theorem isProduct_of_le_leftPower {op op' : BinaryOperator} (h : op.rightPower ≤ op'.leftPower) :
    op.isProduct = false ∧ op'.isProduct = true := by
  cases op <;> cases op' <;> first | exact absurd h (by decide) | exact ⟨rfl, rfl⟩

theorem isProduct_of_leftPower_lt {op op' : BinaryOperator} (h : op.leftPower < op'.rightPower)
    (hop : op.isProduct = true) : op'.isProduct = true := by
  cases op <;> cases op' <;> first | rfl | exact absurd hop (by decide) | exact absurd h (by decide)

theorem leftPower_lt_negate (op : BinaryOperator) : op.leftPower < UnaryOperator.negate.power := by
  cases op <;> decide

end BinaryOperator

namespace Grammar

open SyntaxKind Outline

/-! ## Operations inside expressions -/

theorem Reads.kind_ne_binExpr {ls rest : List Lexeme} {kind : SyntaxKind} {os : List Outline}
    (h : Reads .operand ls (.found (.node kind os)) rest) : kind ≠ binExpr := by
  rcases h with _ | _ | _ | _ <;> decide

/-- What comes of operators is the operand on their left, or an operation of one that binds as tightly
as they must. -/
theorem Reads.eq_left_or_operation {power : Nat} {left : Outline} {ls rest : List Lexeme}
    {o : Outline} (h : Reads (.operations power left) ls (.found o) rest) : o = left ∨
      ∃ l op ps, BinaryOperator.ofKind? l.kind = some op ∧ power ≤ op.leftPower ∧
        ∃ left, o = .node binExpr (left :: .word l :: ps) := by
  generalize hg : Goal.operations power left = g at h
  generalize hx : Outcome.found o = x at h
  induction h generalizing left with
  | done =>
    obtain ⟨rfl, rfl⟩ := Goal.operations.inj hg
    exact .inl (Outcome.found.inj hx)
  | operation hl binds _ _ _ ih =>
    obtain ⟨rfl, rfl⟩ := Goal.operations.inj hg
    rcases ih rfl hx with rfl | hop
    · exact .inr ⟨_, _, _, hl, binds, _, rfl⟩
    · exact .inr hop
  | _ => exact absurd hg (by simp)

/-- **An operation is read with a power only if its operator binds as tightly.** -/
theorem Reads.exists_operator {power : Nat} {ls rest : List Lexeme} {ps : List Outline}
    (h : Reads (.expression power) ls (.found (.node binExpr ps)) rest) :
    ∃ l op left qs, ps = left :: .word l :: qs ∧ BinaryOperator.ofKind? l.kind = some op ∧
      power ≤ op.leftPower := by
  rcases h with _ | _ | _ | _ | _ | _ | _ | _ | ⟨first, more⟩
  rcases more.eq_left_or_operation with rfl | ⟨l, op, qs, hl, binds, left, ho⟩
  · exact absurd rfl first.kind_ne_binExpr
  · obtain ⟨-, rfl⟩ := Outline.node.inj ho
    exact ⟨l, op, left, qs, rfl, hl, binds⟩

/-- An expression among what is read for one is what was found. -/
theorem Reads.eq_found_of_mem {power : Nat} {ls rest : List Lexeme} {x : Outcome} {kind : SyntaxKind}
    {os : List Outline} (h : Reads (.expression power) ls x rest) (hmem : .node kind os ∈ x.items)
    (hk : kind.isExpr = true) : x = .found (.node kind os) := by
  rcases h.isExpression_or_recovery with ⟨o, rfl, -⟩ | hrec
  · rw [List.mem_singleton.mp hmem]
  · generalize x.items = is at hmem hrec
    rcases hrec with _ | _
    · exact absurd hmem (by simp)
    · obtain ⟨rfl, -⟩ := Outline.node.inj (List.mem_singleton.mp hmem)
      exact absurd hk (by decide)

theorem Reads.eq_found_of_split {power : Nat} {ls rest : List Lexeme} {x : Outcome}
    {kind : SyntaxKind} {os before after : List Outline} (h : Reads (.expression power) ls x rest)
    (hsplit : x.items = before ++ .node kind os :: after) (hk : kind.isExpr = true) :
    x = .found (.node kind os) ∧ after = [] := by
  have hmem : .node kind os ∈ x.items := by simp [hsplit]
  have hx := h.eq_found_of_mem hmem hk
  rw [hx] at hsplit
  have hlength := congrArg List.length hsplit
  simp only [Outcome.items_found, List.length_append, List.length_cons, List.length_nil] at hlength
  exact ⟨hx, List.eq_nil_of_length_eq_zero (by omega)⟩

/-! ## Where expressions end -/

/-- No operator follows any expression of a list of outlines. -/
def Maximal : List Outline → List Lexeme → Prop
  | [], _ => True
  | o :: os, ws => (IsExpression o → ∀ l ∈ (wordsAll os ++ ws).head?,
      BinaryOperator.ofKind? l.kind = none) ∧ Maximal os ws

@[simp] theorem maximal_append {os ps : List Outline} {ws : List Lexeme} :
    Maximal (os ++ ps) ws ↔ Maximal os (wordsAll ps ++ ws) ∧ Maximal ps ws := by
  induction os with
  | nil => simp [Maximal]
  | cons o os ih => simp [Maximal, ih, and_assoc]

theorem Maximal.no_operator {before after : List Outline} {o : Outline} {ws : List Lexeme}
    (h : Maximal (before ++ o :: after) ws) (ho : IsExpression o) :
    ∀ l ∈ (wordsAll after ++ ws).head?, BinaryOperator.ofKind? l.kind = none :=
  (maximal_append.mp h).2.1 ho

theorem maximal_of_not_isExpression {os : List Outline} {ws : List Lexeme}
    (h : ∀ o ∈ os, ¬ IsExpression o) : Maximal os ws := by
  induction os with
  | nil => trivial
  | cons o os ih =>
    exact ⟨fun ho => absurd ho (h o List.mem_cons_self),
      ih fun p hp => h p (List.mem_cons_of_mem _ hp)⟩

theorem not_isExpression_node {kind : SyntaxKind} {os : List Outline} (h : kind.isExpr = false) :
    ¬ IsExpression (.node kind os) := by
  simp [IsExpression, h]

theorem Recovery.not_isExpression {os : List Outline} (h : Recovery os) :
    ∀ o ∈ os, ¬ IsExpression o := by
  rcases h with _ | _
  · intro o ho
    rw [List.mem_singleton.mp ho]
    exact id
  · intro o ho
    rw [List.mem_singleton.mp ho]
    exact not_isExpression_node rfl

theorem not_isExpression_naming {ls rest : List Lexeme} {os : List Outline}
    (h : naming ls = (os, rest)) : ∀ o ∈ os, ¬ IsExpression o := by
  rcases ls with _ | ⟨l, ls⟩
  · rw [naming] at h
    exact (recovery_of_eq h).not_isExpression
  · rw [naming] at h
    split at h
    · obtain ⟨rfl, rfl⟩ := Prod.mk.inj h
      intro o ho
      rw [List.mem_singleton.mp ho]
      exact not_isExpression_node rfl
    · exact (recovery_of_eq h).not_isExpression

theorem not_isExpression_expectation {kind : SyntaxKind} {ls rest : List Lexeme} {os : List Outline}
    (h : expectation kind ls = (os, rest)) : ∀ o ∈ os, ¬ IsExpression o := by
  intro o ho
  rcases ls with _ | ⟨l, ls⟩
  · obtain ⟨rfl, rfl⟩ := Prod.mk.inj h
    rw [List.mem_singleton.mp ho]
    exact id
  · rw [expectation] at h
    split at h <;> obtain ⟨rfl, rfl⟩ := Prod.mk.inj h <;> rw [List.mem_singleton.mp ho] <;> exact id

theorem Reads.maximal {ls rest : List Lexeme} {x : Outcome} (h : Reads (.expression 0) ls x rest) :
    Maximal x.items rest := by
  rcases x with o | os
  · exact ⟨fun _ l hl => h.no_operator hl, trivial⟩
  · exact maximal_of_not_isExpression h.recovery_of_missed.not_isExpression

/-- **No operator follows an expression in parentheses or in a definition.** -/
theorem Made.maximal {kind : SyntaxKind} {os : List Outline} {ws : List Lexeme} (h : Made kind os ws)
    (hk : kind = parenExpr ∨ kind = variableDef) : Maximal os ws := by
  rcases h with _ | _ | _ | _ | ⟨-, inner, close⟩ | _ | ⟨-, named, equals, value⟩ | _ | _
  case parenthesised =>
    refine ⟨False.elim, maximal_append.mpr ⟨?_, ?_⟩⟩
    · rw [wordsAll_expectation close]
      exact inner.maximal
    · exact maximal_of_not_isExpression (not_isExpression_expectation close)
  case definition =>
    refine ⟨False.elim, maximal_append.mpr ⟨?_, maximal_append.mpr ⟨?_, value.maximal⟩⟩⟩
    · exact maximal_of_not_isExpression (not_isExpression_naming named)
    · exact maximal_of_not_isExpression (not_isExpression_expectation equals)
  all_goals exact absurd hk (by decide)

/-- **No operator follows an expression that is a statement.** -/
theorem ReadsFile.maximal {ls : List Lexeme} {os : List Outline} (h : ReadsFile ls os) :
    Maximal os [] := by
  induction h with
  | nil => trivial
  | separator _ _ ih => exact ⟨False.elim, ih⟩
  | unmatched _ _ ih | definition _ _ _ _ _ ih => exact ⟨fun ho => absurd ho (not_isExpression_node rfl), ih⟩
  | expression _ value more ih =>
    refine maximal_append.mpr ⟨?_, ih⟩
    rw [List.append_nil, more.wordsAll_eq]
    exact value.maximal

end Grammar

end LosslessSyntax
