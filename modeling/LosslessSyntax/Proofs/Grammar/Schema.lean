import LosslessSyntax.Proofs.Grammar.Reading

/-!
# Proofs/Grammar/Schema — what the nodes of a file are made of

Every node the rules make is made in one of a few ways (`Made`), whatever the words: each way says what
the children of the node are, and what was read to get them.  What a node looks like, which operators
may stand below which, and where an expression ends are all questions about these ways.
-/

namespace LosslessSyntax.Grammar

open SyntaxKind Outline

/-! ## Expressions -/

/-- Whether an outline is an expression. -/
def IsExpression : Outline → Prop
  | .node kind _ => kind.isExpr = true
  | _ => False

theorem exists_node_of_isExpression {o : Outline} (h : IsExpression o) :
    ∃ kind os, o = .node kind os ∧ kind.isExpr = true := by
  rcases o with _ | _ | ⟨kind, os⟩
  · exact h.elim
  · exact h.elim
  · exact ⟨kind, os, rfl, h⟩

/-- A node that is found is an expression. -/
theorem Reads.isExpression {g : Goal} {ls rest : List Lexeme} {x : Outcome} (h : Reads g ls x rest)
    (hbefore : ∀ o ∈ g.before, IsExpression o) : ∀ o, x = .found o → IsExpression o := by
  induction h with
  | number | reference | negation | parenthesised =>
    rintro o ⟨⟩
    rfl
  | missing => exact fun o ho => absurd ho (by simp)
  | done =>
    rintro o ⟨⟩
    exact hbefore _ List.mem_cons_self
  | operation _ _ _ _ _ ih =>
    refine ih fun o ho => ?_
    obtain rfl := List.mem_singleton.mp ho
    rfl
  | absent _ _ => exact fun o ho => absurd ho (by simp)
  | present _ _ ih ih' =>
    refine ih' fun o ho => ?_
    obtain rfl := List.mem_singleton.mp ho
    exact ih (List.forall_mem_nil _) _ rfl

/-- Where a node is missed, there is a complaint, alone or with a word in an error node. -/
inductive Recovery : List Outline → Prop
  | complaint (c : Complaint) : Recovery [.error c]
  | skipped (c : Complaint) (l : Lexeme) : Recovery [.node error [.error c, .word l]]

theorem recovery_of_eq {c : Complaint} {stops : KindSet} {ls rest : List Lexeme} {os : List Outline}
    (h : recovery c stops ls = (os, rest)) : Recovery os := by
  rcases ls with _ | ⟨l, ls⟩
  · obtain ⟨rfl, rfl⟩ := Prod.mk.inj h
    exact .complaint c
  · rw [recovery] at h
    split at h <;> obtain ⟨rfl, rfl⟩ := Prod.mk.inj h
    · exact .complaint c
    · exact .skipped c l

theorem Reads.recovery_of_missed {power : Nat} {ls rest : List Lexeme} {os : List Outline}
    (h : Reads (.expression power) ls (.missed os) rest) : Recovery os := by
  rcases h with _ | _ | _ | _ | _ | _ | _ | first | ⟨-, more⟩
  · rcases first with _ | _ | _ | _ | ⟨-, recover⟩
    exact recovery_of_eq recover
  · obtain ⟨o, ho⟩ := more.found_of_operations
    exact absurd ho (by simp)

/-- **What is read as an expression** is one, or stands where one is missed. -/
theorem Reads.isExpression_or_recovery {power : Nat} {ls rest : List Lexeme} {x : Outcome}
    (h : Reads (.expression power) ls x rest) :
    (∃ o, x = .found o ∧ IsExpression o) ∨ Recovery x.items := by
  rcases x with o | os
  · exact .inl ⟨o, rfl, h.isExpression (List.forall_mem_nil _) o rfl⟩
  · exact .inr h.recovery_of_missed

/-! ## Words -/

theorem Recovery.word_notMem {os : List Outline} (h : Recovery os) (l : Lexeme) : .word l ∉ os := by
  rcases h with _ | _ <;> simp

/-- What is read as an expression is not a word. -/
theorem Reads.word_notMem {power : Nat} {ls rest : List Lexeme} {x : Outcome}
    (h : Reads (.expression power) ls x rest) (l : Lexeme) : .word l ∉ x.items := by
  rcases h.isExpression_or_recovery with ⟨o, rfl, ho⟩ | hrec
  · obtain ⟨kind, os, rfl, -⟩ := exists_node_of_isExpression ho
    simp
  · exact hrec.word_notMem l

theorem word_notMem_naming {ls rest : List Lexeme} {os : List Outline} (h : naming ls = (os, rest))
    (l : Lexeme) : .word l ∉ os := by
  rcases ls with _ | ⟨m, ls⟩
  · rw [naming] at h
    exact (recovery_of_eq h).word_notMem l
  · rw [naming] at h
    split at h
    · obtain ⟨rfl, rfl⟩ := Prod.mk.inj h
      simp
    · exact (recovery_of_eq h).word_notMem l

theorem kind_of_mem_expectation {kind : SyntaxKind} {ls rest : List Lexeme} {os : List Outline}
    (h : expectation kind ls = (os, rest)) {l : Lexeme} (hl : .word l ∈ os) : l.kind = kind := by
  rcases ls with _ | ⟨m, ls⟩
  · obtain ⟨rfl, rfl⟩ := Prod.mk.inj h
    exact absurd hl (by simp)
  · rw [expectation] at h
    split at h
    · next hm =>
      obtain ⟨rfl, rfl⟩ := Prod.mk.inj h
      obtain rfl : l = m := by simpa using hl
      exact hm
    · obtain ⟨rfl, rfl⟩ := Prod.mk.inj h
      exact absurd hl (by simp)

/-- The words of a file that belong to no node separate statements. -/
theorem ReadsFile.kind_of_mem {ls : List Lexeme} {os : List Outline} (h : ReadsFile ls os)
    {l : Lexeme} (hmem : .word l ∈ os) : l.kind = semi := by
  induction h with
  | nil => exact absurd hmem List.not_mem_nil
  | separator hl _ ih =>
    rcases List.mem_cons.mp hmem with heq | hmem
    · obtain rfl := Outline.word.inj heq
      exact hl
    · exact ih hmem
  | unmatched _ _ ih | definition _ _ _ _ _ ih =>
    exact ih ((List.mem_cons.mp hmem).resolve_left (by simp))
  | expression _ value _ ih =>
    exact ih ((List.mem_append.mp hmem).resolve_left (value.word_notMem l))

/-! ## Nodes -/

/-- **How a node is made** in front of the words that follow it. -/
inductive Made : SyntaxKind → List Outline → List Lexeme → Prop
  | number {l : Lexeme} {ws : List Lexeme} (hl : l.kind = intNumber) : Made literal [.word l] ws
  | reference {l : Lexeme} {ws : List Lexeme} (hl : l.kind = ident) : Made nameRef [.word l] ws
  | name {l : Lexeme} {ws : List Lexeme} (hl : l.kind = ident) : Made name [.word l] ws
  | negation {l : Lexeme} {ls ws : List Lexeme} {x : Outcome} (hl : l.kind = minus)
      (inner : Reads (.expression UnaryOperator.negate.power) ls x ws) :
      Made prefixExpr (.word l :: x.items) ws
  | parenthesised {l : Lexeme} {ls mid ws : List Lexeme} {x : Outcome} {os : List Outline}
      (hl : l.kind = lParen) (inner : Reads (.expression 0) ls x mid)
      (close : expectation rParen mid = (os, ws)) : Made parenExpr (.word l :: (x.items ++ os)) ws
  | operation {l : Lexeme} {ls ws : List Lexeme} {left : Outline} {op : BinaryOperator} {x : Outcome}
      (hleft : IsExpression left) (hl : BinaryOperator.ofKind? l.kind = some op)
      (inner : Reads (.expression op.rightPower) ls x ws) :
      Made binExpr (left :: .word l :: x.items) ws
  | definition {l : Lexeme} {ls ls₁ ls₂ ws : List Lexeme} {ns es : List Outline} {x : Outcome}
      (hl : l.kind = letKw) (named : naming ls = (ns, ls₁)) (equals : expectation eq ls₁ = (es, ls₂))
      (value : Reads (.expression 0) ls₂ x ws) :
      Made variableDef (.word l :: (ns ++ (es ++ x.items))) ws
  | skipped {c : Complaint} {l : Lexeme} {ws : List Lexeme}
      (hl : expressionStops.contains l.kind = false) : Made error [.error c, .word l] ws
  | unmatched {l : Lexeme} {ws : List Lexeme} (hl : l.kind = rParen) :
      Made error [.error .unmatchedParen, .word l] ws

/-- A number is read as a literal, or else it is skipped with a complaint. -/
theorem Made.eq_literal {kind : SyntaxKind} {os : List Outline} {ws : List Lexeme} {l : Lexeme}
    (h : Made kind os ws) (hos : complaintsAll os = []) (hmem : .word l ∈ os)
    (hl : l.kind = intNumber) : kind = literal := by
  rcases h with _ | hk | hk | ⟨hk, inner⟩ | ⟨hk, inner, close⟩ | ⟨hleft, hop, inner⟩ |
    ⟨hk, named, equals, value⟩ | _ | _
  · rfl
  · obtain rfl : l = _ := by simpa using hmem
    exact absurd (hl.symm.trans hk) (by decide)
  · obtain rfl : l = _ := by simpa using hmem
    exact absurd (hl.symm.trans hk) (by decide)
  · obtain rfl : l = _ := by simpa [inner.word_notMem] using hmem
    exact absurd (hl.symm.trans hk) (by decide)
  · simp only [List.mem_cons, Outline.word.injEq, List.mem_append, inner.word_notMem, false_or] at hmem
    rcases hmem with rfl | hmem
    · exact absurd (hl.symm.trans hk) (by decide)
    · exact absurd (hl.symm.trans (kind_of_mem_expectation close hmem)) (by decide)
  · simp only [List.mem_cons, Outline.word.injEq, inner.word_notMem, or_false] at hmem
    rcases hmem with rfl | rfl
    · exact hleft.elim
    · rw [hl] at hop
      exact absurd hop (by simp [BinaryOperator.ofKind?])
  · simp only [List.mem_cons, Outline.word.injEq, List.mem_append, word_notMem_naming named,
      value.word_notMem, false_or, or_false] at hmem
    rcases hmem with rfl | hmem
    · exact absurd (hl.symm.trans hk) (by decide)
    · exact absurd (hl.symm.trans (kind_of_mem_expectation equals hmem)) (by decide)
  · exact absurd hos (by simp)
  · exact absurd hos (by simp)

theorem every_recovery {c : Complaint} {stops : KindSet} {ls rest : List Lexeme} {os : List Outline}
    (h : recovery c stops ls = (os, rest))
    (hstops : ∀ k, stops.contains k = false → expressionStops.contains k = false) :
    EveryAll Made os rest := by
  rcases ls with _ | ⟨l, ls⟩
  · obtain ⟨rfl, rfl⟩ := Prod.mk.inj h
    simp
  · rw [recovery] at h
    split at h
    · obtain ⟨rfl, rfl⟩ := Prod.mk.inj h
      simp
    · next hl =>
      obtain ⟨rfl, rfl⟩ := Prod.mk.inj h
      have made : Made error [.error c, .word l] ls :=
        .skipped (hstops _ (Bool.eq_false_iff.mpr hl))
      simpa using made

theorem every_expectation {kind : SyntaxKind} {ls rest : List Lexeme} {os : List Outline}
    (h : expectation kind ls = (os, rest)) (ws : List Lexeme) : EveryAll Made os ws := by
  rcases ls with _ | ⟨l, ls⟩
  · obtain ⟨rfl, rfl⟩ := Prod.mk.inj h
    simp
  · rw [expectation] at h
    split at h <;> obtain ⟨rfl, rfl⟩ := Prod.mk.inj h <;> simp

theorem expressionStops_of_nameStops (k : SyntaxKind) (h : nameStops.contains k = false) :
    expressionStops.contains k = false := by
  cases k <;> first | rfl | exact absurd h (by decide)

theorem every_naming {ls rest : List Lexeme} {os : List Outline} (h : naming ls = (os, rest)) :
    EveryAll Made os rest := by
  rcases ls with _ | ⟨l, ls⟩
  · rw [naming] at h
    exact every_recovery h expressionStops_of_nameStops
  · rw [naming] at h
    split at h
    · next hl =>
      obtain ⟨rfl, rfl⟩ := Prod.mk.inj h
      have made : Made name [.word l] ls := .name hl
      simpa using made
    · exact every_recovery h expressionStops_of_nameStops

/-- **Every node that is read for a goal is made in one of the ways.** -/
theorem Reads.every {g : Goal} {ls rest : List Lexeme} {x : Outcome} (h : Reads g ls x rest)
    (hbefore : EveryAll Made g.before ls) (hexpr : ∀ o ∈ g.before, IsExpression o) :
    EveryAll Made x.items rest := by
  induction h with
  | @number l ls hl =>
    have made : Made literal [.word l] ls := .number hl
    simpa using made
  | @reference l ls hl =>
    have made : Made nameRef [.word l] ls := .reference hl
    simpa using made
  | negation hl inner ih =>
    have hinner := ih (everyAll_nil _) (List.forall_mem_nil _)
    have made := Made.negation hl inner
    simp [made, hinner]
  | parenthesised hl inner close ih =>
    have hinner := ih (everyAll_nil _) (List.forall_mem_nil _)
    have made := Made.parenthesised hl inner close
    have hwords := wordsAll_expectation close
    simp [made, hinner, hwords, every_expectation close]
  | missing _ recover => exact every_recovery recover fun _ => id
  | done => exact hbefore
  | @operation l ls mid rest power left op x y hl binds inner more ih ih' =>
    have hleft := hexpr left List.mem_cons_self
    have hinner := ih (everyAll_nil _) (List.forall_mem_nil _)
    have made := Made.operation hleft hl inner
    have hwords := inner.wordsAll_eq
    simp only [Goal.before, wordsAll_nil, List.nil_append] at hwords
    have hevery : left.Every Made (l :: ls) := by simpa [Goal.before] using hbefore
    refine ih' (by simp [Goal.before, made, hinner, hwords, hevery]) fun o ho => ?_
    obtain rfl := List.mem_singleton.mp ho
    rfl
  | absent _ ih => exact ih (everyAll_nil _) (List.forall_mem_nil _)
  | present first _ ih ih' =>
    have hfirst := ih (everyAll_nil _) (List.forall_mem_nil _)
    refine ih' hfirst fun o ho => ?_
    obtain rfl := List.mem_singleton.mp ho
    exact first.isExpression (List.forall_mem_nil _) _ rfl

/-- **Every node of a file is made in one of the ways.** -/
theorem ReadsFile.every {ls : List Lexeme} {os : List Outline} (h : ReadsFile ls os) :
    EveryAll Made os [] := by
  induction h with
  | nil => simp
  | separator _ _ ih => simpa using ih
  | @unmatched l ls os hl more ih =>
    have made : Made error [.error .unmatchedParen, .word l] ls := .unmatched hl
    simp [made, ih, more.wordsAll_eq]
  | definition hl named equals value more ih =>
    have made := Made.definition hl named equals value
    have hvalue := value.every (everyAll_nil _) (List.forall_mem_nil _)
    have hwords := value.wordsAll_eq
    simp only [Goal.before, wordsAll_nil, List.nil_append] at hwords
    have hequals := wordsAll_expectation equals
    simp [made, ih, more.wordsAll_eq, hvalue, hwords, hequals, every_expectation equals,
      every_naming named]
  | expression _ value more ih =>
    have hvalue := value.every (everyAll_nil _) (List.forall_mem_nil _)
    simp [ih, more.wordsAll_eq, hvalue]

end LosslessSyntax.Grammar
