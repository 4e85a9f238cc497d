import LosslessSyntax.Proofs.Grammar.Reading

/-!
# Proofs/Grammar/Junction — one reading, and where a file may be cut in two

The rules never have a choice: the next word decides which of them goes on, so words are read in one way
only (`ReadsFile.unique`).  In front of a semicolon or of the keyword of a definition every rule that is
still open gives up just as it does at the end of the text: it takes nothing, and makes the same
complaints.  A file that is cut there can be read in two halves (`ReadsFile.append`).
-/

namespace LosslessSyntax.Grammar

open SyntaxKind

/-! ## One reading -/

/-- **An expression is read in one way only.** -/
theorem Reads.unique {g : Goal} {ls rest rest' : List Lexeme} {x y : Outcome} (h : Reads g ls x rest)
    (h' : Reads g ls y rest') : x = y ∧ rest = rest' := by
  induction h generalizing y rest' with
  | number hl =>
    cases h' with
    | number => exact ⟨rfl, rfl⟩
    | missing none => exact absurd (none _ rfl) (by simp [startsOperand, hl])
    | reference hl' | negation hl' | parenthesised hl' => exact absurd (hl.symm.trans hl') (by decide)
  | reference hl =>
    cases h' with
    | reference => exact ⟨rfl, rfl⟩
    | missing none => exact absurd (none _ rfl) (by simp [startsOperand, hl])
    | number hl' | negation hl' | parenthesised hl' => exact absurd (hl.symm.trans hl') (by decide)
  | negation hl _ ih =>
    cases h' with
    | negation _ inner =>
      obtain ⟨rfl, rfl⟩ := ih inner
      exact ⟨rfl, rfl⟩
    | missing none => exact absurd (none _ rfl) (by simp [startsOperand, hl])
    | number hl' | reference hl' | parenthesised hl' => exact absurd (hl.symm.trans hl') (by decide)
  | parenthesised hl _ close ih =>
    cases h' with
    | parenthesised _ inner close' =>
      obtain ⟨rfl, rfl⟩ := ih inner
      obtain ⟨rfl, rfl⟩ := Prod.mk.inj (close.symm.trans close')
      exact ⟨rfl, rfl⟩
    | missing none => exact absurd (none _ rfl) (by simp [startsOperand, hl])
    | number hl' | reference hl' | negation hl' => exact absurd (hl.symm.trans hl') (by decide)
  | missing none recover =>
    cases h' with
    | missing _ recover' =>
      obtain ⟨rfl, rfl⟩ := Prod.mk.inj (recover.symm.trans recover')
      exact ⟨rfl, rfl⟩
    | number hl | reference hl | negation hl | parenthesised hl =>
      exact absurd (none _ rfl) (by simp [startsOperand, hl])
  | done none =>
    cases h' with
    | done => exact ⟨rfl, rfl⟩
    | operation hl binds => exact absurd binds (Nat.not_le.mpr (none _ rfl _ hl))
  | operation hl binds _ _ ih ih' =>
    cases h' with
    | done none => exact absurd binds (Nat.not_le.mpr (none _ rfl _ hl))
    | operation hl' _ inner more =>
      obtain rfl := Option.some.inj (hl.symm.trans hl')
      obtain ⟨rfl, rfl⟩ := ih inner
      exact ih' more
  | absent _ ih =>
    cases h' with
    | absent first => exact ih first
    | present first => exact absurd (ih first).1 (by simp)
  | present _ _ ih ih' =>
    cases h' with
    | absent first => exact absurd (ih first).1 (by simp)
    | present first more =>
      obtain ⟨hleft, rfl⟩ := ih first
      obtain rfl := Outcome.found.inj hleft
      exact ih' more

theorem contains_expressionStops {k : SyntaxKind} :
    expressionStops.contains k = true ↔ k = letKw ∨ k = semi ∨ k = rParen := by
  simp [expressionStops]

/-- **A file is read in one way only.** -/
theorem ReadsFile.unique {ls : List Lexeme} {os ps : List Outline} (h : ReadsFile ls os)
    (h' : ReadsFile ls ps) : os = ps := by
  induction h generalizing ps with
  | nil =>
    cases h'
    rfl
  | separator hl _ ih =>
    cases h' with
    | separator _ more => rw [ih more]
    | unmatched hl' | definition hl' => exact absurd (hl.symm.trans hl') (by decide)
    | expression hl' => exact absurd hl' (by simp [contains_expressionStops, hl])
  | unmatched hl _ ih =>
    cases h' with
    | unmatched _ more => rw [ih more]
    | separator hl' | definition hl' => exact absurd (hl.symm.trans hl') (by decide)
    | expression hl' => exact absurd hl' (by simp [contains_expressionStops, hl])
  | definition hl named equals value _ ih =>
    cases h' with
    | definition _ named' equals' value' more =>
      obtain ⟨rfl, rfl⟩ := Prod.mk.inj (named.symm.trans named')
      obtain ⟨rfl, rfl⟩ := Prod.mk.inj (equals.symm.trans equals')
      obtain ⟨rfl, rfl⟩ := value.unique value'
      rw [ih more]
    | separator hl' | unmatched hl' => exact absurd (hl.symm.trans hl') (by decide)
    | expression hl' => exact absurd hl' (by simp [contains_expressionStops, hl])
  | expression hl value _ ih =>
    cases h' with
    | expression _ value' more =>
      obtain ⟨rfl, rfl⟩ := value.unique value'
      rw [ih more]
    | separator hl' | unmatched hl' | definition hl' =>
      exact absurd hl (by simp [contains_expressionStops, hl'])

/-! ## Two halves -/

/-- A semicolon or a definition comes first: whatever is still open before these words ends there. -/
def BeginsAfresh (ls : List Lexeme) : Prop := ∃ l ∈ ls.head?, l.kind = semi ∨ l.kind = letKw

theorem BeginsAfresh.exists_cons {ls : List Lexeme} (h : BeginsAfresh ls) :
    ∃ m ms, ls = m :: ms ∧ (m.kind = semi ∨ m.kind = letKw) := by
  obtain ⟨m, hm, hk⟩ := h
  obtain ⟨ms, rfl⟩ := List.head?_eq_some_iff.mp hm
  exact ⟨m, ms, rfl, hk⟩

section Append

variable {ls ms rest : List Lexeme} {os ps : List Outline}

theorem recovery_append {c : Complaint} {stops : KindSet} (h : recovery c stops ls = (os, rest))
    (hm : BeginsAfresh ms) (hsemi : stops.contains semi = true) (hlet : stops.contains letKw = true) :
    recovery c stops (ls ++ ms) = (os, rest ++ ms) := by
  obtain ⟨m, ms, rfl, hk⟩ := hm.exists_cons
  cases ls with
  | nil =>
    obtain ⟨rfl, rfl⟩ := Prod.mk.inj h
    have hstop : stops.contains m.kind = true := by
      rcases hk with hk | hk <;> rw [hk] <;> assumption
    rw [List.nil_append, recovery, if_pos hstop]
  | cons l ls =>
    rw [recovery] at h
    rw [List.cons_append, recovery]
    split at h <;> obtain ⟨rfl, rfl⟩ := Prod.mk.inj h
    · next hl => rw [if_pos hl, List.cons_append]
    · next hl => rw [if_neg hl]

theorem expectation_append {kind : SyntaxKind} (h : expectation kind ls = (os, rest))
    (hm : BeginsAfresh ms) (hsemi : kind ≠ semi) (hlet : kind ≠ letKw) :
    expectation kind (ls ++ ms) = (os, rest ++ ms) := by
  obtain ⟨m, ms, rfl, hk⟩ := hm.exists_cons
  cases ls with
  | nil =>
    obtain ⟨rfl, rfl⟩ := Prod.mk.inj h
    have hne : m.kind ≠ kind := by
      rcases hk with hk | hk <;> rw [hk] <;> exact Ne.symm (by assumption)
    rw [List.nil_append, expectation, if_neg hne]
  | cons l ls =>
    rw [expectation] at h
    rw [List.cons_append, expectation]
    split at h <;> obtain ⟨rfl, rfl⟩ := Prod.mk.inj h
    · next hl => rw [if_pos hl]
    · next hl => rw [if_neg hl, List.cons_append]

theorem naming_append (h : naming ls = (os, rest)) (hm : BeginsAfresh ms) :
    naming (ls ++ ms) = (os, rest ++ ms) := by
  cases ls with
  | nil =>
    rw [naming] at h
    have hrec := recovery_append h hm (by decide) (by decide)
    obtain ⟨m, ms, rfl, hk⟩ := hm.exists_cons
    have hne : m.kind ≠ ident := by rcases hk with hk | hk <;> rw [hk] <;> decide
    rwa [List.nil_append, naming, if_neg hne]
  | cons l ls =>
    rw [naming] at h
    rw [List.cons_append, naming]
    split at h
    · next hl =>
      obtain ⟨rfl, rfl⟩ := Prod.mk.inj h
      rw [if_pos hl]
    · next hl =>
      rw [if_neg hl]
      exact recovery_append h hm (by decide) (by decide)

/-- No operand and no operator begins where a file begins afresh. -/
theorem BeginsAfresh.forall_head (hm : BeginsAfresh ms) {p : SyntaxKind → Prop}
    (h : ∀ l ∈ ls.head?, p l.kind) (hsemi : p semi) (hlet : p letKw) :
    ∀ l ∈ (ls ++ ms).head?, p l.kind := by
  cases ls with
  | nil =>
    obtain ⟨m, ms, rfl, hk⟩ := hm.exists_cons
    intro l hl
    obtain rfl := Option.some.inj hl
    rcases hk with hk | hk <;> rw [hk] <;> assumption
  | cons l ls => exact h

/-- **An expression ends where the file begins afresh as it does at the end of the text.** -/
theorem Reads.append {g : Goal} {x : Outcome} (h : Reads g ls x rest) (hm : BeginsAfresh ms) :
    Reads g (ls ++ ms) x (rest ++ ms) := by
  induction h with
  | number hl => exact .number hl
  | reference hl => exact .reference hl
  | negation hl _ ih => exact .negation hl ih
  | parenthesised hl _ close ih =>
    exact .parenthesised hl ih (expectation_append close hm (by decide) (by decide))
  | missing none recover =>
    exact .missing (hm.forall_head (p := fun k => startsOperand k = false) none rfl rfl)
      (recovery_append recover hm (by decide) (by decide))
  | @done _ power _ none =>
    refine .done (hm.forall_head (p := fun k => ∀ op, BinaryOperator.ofKind? k = some op →
      op.leftPower < power) none ?_ ?_) <;>
    · intro op hop
      exact absurd hop (by simp [BinaryOperator.ofKind?])
  | operation hl binds _ _ ih ih' => exact .operation hl binds ih ih'
  | absent _ ih => exact .absent ih
  | present _ _ ih ih' => exact .present ih ih'

/-- **A file that begins afresh somewhere is read in two halves.** -/
theorem ReadsFile.append (h : ReadsFile ls os) (hm : BeginsAfresh ms) (h' : ReadsFile ms ps) :
    ReadsFile (ls ++ ms) (os ++ ps) := by
  induction h with
  | nil => exact h'
  | separator hl _ ih => exact .separator hl ih
  | unmatched hl _ ih => exact .unmatched hl ih
  | definition hl named equals value _ ih =>
    exact .definition hl (naming_append named hm)
      (expectation_append equals hm (by decide) (by decide)) (value.append hm) ih
  | expression hl value _ ih =>
    rw [List.append_assoc]
    exact .expression hl (value.append hm) ih

end Append

end LosslessSyntax.Grammar
