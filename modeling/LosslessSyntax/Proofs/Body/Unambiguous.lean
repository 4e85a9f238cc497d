import LosslessSyntax.Proofs.Body.Writing

/-!
# Proofs/Body/Unambiguous — what is written can be told from its lexemes

The first lexemes of a term say what it is: a number, a name and what stands for a missing term begin
differently, and behind a parenthesis a sign tells an operation with one operand from one with two.  So a
term is read off the front of a list of lexemes in one way only (`Term.writing_append_inj`), and so are
the lines of sentences.  Legible sentences are cut into their lexemes, so they are told apart by the way
they are written.
-/

namespace LosslessSyntax

open Lexeme
open SyntaxKind (minus letKw)

/-! ## The first lexeme -/

theorem Lexeme.ofInt_inj {m n : Int} (h : ofInt m = ofInt n) : m = n :=
  Text.Integer.render_inj (congrArg Lexeme.text h)

theorem Lexeme.ofName_inj {m n : Name} (h : ofName m = ofName n) : m = n :=
  congrArg Name.mk (congrArg Lexeme.text h)

/-- The kind of an operator in writing says which one it is, if any. -/
theorem Lexeme.ofKind?_operator (op : Option BinaryOperator) :
    BinaryOperator.ofKind? (operator op).kind = op := by
  rcases op with _ | op
  · rfl
  · cases op <;> rfl

theorem Lexeme.operator_inj {op op' : Option BinaryOperator} (h : operator op = operator op') :
    op = op' := by
  rw [← ofKind?_operator op, h, ofKind?_operator op']

/-- A term begins neither with a sign nor with a keyword. -/
theorem Term.exists_first (t : Term) :
    ∃ l ls, t.writing = l :: ls ∧ l.kind ≠ minus ∧ l.kind ≠ letKw := by
  cases t <;> exact ⟨_, _, rfl, by simp [ofInt, ofName, leftParen], by simp [ofInt, ofName, leftParen]⟩

/-! ## Unique reading -/

/-- **A term is read off the front of lexemes in one way only.** -/
theorem Term.writing_append_inj {t u : Term} {ls ms : List Lexeme}
    (h : t.writing ++ ls = u.writing ++ ms) : t = u ∧ ls = ms := by
  induction t generalizing u ls ms with
  | missing =>
    cases u with
    | missing => exact ⟨rfl, by simpa [writing] using h⟩
    | _ => exact absurd h (by simp [writing, ofInt, ofName, leftParen])
  | int n =>
    cases u with
    | int m =>
      obtain ⟨hn, rfl⟩ := List.cons.inj h
      exact ⟨congrArg int (ofInt_inj hn), rfl⟩
    | _ => exact absurd h (by simp [writing, ofInt, ofName, leftParen])
  | var name =>
    cases u with
    | var name' =>
      obtain ⟨hname, rfl⟩ := List.cons.inj h
      exact ⟨congrArg var (ofName_inj hname), rfl⟩
    | _ => exact absurd h (by simp [writing, ofInt, ofName, leftParen])
  | unary op t ih =>
    cases u with
    | unary op' u =>
      obtain rfl : op = op' := by cases op; cases op'; rfl
      simp only [writing, List.cons_append, List.append_assoc, List.nil_append, List.cons.injEq,
        true_and] at h
      obtain ⟨rfl, hrest⟩ := ih h
      exact ⟨rfl, (List.cons.inj hrest).2⟩
    | binary op' u v =>
      -- a sign is not the first lexeme of a term
      obtain ⟨l, ks, hu, hl, -⟩ := u.exists_first
      simp only [writing, hu, List.cons_append, List.cons.injEq, true_and] at h
      exact absurd (congrArg Lexeme.kind h.1).symm hl
    | _ => exact absurd h (by simp [writing, ofInt, ofName, leftParen])
  | binary op t v ih ih' =>
    cases u with
    | unary op' u =>
      obtain ⟨l, ks, ht, hl, -⟩ := t.exists_first
      simp only [writing, ht, List.cons_append, List.cons.injEq, true_and] at h
      exact absurd (congrArg Lexeme.kind h.1) hl
    | binary op' u w =>
      simp only [writing, List.cons_append, List.append_assoc, List.nil_append, List.cons.injEq,
        true_and] at h
      obtain ⟨rfl, hrest⟩ := ih h
      simp only [List.cons.injEq, true_and] at hrest
      obtain rfl := operator_inj hrest.1
      obtain ⟨rfl, hclose⟩ := ih' hrest.2
      exact ⟨rfl, (List.cons.inj hclose).2⟩
    | _ => exact absurd h (by simp [writing, ofInt, ofName, leftParen])

/-- **A line is read off the front of lexemes in one way only.** -/
theorem Sentence.writing_append_inj {s r : Sentence} {ls ms : List Lexeme}
    (h : s.writing ++ ls = r.writing ++ ms) : s = r ∧ ls = ms := by
  rcases s with ⟨name, t⟩ | t <;> rcases r with ⟨name', u⟩ | u
  · simp only [writing, List.cons_append, List.append_assoc, List.nil_append, List.cons.injEq,
      true_and] at h
    obtain rfl := ofName_inj h.1
    obtain ⟨rfl, hrest⟩ := Term.writing_append_inj h.2
    exact ⟨rfl, (List.cons.inj hrest).2⟩
  · obtain ⟨l, ks, hu, -, hl⟩ := u.exists_first
    simp only [writing, hu, List.cons_append, List.cons.injEq] at h
    exact absurd (congrArg Lexeme.kind h.1).symm hl
  · obtain ⟨l, ks, ht, -, hl⟩ := t.exists_first
    simp only [writing, ht, List.cons_append, List.cons.injEq] at h
    exact absurd (congrArg Lexeme.kind h.1) hl
  · simp only [writing, List.append_assoc, List.singleton_append] at h
    obtain ⟨rfl, hrest⟩ := Term.writing_append_inj h
    exact ⟨rfl, (List.cons.inj hrest).2⟩

theorem Sentence.writing_ne_nil (s : Sentence) : s.writing ≠ [] := by
  cases s <;> simp [writing]

/-- **Sentences can be told from the lexemes of their lines.** -/
theorem flatMap_writing_inj {ss rs : List Sentence}
    (h : ss.flatMap Sentence.writing = rs.flatMap Sentence.writing) : ss = rs := by
  induction ss generalizing rs with
  | nil =>
    cases rs with
    | nil => rfl
    | cons r rs => exact absurd h.symm (by simp [r.writing_ne_nil])
  | cons s ss ih =>
    cases rs with
    | nil => exact absurd h (by simp [s.writing_ne_nil])
    | cons r rs =>
      rw [List.flatMap_cons, List.flatMap_cons] at h
      obtain ⟨rfl, hrest⟩ := Sentence.writing_append_inj h
      rw [ih hrest]

/-- **Legible sentences are told apart by the way they are written.** -/
theorem pretty_inj {ss rs : List Sentence} (hs : ∀ s ∈ ss, s.Legible) (hr : ∀ r ∈ rs, r.Legible)
    (h : (Body.ofSentences ss).pretty = (Body.ofSentences rs).pretty) : ss = rs := by
  refine flatMap_writing_inj ?_
  rw [← tokenize_pretty hs, h, tokenize_pretty hr]

end LosslessSyntax
