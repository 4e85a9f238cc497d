import LosslessSyntax.Grammar
import LosslessSyntax.Proofs.Outline

/-!
# Proofs/Grammar/Reading — what the grammar makes of words

The rules of the grammar, without a recorder: which outlines a rule makes of the words in front of it,
and which words it leaves (`Reads`, `ReadsFile`).  A rule that records a node has *found* it; one that
missed its node leaves a complaint, and perhaps an error node, where the node should be.
-/

namespace LosslessSyntax.Grammar

open SyntaxKind

/-! ## Rules without choice -/

/-- A complaint, with the next word in an error node unless an enclosing rule can go on there. -/
def recovery (c : Complaint) (stops : KindSet) : List Lexeme → List Outline × List Lexeme
  | [] => ([.error c], [])
  | l :: ls =>
    if stops.contains l.kind then ([.error c], l :: ls)
    else ([.node .error [.error c, .word l]], ls)

/-- The next word if it is of a kind, and a complaint otherwise. -/
def expectation (kind : SyntaxKind) : List Lexeme → List Outline × List Lexeme
  | [] => ([.error (.expected kind)], [])
  | l :: ls => if l.kind = kind then ([.word l], ls) else ([.error (.expected kind)], l :: ls)

/-- The name that a definition introduces. -/
def naming : List Lexeme → List Outline × List Lexeme
  | [] => recovery .expectedName nameStops []
  | l :: ls =>
    if l.kind = ident then ([.node name [.word l]], ls) else recovery .expectedName nameStops (l :: ls)

theorem expectation_of_kind {kind : SyntaxKind} {l : Lexeme} (h : l.kind = kind) (ls : List Lexeme) :
    expectation kind (l :: ls) = ([.word l], ls) := by
  rw [expectation, if_pos h]

theorem naming_of_kind {l : Lexeme} (h : l.kind = ident) (ls : List Lexeme) :
    naming (l :: ls) = ([.node name [.word l]], ls) := by
  rw [naming, if_pos h]

/-! ## Expressions -/

/-- What comes of a rule that may record a node. -/
inductive Outcome
  /-- The node. -/
  | found (o : Outline)
  /-- What stands where the node is missing. -/
  | missed (os : List Outline)

/-- The outlines that a rule has made. -/
def Outcome.items : Outcome → List Outline
  | found o => [o]
  | missed os => os

@[simp] theorem Outcome.items_found (o : Outline) : (found o).items = [o] := rfl

@[simp] theorem Outcome.items_missed (os : List Outline) : (missed os).items = os := rfl

/-- What is being read. -/
inductive Goal
  /-- An expression up to its first operator. -/
  | operand
  /-- The operators behind an operand that bind at least as tightly as given. -/
  | operations (power : Nat) (left : Outline)
  /-- An expression whose operators bind at least as tightly as given. -/
  | expression (power : Nat)

/-- What stands before the words that are read for a goal. -/
def Goal.before : Goal → List Outline
  | operations _ left => [left]
  | _ => []

/-- Whether an operand starts at a kind of token. -/
def startsOperand (k : SyntaxKind) : Bool := [intNumber, ident, minus, lParen].contains k

theorem startsOperand_iff {k : SyntaxKind} :
    startsOperand k = true ↔ k = intNumber ∨ k = ident ∨ k = minus ∨ k = lParen := by
  simp [startsOperand]

/-- **The rules of expressions**: what is read for a goal, and the words that are left. -/
inductive Reads : Goal → List Lexeme → Outcome → List Lexeme → Prop
  | number {l : Lexeme} {ls : List Lexeme} (hl : l.kind = intNumber) :
      Reads .operand (l :: ls) (.found (.node literal [.word l])) ls
  | reference {l : Lexeme} {ls : List Lexeme} (hl : l.kind = ident) :
      Reads .operand (l :: ls) (.found (.node nameRef [.word l])) ls
  | negation {l : Lexeme} {ls rest : List Lexeme} {x : Outcome} (hl : l.kind = minus)
      (inner : Reads (.expression UnaryOperator.negate.power) ls x rest) :
      Reads .operand (l :: ls) (.found (.node prefixExpr (.word l :: x.items))) rest
  | parenthesised {l : Lexeme} {ls mid rest : List Lexeme} {x : Outcome} {os : List Outline}
      (hl : l.kind = lParen) (inner : Reads (.expression 0) ls x mid)
      (close : expectation rParen mid = (os, rest)) :
      Reads .operand (l :: ls) (.found (.node parenExpr (.word l :: (x.items ++ os)))) rest
  | missing {ls rest : List Lexeme} {os : List Outline}
      (none : ∀ l ∈ ls.head?, startsOperand l.kind = false)
      (recover : recovery .expectedExpression expressionStops ls = (os, rest)) :
      Reads .operand ls (.missed os) rest
  | done {ls : List Lexeme} {power : Nat} {left : Outline}
      (none : ∀ l ∈ ls.head?, ∀ op, BinaryOperator.ofKind? l.kind = some op → op.leftPower < power) :
      Reads (.operations power left) ls (.found left) ls
  | operation {l : Lexeme} {ls mid rest : List Lexeme} {power : Nat} {left : Outline}
      {op : BinaryOperator} {x y : Outcome} (hl : BinaryOperator.ofKind? l.kind = some op)
      (binds : power ≤ op.leftPower) (inner : Reads (.expression op.rightPower) ls x mid)
      (more : Reads (.operations power (.node binExpr (left :: .word l :: x.items))) mid y rest) :
      Reads (.operations power left) (l :: ls) y rest
  | absent {ls rest : List Lexeme} {power : Nat} {os : List Outline}
      (first : Reads .operand ls (.missed os) rest) :
      Reads (.expression power) ls (.missed os) rest
  | present {ls mid rest : List Lexeme} {power : Nat} {left : Outline} {x : Outcome}
      (first : Reads .operand ls (.found left) mid)
      (more : Reads (.operations power left) mid x rest) : Reads (.expression power) ls x rest

/-! ## Files -/

/-- **The rules of files**: what the statements of a file are made into. -/
inductive ReadsFile : List Lexeme → List Outline → Prop
  | nil : ReadsFile [] []
  | separator {l : Lexeme} {ls : List Lexeme} {os : List Outline} (hl : l.kind = semi)
      (more : ReadsFile ls os) : ReadsFile (l :: ls) (.word l :: os)
  | unmatched {l : Lexeme} {ls : List Lexeme} {os : List Outline} (hl : l.kind = rParen)
      (more : ReadsFile ls os) :
      ReadsFile (l :: ls) (.node .error [.error .unmatchedParen, .word l] :: os)
  | definition {l : Lexeme} {ls ls₁ ls₂ rest : List Lexeme} {ns es os : List Outline} {x : Outcome}
      (hl : l.kind = letKw) (named : naming ls = (ns, ls₁)) (equals : expectation eq ls₁ = (es, ls₂))
      (value : Reads (.expression 0) ls₂ x rest) (more : ReadsFile rest os) :
      ReadsFile (l :: ls) (.node variableDef (.word l :: (ns ++ (es ++ x.items))) :: os)
  | expression {l : Lexeme} {ls rest : List Lexeme} {os : List Outline} {x : Outcome}
      (hl : expressionStops.contains l.kind = false) (value : Reads (.expression 0) (l :: ls) x rest)
      (more : ReadsFile rest os) : ReadsFile (l :: ls) (x.items ++ os)

/-! ## Words are neither lost nor added -/

theorem wordsAll_recovery {c : Complaint} {stops : KindSet} {ls rest : List Lexeme}
    {os : List Outline} (h : recovery c stops ls = (os, rest)) : Outline.wordsAll os ++ rest = ls := by
  cases ls with
  | nil =>
    obtain ⟨rfl, rfl⟩ := Prod.mk.inj h
    simp
  | cons l ls =>
    rw [recovery] at h
    split at h <;> obtain ⟨rfl, rfl⟩ := Prod.mk.inj h <;> simp

theorem wordsAll_expectation {kind : SyntaxKind} {ls rest : List Lexeme} {os : List Outline}
    (h : expectation kind ls = (os, rest)) : Outline.wordsAll os ++ rest = ls := by
  cases ls with
  | nil =>
    obtain ⟨rfl, rfl⟩ := Prod.mk.inj h
    simp
  | cons l ls =>
    rw [expectation] at h
    split at h <;> obtain ⟨rfl, rfl⟩ := Prod.mk.inj h <;> simp

theorem wordsAll_naming {ls rest : List Lexeme} {os : List Outline} (h : naming ls = (os, rest)) :
    Outline.wordsAll os ++ rest = ls := by
  cases ls with
  | nil =>
    rw [naming] at h
    exact wordsAll_recovery h
  | cons l ls =>
    rw [naming] at h
    split at h
    · obtain ⟨rfl, rfl⟩ := Prod.mk.inj h
      simp
    · exact wordsAll_recovery h

/-- **An expression is made of the words it was read from.** -/
theorem Reads.wordsAll_eq {g : Goal} {ls rest : List Lexeme} {x : Outcome} (h : Reads g ls x rest) :
    Outline.wordsAll x.items ++ rest = Outline.wordsAll g.before ++ ls := by
  induction h with
  | number | reference => simp [Goal.before]
  | negation _ _ ih => simpa [Goal.before] using ih
  | parenthesised _ _ close ih =>
    have := wordsAll_expectation close
    simp_all [Goal.before]
  | missing _ recover => simpa [Goal.before] using wordsAll_recovery recover
  | done => simp [Goal.before]
  | operation _ _ _ _ ih ih' =>
    rw [ih']
    simp only [Goal.before, Outline.wordsAll_cons, Outline.wordsAll_nil, Outline.words_node,
      Outline.words_word, List.append_nil, List.append_assoc, List.cons_append, List.nil_append] at ih ⊢
    rw [ih]
  | absent _ ih => exact ih
  | present _ _ ih ih' =>
    rw [ih']
    simpa [Goal.before] using ih

/-- **A file is made of all its words.** -/
theorem ReadsFile.wordsAll_eq {ls : List Lexeme} {os : List Outline} (h : ReadsFile ls os) :
    Outline.wordsAll os = ls := by
  induction h with
  | nil => simp
  | separator _ _ ih | unmatched _ _ ih => simp [ih]
  | definition _ named equals value _ ih =>
    have hvalue := value.wordsAll_eq
    simp only [Goal.before, Outline.wordsAll_nil, List.nil_append] at hvalue
    simp [ih, hvalue, wordsAll_expectation equals, wordsAll_naming named]
  | expression _ value _ ih =>
    rw [Outline.wordsAll_append, ih, value.wordsAll_eq]
    simp [Goal.before]

/-! ## Complaints -/

/-- A rule that gives up on a node complains once. -/
theorem complaintsAll_recovery {c : Complaint} {stops : KindSet} {ls rest : List Lexeme}
    {os : List Outline} (h : recovery c stops ls = (os, rest)) : Outline.complaintsAll os = [c] := by
  rcases ls with _ | ⟨l, ls⟩
  · obtain ⟨rfl, rfl⟩ := Prod.mk.inj h
    simp
  · rw [recovery] at h
    split at h <;> obtain ⟨rfl, rfl⟩ := Prod.mk.inj h <;> simp

theorem eq_cons_of_expectation {kind : SyntaxKind} {ls rest : List Lexeme} {os : List Outline}
    (h : expectation kind ls = (os, rest)) (hos : Outline.complaintsAll os = []) :
    ∃ l, ls = l :: rest ∧ l.kind = kind := by
  rcases ls with _ | ⟨l, ls⟩
  · obtain ⟨rfl, rfl⟩ := Prod.mk.inj h
    exact absurd hos (by simp)
  · rw [expectation] at h
    split at h <;> obtain ⟨rfl, rfl⟩ := Prod.mk.inj h
    · exact ⟨l, rfl, by assumption⟩
    · exact absurd hos (by simp)

theorem eq_cons_of_naming {ls rest : List Lexeme} {os : List Outline} (h : naming ls = (os, rest))
    (hos : Outline.complaintsAll os = []) : ∃ l, ls = l :: rest ∧ l.kind = ident := by
  rcases ls with _ | ⟨l, ls⟩
  · rw [naming] at h
    exact absurd hos (by simp [complaintsAll_recovery h])
  · rw [naming] at h
    split at h
    · obtain ⟨rfl, rfl⟩ := Prod.mk.inj h
      exact ⟨l, rfl, by assumption⟩
    · exact absurd hos (by simp [complaintsAll_recovery h])

/-- What was complained about on the left of an operator stays in front of what follows. -/
theorem Reads.complaintsAll_prefix {g : Goal} {ls rest : List Lexeme} {x : Outcome}
    (h : Reads g ls x rest) :
    Outline.complaintsAll g.before <+: Outline.complaintsAll x.items := by
  induction h with
  | done => exact List.prefix_refl _
  | operation _ _ _ _ _ ih =>
    refine .trans ?_ ih
    simp [Goal.before]
  | _ => exact List.nil_prefix

/-! ## Maximality -/

/-- **An expression is read as far as it goes**: the operators it leaves bind too loosely. -/
theorem Reads.leftPower_lt {power : Nat} {left : Outline} {ls rest : List Lexeme} {x : Outcome}
    (h : Reads (.operations power left) ls x rest) {l : Lexeme} (hl : l ∈ rest.head?)
    {op : BinaryOperator} (hop : BinaryOperator.ofKind? l.kind = some op) : op.leftPower < power := by
  generalize hg : Goal.operations power left = g at h
  induction h generalizing left with
  | done none =>
    obtain ⟨rfl, rfl⟩ := Goal.operations.inj hg
    exact none l hl op hop
  | operation _ _ _ _ _ ih =>
    obtain ⟨rfl, rfl⟩ := Goal.operations.inj hg
    exact ih hl rfl
  | _ => exact absurd hg (by simp)

theorem Reads.leftPower_lt_of_found {power : Nat} {o : Outline} {ls rest : List Lexeme}
    (h : Reads (.expression power) ls (.found o) rest) {l : Lexeme} (hl : l ∈ rest.head?)
    {op : BinaryOperator} (hop : BinaryOperator.ofKind? l.kind = some op) : op.leftPower < power := by
  rcases h with _ | _ | _ | _ | _ | _ | _ | _ | ⟨-, more⟩
  exact more.leftPower_lt hl hop

/-- No operator follows an expression that may have operators of any power. -/
theorem Reads.no_operator {o : Outline} {ls rest : List Lexeme}
    (h : Reads (.expression 0) ls (.found o) rest) {l : Lexeme} (hl : l ∈ rest.head?) :
    BinaryOperator.ofKind? l.kind = none := by
  rcases hop : BinaryOperator.ofKind? l.kind with _ | op
  · rfl
  · exact absurd (h.leftPower_lt_of_found hl hop) (Nat.not_lt_zero _)

/-! ## Progress -/

theorem suffix_of_wordsAll {ls rest : List Lexeme} {os : List Outline}
    (h : Outline.wordsAll os ++ rest = ls) : rest <:+ ls := ⟨_, h⟩

/-- Where an expression is read, words are only taken from the front. -/
theorem Reads.suffix {g : Goal} {ls rest : List Lexeme} {x : Outcome} (h : Reads g ls x rest) :
    rest <:+ ls := by
  induction h with
  | number | reference => exact List.suffix_cons _ _
  | negation _ _ ih => exact ih.trans (List.suffix_cons _ _)
  | parenthesised _ _ close ih =>
    exact ((suffix_of_wordsAll (wordsAll_expectation close)).trans ih).trans (List.suffix_cons _ _)
  | missing _ recover => exact suffix_of_wordsAll (wordsAll_recovery recover)
  | done => exact List.suffix_refl _
  | operation _ _ _ _ ih ih' => exact (ih'.trans ih).trans (List.suffix_cons _ _)
  | absent _ ih => exact ih
  | present _ _ ih ih' => exact ih'.trans ih

/-- **An operand that starts at a token at which no rule around it goes on takes that token.** -/
theorem Reads.suffix_tail_operand {l : Lexeme} {ls rest : List Lexeme} {x : Outcome}
    (h : Reads .operand (l :: ls) x rest) (hl : expressionStops.contains l.kind = false) :
    rest <:+ ls := by
  cases h with
  | number | reference => exact List.suffix_refl _
  | negation _ inner => exact inner.suffix
  | parenthesised _ inner close =>
    exact (suffix_of_wordsAll (wordsAll_expectation close)).trans inner.suffix
  | missing _ recover =>
    rw [recovery, hl] at recover
    obtain ⟨-, rfl⟩ := Prod.mk.inj recover
    exact List.suffix_refl _

/-- So does an expression. -/
theorem Reads.suffix_tail {l : Lexeme} {ls rest : List Lexeme} {x : Outcome} {power : Nat}
    (h : Reads (.expression power) (l :: ls) x rest)
    (hl : expressionStops.contains l.kind = false) : rest <:+ ls := by
  cases h with
  | absent first => exact first.suffix_tail_operand hl
  | present first more => exact more.suffix.trans (first.suffix_tail_operand hl)

/-- An operand that was found has taken a token. -/
theorem Reads.length_lt_of_found {ls rest : List Lexeme} {o : Outline}
    (h : Reads .operand ls (.found o) rest) : rest.length < ls.length := by
  cases h with
  | number | reference => exact Nat.lt_succ_self _
  | negation _ inner => exact Nat.lt_succ_of_le inner.suffix.length_le
  | parenthesised _ inner close =>
    exact Nat.lt_succ_of_le
      ((suffix_of_wordsAll (wordsAll_expectation close)).trans inner.suffix).length_le

/-- An operator is followed to its end, so a node always comes of it. -/
theorem Reads.found_of_operations {power : Nat} {left : Outline} {ls rest : List Lexeme} {x : Outcome}
    (h : Reads (.operations power left) ls x rest) : ∃ o, x = .found o := by
  generalize hg : Goal.operations power left = g at h
  induction h generalizing left with
  | done => exact ⟨_, rfl⟩
  | operation _ _ _ _ _ ih =>
    obtain ⟨rfl, rfl⟩ := Goal.operations.inj hg
    exact ih rfl
  | _ => exact absurd hg (by simp)

end LosslessSyntax.Grammar
