import LosslessSyntax.Proofs.Grammar.Reading
import LosslessSyntax.Proofs.Tree.Planting

/-!
# Proofs/Grammar/Charge — what is made of words is charged to their bytes

Every word and every complaint of an outline takes one instruction to build, and every node two more.
Four instructions are charged to each byte of the words that are read, which pays for the words, the
nodes over them and the complaints about them, with one exception: a complaint at which no word is
skipped.  Such a complaint waits at the words that are left (`slack`, `debt`) until the rule that goes on
there has paid for it, or else the file has ended.
-/

namespace LosslessSyntax

open SyntaxKind Outline
open Lexeme (extent)

/-- The number of instructions that build outlines one behind the other. -/
def Outline.cost (os : List Outline) : Nat := (callsAll os).length

namespace Outline

variable (os ps : List Outline)

@[simp] theorem cost_nil : cost [] = 0 := by simp [cost]

@[simp] theorem cost_word (l : Lexeme) : cost (.word l :: os) = cost os + 1 := by simp [cost]

@[simp] theorem cost_error (c : Complaint) : cost (.error c :: os) = cost os + 1 := by simp [cost]

@[simp] theorem cost_node (kind : SyntaxKind) : cost (.node kind os :: ps) = cost os + 2 + cost ps := by
  simp only [cost, callsAll_cons, calls_node, List.length_append, List.length_cons, List.length_nil]

@[simp] theorem cost_append : cost (os ++ ps) = cost os + cost ps := by simp [cost]

end Outline

namespace Grammar

/-! ## Words that pay -/

/-- **Words that can pay**: each has a byte at least, and a keyword two. -/
def Pays (ls : List Lexeme) : Prop := ∀ l ∈ ls, 1 ≤ l.length ∧ (l.kind = letKw → 2 ≤ l.length)

variable {l : Lexeme} {ls rest mid : List Lexeme} {os : List Outline} {g : Goal} {x : Outcome}

theorem Pays.suffix (h : Pays ls) (hs : rest <:+ ls) : Pays rest := fun l hl => h l (hs.mem hl)

theorem Pays.tail (h : Pays (l :: ls)) : Pays ls := h.suffix (List.suffix_cons l ls)

theorem Pays.head (h : Pays (l :: ls)) : 1 ≤ l.length := (h l List.mem_cons_self).1

/-- What a node that was found may still owe: a complaint, where a statement or the text ends. -/
def slack : List Lexeme → Nat
  | [] => 1
  | l :: _ => if l.kind = letKw ∨ l.kind = semi then 1 else 0

/-- What may still be owed where a node is missing: a complaint, if no word was skipped. -/
def debt : List Lexeme → Nat
  | [] => 1
  | l :: _ => if expressionStops.contains l.kind then 1 else 0

/-- What may still be owed for an outcome in front of the words that are left. -/
def Outcome.owed : Outcome → List Lexeme → Nat
  | found _, rest => slack rest
  | missed _, rest => debt rest

@[simp] theorem Outcome.owed_found (o : Outline) : (found o).owed rest = slack rest := rfl

@[simp] theorem Outcome.owed_missed (os : List Outline) : (missed os).owed rest = debt rest := rfl

theorem slack_le (ls : List Lexeme) : slack ls ≤ 1 := by
  rcases ls with _ | ⟨l, ls⟩
  · exact Nat.le_refl 1
  · rw [slack]
    split <;> omega

theorem debt_le (ls : List Lexeme) : debt ls ≤ 1 := by
  rcases ls with _ | ⟨l, ls⟩
  · exact Nat.le_refl 1
  · rw [debt]
    split <;> omega

theorem Outcome.owed_le (x : Outcome) (ls : List Lexeme) : x.owed ls ≤ 1 := by
  rcases x with _ | _
  · exact slack_le ls
  · exact debt_le ls

/-- Away from a closing parenthesis, a found node may owe what a missing one may. -/
theorem debt_le_slack (h : ∀ l ∈ ls.head?, l.kind ≠ rParen) : debt ls ≤ slack ls := by
  rcases ls with _ | ⟨l, ls⟩
  · exact Nat.le_refl 1
  · have hl := h l rfl
    have hstop : expressionStops.contains l.kind = true → l.kind = letKw ∨ l.kind = semi := by
      simp [expressionStops, hl]
    rw [debt, slack]
    split
    · next hs => simp [hstop hs]
    · exact Nat.zero_le _

theorem Outcome.owed_le_slack (x : Outcome) (h : ∀ l ∈ ls.head?, l.kind ≠ rParen) :
    x.owed ls ≤ slack ls := by
  rcases x with _ | _
  · exact Nat.le_refl _
  · exact debt_le_slack h

/-- Nothing is owed in front of an operator. -/
theorem slack_of_operator {op : BinaryOperator} (h : BinaryOperator.ofKind? l.kind = some op) :
    slack (l :: ls) = 0 := by
  refine if_neg ?_
  rintro (hl | hl) <;> simp [hl, BinaryOperator.ofKind?] at h

/-! ## Rules without choice -/

/-- A rule that gives up on a node owes its complaint at most. -/
theorem cost_recovery {c : Complaint} {stops : KindSet} (hpays : Pays ls)
    (h : recovery c stops ls = (os, rest)) : cost os + 4 * extent rest ≤ 4 * extent ls + 1 := by
  rcases ls with _ | ⟨l, ls⟩
  · obtain ⟨rfl, rfl⟩ := Prod.mk.inj h
    simp
  · have hl := hpays.head
    rw [recovery] at h
    split at h <;> obtain ⟨rfl, rfl⟩ := Prod.mk.inj h
    · simp only [cost_error, cost_nil]
      omega
    · simp only [cost_node, cost_error, cost_word, cost_nil, Lexeme.extent_cons]
      omega

/-- Where the next word is skipped, it pays for its complaint. -/
theorem cost_recovery_of_skipped {c : Complaint} {stops : KindSet} (hpays : Pays (l :: ls))
    (hl : stops.contains l.kind = false) (h : recovery c stops (l :: ls) = (os, rest)) :
    cost os + 4 * extent rest ≤ 4 * extent (l :: ls) := by
  have hbyte := hpays.head
  rw [recovery, hl] at h
  obtain ⟨rfl, rfl⟩ := Prod.mk.inj h
  simp only [cost_node, cost_error, cost_word, cost_nil, Lexeme.extent_cons]
  omega

theorem cost_expectation {kind : SyntaxKind} (hpays : Pays ls)
    (h : expectation kind ls = (os, rest)) : cost os + 4 * extent rest ≤ 4 * extent ls + 1 := by
  rcases ls with _ | ⟨l, ls⟩
  · obtain ⟨rfl, rfl⟩ := Prod.mk.inj h
    simp
  · have hl := hpays.head
    rw [expectation] at h
    split at h <;> obtain ⟨rfl, rfl⟩ := Prod.mk.inj h
    · simp only [cost_word, cost_nil, Lexeme.extent_cons]
      omega
    · simp only [cost_error, cost_nil]
      omega

theorem cost_naming (hpays : Pays ls) (h : naming ls = (os, rest)) :
    cost os + 4 * extent rest ≤ 4 * extent ls + 1 := by
  rcases ls with _ | ⟨l, ls⟩
  · rw [naming] at h
    exact cost_recovery hpays h
  · rw [naming] at h
    split at h
    · obtain ⟨rfl, rfl⟩ := Prod.mk.inj h
      have hl := hpays.head
      simp only [cost_node, cost_word, cost_nil, Lexeme.extent_cons]
      omega
    · exact cost_recovery hpays h

/-! ## Expressions -/

/-- What is missed is owed only where no word is skipped. -/
theorem cost_missing (hpays : Pays ls)
    (h : recovery .expectedExpression expressionStops ls = (os, rest)) :
    cost os + 4 * extent rest ≤ 4 * extent ls + debt rest := by
  rcases ls with _ | ⟨l, ls⟩
  · obtain ⟨rfl, rfl⟩ := Prod.mk.inj h
    simp [debt]
  · by_cases hl : expressionStops.contains l.kind = true
    · rw [recovery, if_pos hl] at h
      obtain ⟨rfl, rfl⟩ := Prod.mk.inj h
      simp only [cost_error, cost_nil, debt, if_pos hl]
      omega
    · have := cost_recovery_of_skipped hpays (Bool.eq_false_iff.mpr hl) h
      omega

/-- A closing parenthesis pays for itself and for what is missing in front of it; where it is missing,
so is nothing else. -/
theorem cost_closing (hpays : Pays mid) (h : expectation rParen mid = (os, rest)) (x : Outcome) :
    x.owed mid + cost os + 4 * extent rest ≤ 4 * extent mid + 1 + slack rest := by
  have howed := x.owed_le mid
  rcases mid with _ | ⟨l, mid⟩
  · obtain ⟨rfl, rfl⟩ := Prod.mk.inj h
    simp only [cost_error, cost_nil, slack]
    omega
  · have hl := hpays.head
    rw [expectation] at h
    split at h
    · obtain ⟨rfl, rfl⟩ := Prod.mk.inj h
      simp only [cost_word, cost_nil, Lexeme.extent_cons]
      omega
    · next hne =>
      obtain ⟨rfl, rfl⟩ := Prod.mk.inj h
      have hkind : ∀ m ∈ (l :: mid).head?, m.kind ≠ rParen := by simpa using hne
      have := x.owed_le_slack hkind
      simp only [cost_error, cost_nil]
      omega

/-- **What is made of an expression is charged to its words**, but for what is owed at the words that
are left. -/
theorem Reads.cost_le (h : Reads g ls x rest) (hpays : Pays ls) :
    cost x.items + 4 * extent rest ≤ cost g.before + 4 * extent ls + x.owed rest := by
  induction h with
  | number | reference =>
    have hl := hpays.head
    simp only [Outcome.items_found, cost_node, cost_word, cost_nil, Lexeme.extent_cons]
    omega
  | @negation l ls rest x _ _ ih =>
    have hl := hpays.head
    have hinner := ih hpays.tail
    have howed := x.owed_le rest
    simp only [Goal.before, cost_nil] at hinner
    simp only [Outcome.items_found, cost_node, cost_word, cost_nil, Lexeme.extent_cons]
    omega
  | @parenthesised l ls mid rest x os _ inner close ih =>
    have hl := hpays.head
    have hinner := ih hpays.tail
    have hclose := cost_closing (hpays.tail.suffix inner.suffix) close x
    simp only [Goal.before, cost_nil] at hinner
    simp only [Outcome.items_found, cost_node, cost_word, cost_append, cost_nil, Lexeme.extent_cons,
      Outcome.owed_found]
    omega
  | missing _ recover =>
    have := cost_missing hpays recover
    simpa [Goal.before] using this
  | done => simp [Goal.before]
  | @operation l ls mid rest power left op x y _ _ inner _ ih ih' =>
    have hl := hpays.head
    have hinner := ih hpays.tail
    have hmore := ih' (hpays.tail.suffix inner.suffix)
    have howed := x.owed_le mid
    have hleft : cost (left :: .word l :: x.items) = cost [left] + (cost x.items + 1) := by
      rw [← cost_word, ← cost_append, List.singleton_append]
    simp only [Goal.before, cost_node, cost_nil, hleft] at hinner hmore ⊢
    simp only [Lexeme.extent_cons]
    omega
  | absent _ ih => exact ih hpays
  | @present ls mid rest power left x first more ih ih' =>
    have hfirst := ih hpays
    have hmore := ih' (hpays.suffix first.suffix)
    simp only [Goal.before, cost_nil, Outcome.items_found, Outcome.owed_found] at hfirst hmore ⊢
    -- an operand may owe something only where no operator follows
    rcases more with _ | _ | _ | _ | _ | _ | ⟨hop, -, -, -⟩
    · simp only [Outcome.items_found, Outcome.owed_found]
      omega
    · rw [slack_of_operator hop] at hfirst
      omega

/-- An expression that begins at a word at which no rule around it goes on leaves no more to pay than a
statement may. -/
theorem Reads.cost_le_of_begins {power : Nat} (h : Reads (.expression power) (l :: ls) x rest)
    (hl : expressionStops.contains l.kind = false) (hpays : Pays (l :: ls)) :
    cost x.items + 4 * extent rest ≤ 4 * extent (l :: ls) + slack rest := by
  rcases x with o | os
  · have := h.cost_le hpays
    simpa only [Goal.before, cost_nil, Nat.zero_add, Outcome.owed_found] using this
  · rcases h with _ | _ | _ | _ | _ | _ | _ | first | ⟨-, more⟩
    · rcases first with _ | _ | _ | _ | ⟨-, recover⟩
      have := cost_recovery_of_skipped hpays hl recover
      simp only [Outcome.items_missed]
      omega
    · obtain ⟨o, ho⟩ := more.found_of_operations
      exact absurd ho (by simp)

/-! ## Files -/

/-- **What is made of a file is charged to its words**, with one complaint over at the end of the
text. -/
theorem ReadsFile.cost_le (h : ReadsFile ls os) (hpays : Pays ls) :
    cost os + slack ls ≤ 4 * extent ls + 1 := by
  induction h with
  | nil => simp [slack]
  | @separator l ls os _ _ ih =>
    have hl := hpays.head
    have hmore := ih hpays.tail
    have hslack := slack_le (l :: ls)
    simp only [cost_word, Lexeme.extent_cons]
    omega
  | @unmatched l ls os hl more ih =>
    have hbyte := hpays.head
    have hmore := ih hpays.tail
    have hslack : slack (l :: ls) = 0 := if_neg (by simp [hl])
    simp only [cost_node, cost_error, cost_word, cost_nil, Lexeme.extent_cons]
    omega
  | @definition l ls ls₁ ls₂ rest ns es os x hl named equals value more ih =>
    -- a keyword of two bytes pays for itself, its node, and all that may be missing behind it
    have hbytes := (hpays l List.mem_cons_self).2 hl
    have hpays₁ := hpays.tail.suffix (suffix_of_wordsAll (wordsAll_naming named))
    have hpays₂ := hpays₁.suffix (suffix_of_wordsAll (wordsAll_expectation equals))
    have hnamed := cost_naming hpays.tail named
    have hequals := cost_expectation hpays₁ equals
    have hvalue := value.cost_le hpays₂
    have howed := x.owed_le rest
    have hmore := ih (hpays₂.suffix value.suffix)
    have hslack := slack_le (l :: ls)
    simp only [Goal.before, cost_nil] at hvalue
    simp only [cost_node, cost_word, cost_append, Lexeme.extent_cons]
    omega
  | @expression l ls rest os x hl value more ih =>
    have hvalue := value.cost_le_of_begins hl hpays
    have hmore := ih (hpays.suffix value.suffix)
    have hslack : slack (l :: ls) = 0 := by
      refine if_neg ?_
      rintro (hk | hk) <;> exact absurd hl (by simp [hk, expressionStops])
    rw [cost_append]
    omega

end Grammar

end LosslessSyntax
