import LosslessSyntax.Proofs.Event.Positions
import LosslessSyntax.Proofs.Event.Unbroken
import LosslessSyntax.Proofs.Grammar.Charge
import LosslessSyntax.Proofs.Lexeme.Language
import LosslessSyntax.Proofs.Parse.Lossless

/-!
# Proofs/Parse/Positions — the record of a text is not much longer than the text

The record of a file has an entry for every instruction that builds the file, and the instructions are
charged to the bytes of its words, four to each, so a text of `n` bytes has a record of at most
`4 * n + 3` entries.  The grammar does nothing to a recorder but operate it (`Grammar.reaches_file`), so
no text of less than `2 ^ 30` bytes has a position that 32 bits cannot hold (`Parse.positionsFit`).
-/

namespace LosslessSyntax

open Lexeme (extent significant tokenize)
open Recorder

/-! ## The grammar operates a recorder -/

namespace Grammar

variable {expr : Nat → Rule} {r s : Recorder}

/-- A rule does nothing but operate the recorder. -/
def Operates (rule : Rule) : Prop := ∀ r s : Recorder, r.Reaches s → r.Reaches (rule s).2

theorem reaches_leaf (h : r.Reaches s) (token node : SyntaxKind) : r.Reaches (leaf token node s).2 :=
  ((h.insist token).start.take).close _ node

theorem reaches_negation (hexpr : ∀ power, Operates (expr power)) (h : r.Reaches s) :
    r.Reaches (negation expr s).2 :=
  (hexpr _ _ _ h.start.take).close _ _

theorem reaches_parenthesised (hexpr : ∀ power, Operates (expr power)) (h : r.Reaches s) :
    r.Reaches (parenthesised expr s).2 :=
  ((hexpr _ _ _ (h.insist _).start.take).expect _).close _ _

theorem operates_operand (hexpr : ∀ power, Operates (expr power)) : Operates (operand expr) := by
  intro r s h
  rw [operand]
  split
  · next heq => exact reaches_leaf (h.peek.of_eq heq) _ _
  · next heq => exact reaches_leaf (h.peek.of_eq heq) _ _
  · next heq => exact reaches_negation hexpr (h.peek.of_eq heq)
  · next heq => exact reaches_parenthesised hexpr (h.peek.of_eq heq)
  · next heq => exact (h.peek.of_eq heq).recover _ _

theorem reaches_operations (hexpr : ∀ power, Operates (expr power)) (power fuel : Nat)
    (n : ClosedNode) (h : r.Reaches s) : r.Reaches (operations expr power fuel n s).2 := by
  induction fuel generalizing n s with
  | zero => exact h
  | succ fuel ih =>
    rw [operations]
    split
    · next heq => exact h.peek.of_eq heq
    · next heq =>
      have hpeek := h.peek.of_eq heq
      split
      · exact hpeek
      · split
        · exact hpeek
        · exact ih _ ((hexpr _ _ _ (hpeek.enclose n).take).close _ _)

theorem operates_expressionWith (fuel power : Nat) : Operates (expressionWith fuel power) := by
  induction fuel generalizing power with
  | zero => exact fun _ _ h => h
  | succ fuel ih =>
    intro r s h
    have hoperand := operates_operand ih r s h
    rw [expressionWith]
    dsimp only
    split
    · next heq => exact hoperand.of_eq heq
    · next heq => exact reaches_operations ih _ _ _ (hoperand.of_eq heq)

theorem operates_expression : Operates expression := fun _ _ h => operates_expressionWith _ _ _ _ h

theorem reaches_definedName (h : r.Reaches s) : r.Reaches (definedName s) := by
  have hlook : r.Reaches (s.isAt .ident).2 := h.peek
  rw [definedName]
  split
  · next heq => exact (hlook.of_eq heq).start.take.close _ _
  · next heq => exact (hlook.of_eq heq).recover _ _

theorem reaches_definition (h : r.Reaches s) : r.Reaches (definition s).2 :=
  (operates_expression _ _ ((reaches_definedName (h.insist _).start.take).expect _)).close _ _

theorem reaches_statement (h : r.Reaches s) : r.Reaches (statement s) := by
  have hlook : r.Reaches (s.isAt .letKw).2 := h.peek
  rw [statement]
  split
  · next heq => exact reaches_definition (hlook.of_eq heq)
  · next heq => exact operates_expression _ _ (hlook.of_eq heq)

theorem reaches_round (h : r.Reaches s) : r.Reaches (round s) := by
  have heat := h.eat .semi
  rw [round]
  split
  · next heq => exact heat.of_eq heq
  · next s' heq =>
    have hlook : r.Reaches (s'.isAt .rParen).2 := (heat.of_eq heq).peek
    split
    · next heq => exact (hlook.of_eq heq).recover _ _
    · next heq => exact reaches_statement (hlook.of_eq heq)

theorem reaches_statements (fuel : Nat) (h : r.Reaches s) : r.Reaches (statements fuel s) := by
  induction fuel generalizing s with
  | zero => exact h
  | succ fuel ih =>
    have hend : r.Reaches s.isAtEnd.2 := h.peek
    rw [statements_succ]
    split
    · exact hend
    · exact ih (reaches_round hend)

/-- **The grammar does nothing but operate the recorder.** -/
theorem reaches_file (r : Recorder) : r.Reaches (file r) :=
  (reaches_statements _ (Reaches.refl r).start).close _ _

end Grammar

/-! ## The words of a text -/

namespace Lexeme

/-- **The words of a text can pay** for what is made of them. -/
theorem pays_tokenize (text : String) : Grammar.Pays (tokenize text) := by
  refine fun l hl => ⟨length_pos_of_mem_tokenize hl, fun hkind => ?_⟩
  have hword := (legible_tokenize text).mem hl
  rw [hkind] at hword
  have htext : l.text = "let" := String.toList_inj.mp hword
  rw [Lexeme.length, htext]
  decide

theorem extent_significant_le (ls : List Lexeme) : extent (significant ls) ≤ extent ls := by
  induction ls with
  | nil => exact Nat.le_refl _
  | cons l ls ih =>
    rw [significant, List.filter_cons]
    split
    · exact Nat.add_le_add_left ih _
    · exact Nat.le_add_left_of_le ih

end Lexeme

/-! ## The record of a text -/

namespace Parse

theorem record_recording {ls : List Lexeme} {log : Array Event} (h : record ls = .ok log) :
    log = (recording ls).log := by
  rw [record] at h
  split at h
  · exact absurd h (by simp)
  · exact (Except.ok.inj h).symm

/-- **A record has at most four entries for every byte of its text**, and three more. -/
theorem size_log_le (text : String) :
    record (tokenize text) = .ok (recording (tokenize text)).log ∧
      (recording (tokenize text)).log.size ≤ 4 * text.utf8ByteSize + 3 := by
  obtain ⟨os, log, hreads, hrecord, hholes, hreplay⟩ := record_eq (tokenize text)
  obtain rfl := record_recording hrecord
  refine ⟨hrecord, ?_⟩
  have hpays : Grammar.Pays (significant (tokenize text)) := fun l hl =>
    Lexeme.pays_tokenize text l (List.mem_of_mem_filter hl)
  calc (recording (tokenize text)).log.size
    _ = Outline.cost os + 2 := by
      rw [Event.size_eq_of_replay (by rw [hreplay]) hholes, hreplay]
      simp [Outline.cost]
    _ ≤ 4 * extent (significant (tokenize text)) + 3 := by
      have := hreads.cost_le hpays
      omega
    _ ≤ 4 * text.utf8ByteSize + 3 := by
      have := Lexeme.extent_significant_le (tokenize text)
      rw [Lexeme.extent_eq (tokenize text), Lexeme.spell_tokenize] at this
      omega

/-- **Positions do not overflow.**  The record of a text of `n` bytes has at most `4 * n + 3` entries.  So
wherever the grammar gets to on its way through a text of less than `2 ^ 30` bytes, every position and
every distance of a link fits into 32 bits, and cutting them to 32 bits changes nothing. -/
theorem positionsFit (text : String) :
    let r := Recorder.ofTokens ((tokenize text).map Lexeme.token)
    record (tokenize text) = .ok (recording (tokenize text)).log ∧
      (recording (tokenize text)).log.size ≤ 4 * text.utf8ByteSize + 3 ∧
      r.Reaches (recording (tokenize text)) ∧
      (text.utf8ByteSize < 2 ^ 30 →
        ∀ s : Recorder, r.Reaches s → s.Reaches (recording (tokenize text)) → s.Fits) := by
  intro r
  obtain ⟨hrecord, hsize⟩ := size_log_le text
  refine ⟨hrecord, hsize, Grammar.reaches_file r, fun htext s hs hend => ?_⟩
  exact hs.fits hend (Recorder.contained_ofTokens _) (by omega)

/-- The text `((` is short enough, and its record is as long as that of any text of two bytes. -/
theorem positionsFit_openParens : "((".utf8ByteSize < 2 ^ 30 ∧
    (recording (tokenize "((")).log.size = 4 * "((".utf8ByteSize + 3 ∧
    (recording (tokenize "((")).Fits := by
  obtain ⟨-, -, hreaches, hfits⟩ := positionsFit "(("
  exact ⟨by decide, by decide +kernel, hfits (by decide) _ hreaches (Recorder.Reaches.refl _)⟩

end Parse

end LosslessSyntax
