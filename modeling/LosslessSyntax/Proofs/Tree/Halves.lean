import LosslessSyntax.Proofs.Tree.Planting

/-!
# Proofs/Tree/Halves — planting in two halves of a text

Planting looks ahead no further than the next word of an outline.  So lexemes behind the last word change
nothing (`plantAll_append_lexemes`), a later start moves every complaint (`plantAll_add`), and trivia in
front goes into the margin of what comes first (`plantAll_append_margin`).
-/

namespace LosslessSyntax

open Lexeme (margin behindMargin extent extent_append significant significant_behindMargin)
open SyntaxTree (leaf leavesAll)

/-! ## Moving errors -/

/-- A range that many bytes further on. -/
def TextRange.shift (n : Nat) (r : TextRange) : TextRange := ⟨n + r.start, n + r.stop⟩

/-- A location that many bytes further on. -/
def Location.shift (n : Nat) : Location → Location
  | offset m => offset (n + m)
  | range r => range (r.shift n)

/-- **An error that many bytes further on.** -/
def SyntaxError.shift (n : Nat) (e : SyntaxError) : SyntaxError := ⟨e.complaint, e.location.shift n⟩

/-! ## Margins of two halves -/

namespace Lexeme

theorem behindMargin_ne_nil {ls : List Lexeme} (h : significant ls ≠ []) : behindMargin ls ≠ [] := by
  obtain ⟨l, ws, hl⟩ := List.exists_cons_of_ne_nil h
  obtain ⟨rest, hrest, -⟩ := behindMargin_eq_cons hl
  rw [hrest]
  exact List.cons_ne_nil _ _

theorem behindMargin_append {ls : List Lexeme} (h : significant ls ≠ []) (ms : List Lexeme) :
    behindMargin (ls ++ ms) = behindMargin ls ++ ms := by
  have hne := behindMargin_ne_nil h
  rw [behindMargin] at hne
  rw [behindMargin, List.dropWhile_append, if_neg (by simpa using hne), behindMargin]

theorem margin_append {ls : List Lexeme} (h : significant ls ≠ []) (ms : List Lexeme) :
    margin (ls ++ ms) = margin ls := by
  have hsplit := margin_append_behindMargin (ls ++ ms)
  rw [behindMargin_append h, ← List.append_assoc, List.append_left_inj] at hsplit
  exact List.append_cancel_right (hsplit.trans (margin_append_behindMargin ls).symm)

theorem margin_append_of_isTrivia {ms : List Lexeme} (h : ∀ l ∈ ms, l.isTrivia = true)
    (ls : List Lexeme) : margin (ms ++ ls) = ms ++ margin ls :=
  List.takeWhile_append_of_pos h

theorem behindMargin_append_of_isTrivia {ms : List Lexeme} (h : ∀ l ∈ ms, l.isTrivia = true)
    (ls : List Lexeme) : behindMargin (ms ++ ls) = behindMargin ls :=
  List.dropWhile_append_of_pos h

end Lexeme

open Lexeme

namespace Planting

/-- A planting that many bytes further on. -/
def shift (n : Nat) (p : Planting) : Planting :=
  ⟨p.trees, p.errors.map (SyntaxError.shift n), n + p.offset, p.rest⟩

/-- A planting with trivia in front of its trees. -/
def behind (ms : List Lexeme) (p : Planting) : Planting := { p with trees := ms.map leaf ++ p.trees }

/-- A planting with lexemes behind those that are not planted. -/
def before (p : Planting) (ms : List Lexeme) : Planting := { p with rest := p.rest ++ ms }

end Planting

namespace Outline

/-! ## One half behind the other -/

theorem plantAll_append (os ps : List Outline) (offset : Nat) (ls : List Lexeme) :
    plantAll (os ++ ps) offset ls =
      { plantAll ps (plantAll os offset ls).offset (plantAll os offset ls).rest with
        trees := (plantAll os offset ls).trees ++
          (plantAll ps (plantAll os offset ls).offset (plantAll os offset ls).rest).trees
        errors := (plantAll os offset ls).errors ++
          (plantAll ps (plantAll os offset ls).offset (plantAll os offset ls).rest).errors } := by
  induction os generalizing offset ls with
  | nil => simp [plantAll_nil]
  | cons o os ih => simp [plantAll_cons, ih]

variable {P : SyntaxKind → List Outline → List Lexeme → Prop}

mutual

/-- **Lexemes behind the last word change nothing**, where every node has a word. -/
theorem plant_append_lexemes (hP : ∀ kind os ws, P kind os ws → wordsAll os ≠ []) :
    ∀ (o : Outline) (offset : Nat) {ls ws : List Lexeme} (ms : List Lexeme),
    significant ls = o.words ++ ws → o.Every P ws →
    o.plant offset (ls ++ ms) = (o.plant offset ls).before ms
  | word l, offset, ls, ws, ms, h, _ => by
      have hne : significant ls ≠ [] := by simp [h]
      rw [plant_word, plant_word, margin_append hne, behindMargin_append hne,
        List.tail_append_of_ne_nil (behindMargin_ne_nil hne), Planting.before]
  | error c, offset, ls, ws, ms, _, _ => by
      rw [plant_error, plant_error, Planting.before]
  | node kind os, offset, ls, ws, ms, h, hos => by
      rw [every_node] at hos
      rw [words_node] at h
      have hne : significant ls ≠ [] := by simp [h, hP _ _ _ hos.1]
      rw [← significant_behindMargin] at h
      rw [plant_node, plant_node, margin_append hne, behindMargin_append hne,
        plantAll_append_lexemes hP os _ ms h hos.2]
      rfl

theorem plantAll_append_lexemes (hP : ∀ kind os ws, P kind os ws → wordsAll os ≠ []) :
    ∀ (os : List Outline) (offset : Nat) {ls ws : List Lexeme} (ms : List Lexeme),
    significant ls = wordsAll os ++ ws → EveryAll P os ws →
    plantAll os offset (ls ++ ms) = (plantAll os offset ls).before ms
  | [], offset, ls, ws, ms, _, _ => by
      rw [plantAll_nil, plantAll_nil, Planting.before]
  | o :: os, offset, ls, ws, ms, h, hos => by
      rw [everyAll_cons] at hos
      rw [wordsAll_cons, List.append_assoc] at h
      have hrest := (covers_plant o offset h).significant_eq
      rw [plantAll_cons, plantAll_cons, plant_append_lexemes hP o offset ms h hos.1]
      simp only [Planting.before, plantAll_append_lexemes hP os _ ms hrest hos.2]

end

mutual

/-- **A later start moves every complaint** and nothing else. -/
theorem plant_add : ∀ (o : Outline) (n offset : Nat) (ls : List Lexeme),
    o.plant (n + offset) ls = (o.plant offset ls).shift n
  | word l, n, offset, ls => by
      rw [plant_word, plant_word, Planting.shift, List.map_nil, Nat.add_assoc]
  | error c, n, offset, ls => by
      rw [plant_error, plant_error, Planting.shift, List.map_singleton]
      rfl
  | node kind os, n, offset, ls => by
      rw [plant_node, plant_node, Nat.add_assoc, plantAll_add os]
      rfl

theorem plantAll_add : ∀ (os : List Outline) (n offset : Nat) (ls : List Lexeme),
    plantAll os (n + offset) ls = (plantAll os offset ls).shift n
  | [], n, offset, ls => by
      rw [plantAll_nil, plantAll_nil]
      rfl
  | o :: os, n, offset, ls => by
      rw [plantAll_cons, plantAll_cons, plant_add o]
      simp only [Planting.shift, plantAll_add os, List.map_append]

end

/-- **Trivia in front goes into the margin** of a word or a node. -/
theorem plant_append_margin {o : Outline} (ho : ∀ c, o ≠ error c) {ms : List Lexeme}
    (hm : ∀ l ∈ ms, l.isTrivia = true) (offset : Nat) (ls : List Lexeme) :
    o.plant offset (ms ++ ls) = (o.plant (offset + extent ms) ls).behind ms := by
  cases o with
  | word l =>
    simp [plant_word, margin_append_of_isTrivia hm, behindMargin_append_of_isTrivia hm,
      Planting.behind, Nat.add_assoc]
  | error c => exact absurd rfl (ho c)
  | node kind os =>
    simp [plant_node, margin_append_of_isTrivia hm, behindMargin_append_of_isTrivia hm,
      Planting.behind, Nat.add_assoc]

theorem plantAll_append_margin {o : Outline} (ho : ∀ c, o ≠ error c) (os : List Outline)
    {ms : List Lexeme} (hm : ∀ l ∈ ms, l.isTrivia = true) (offset : Nat) (ls : List Lexeme) :
    plantAll (o :: os) offset (ms ++ ls) =
      (plantAll (o :: os) (offset + extent ms) ls).behind ms := by
  rw [plantAll_cons, plantAll_cons, plant_append_margin ho hm]
  simp only [Planting.behind, List.append_assoc]

/-- **Planting in two halves**: what is planted in the first half is followed by the trivia that is left
there, and then by what is planted in the second. -/
theorem plantAll_halves (hP : ∀ kind os ws, P kind os ws → wordsAll os ≠ []) {os ps : List Outline}
    {o : Outline} {ls : List Lexeme} (h : significant ls = wordsAll os) (hos : EveryAll P os [])
    (ho : ∀ c, o ≠ error c) (ms : List Lexeme) :
    plantAll (os ++ o :: ps) 0 (ls ++ ms) =
      ⟨(plantAll os 0 ls).trees ++ ((plantAll os 0 ls).rest.map leaf ++ (plantAll (o :: ps) 0 ms).trees),
        (plantAll os 0 ls).errors ++ (plantAll (o :: ps) 0 ms).errors.map (SyntaxError.shift (extent ls)),
        extent ls + (plantAll (o :: ps) 0 ms).offset, (plantAll (o :: ps) 0 ms).rest⟩ := by
  rw [← List.append_nil (wordsAll os)] at h
  have covers := covers_plantAll os 0 h
  have hextent : (plantAll os 0 ls).offset + extent (plantAll os 0 ls).rest = extent ls + 0 := by
    rw [covers.offset_eq, Nat.zero_add, ← extent_append, covers.leaves, Nat.add_zero]
  rw [plantAll_append, plantAll_append_lexemes hP os 0 ms h hos, Planting.before,
    plantAll_append_margin ho ps (fun _ => covers.isTrivia_of_mem_rest), hextent, plantAll_add]
  rfl

end Outline

end LosslessSyntax
