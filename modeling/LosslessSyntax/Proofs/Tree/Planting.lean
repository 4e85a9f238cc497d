import LosslessSyntax.Proofs.Outline
import LosslessSyntax.SyntaxError
import Mathlib.Algebra.Ring.Nat
import Mathlib.Data.List.TakeWhile

/-!
# Proofs/Tree/Planting — an outline among the lexemes of a text

An outline becomes a syntax tree when it is planted among the lexemes of a text: the trivia in front of
a word or a node, its margin, is put before it, and a complaint is about the place where it is made.
Planting goes from left to right, and everything depends on where it has come to: the offset in the
text, and the lexemes that are not planted yet.
-/

namespace LosslessSyntax

/-! ## Margins -/

namespace Lexeme

/-- The trivia at the front of lexemes. -/
def margin (ls : List Lexeme) : List Lexeme := ls.takeWhile isTrivia

/-- The lexemes behind the trivia at their front. -/
def behindMargin (ls : List Lexeme) : List Lexeme := ls.dropWhile isTrivia

/-- The length in bytes of lexemes laid end to end. -/
def extent (ls : List Lexeme) : Nat := (ls.map length).sum

@[simp] theorem extent_nil : extent [] = 0 := rfl

@[simp] theorem extent_cons (l : Lexeme) (ls : List Lexeme) :
    extent (l :: ls) = l.length + extent ls := rfl

@[simp] theorem extent_append (ls ms : List Lexeme) : extent (ls ++ ms) = extent ls + extent ms := by
  simp [extent]

/-- The extent of lexemes is the length of the text that they spell. -/
theorem extent_pos {ls : List Lexeme} (h : ls ≠ []) (hpos : ∀ l ∈ ls, 0 < l.length) :
    0 < extent ls := by
  rcases ls with _ | ⟨l, ls⟩
  · exact absurd rfl h
  · have := hpos l List.mem_cons_self
    rw [extent_cons]
    omega

theorem extent_eq (ls : List Lexeme) : extent ls = (spell ls).utf8ByteSize := by
  induction ls with
  | nil => rfl
  | cons l ls ih =>
    rw [extent_cons, ih, spell_cons, String.utf8ByteSize_append, length]

theorem margin_append_behindMargin (ls : List Lexeme) : margin ls ++ behindMargin ls = ls :=
  List.takeWhile_append_dropWhile

theorem significant_append (ls ms : List Lexeme) :
    significant (ls ++ ms) = significant ls ++ significant ms :=
  List.filter_append ..

theorem significant_cons_of_word {l : Lexeme} (h : l.isTrivia = false) (ls : List Lexeme) :
    significant (l :: ls) = l :: significant ls :=
  List.filter_cons_of_pos (by simp [h])

theorem significant_cons_of_trivia {l : Lexeme} (h : l.isTrivia = true) (ls : List Lexeme) :
    significant (l :: ls) = significant ls :=
  List.filter_cons_of_neg (by simp [h])

theorem isTrivia_of_mem_margin {ls : List Lexeme} {l : Lexeme} (h : l ∈ margin ls) :
    l.isTrivia = true :=
  List.mem_takeWhile_imp h

theorem significant_of_isTrivia {ls : List Lexeme} (h : ∀ l ∈ ls, l.isTrivia = true) :
    significant ls = [] := by
  refine List.filter_eq_nil_iff.mpr fun l hl => ?_
  simp [h l hl]

@[simp] theorem significant_margin (ls : List Lexeme) : significant (margin ls) = [] :=
  significant_of_isTrivia fun _ => isTrivia_of_mem_margin

@[simp] theorem significant_behindMargin (ls : List Lexeme) :
    significant (behindMargin ls) = significant ls := by
  have := congrArg significant (margin_append_behindMargin ls)
  rwa [significant_append, significant_margin, List.nil_append] at this

theorem margin_behindMargin {ls : List Lexeme} : margin (behindMargin ls) = [] := by
  induction ls with
  | nil => rfl
  | cons l ls ih =>
    rw [behindMargin, List.dropWhile_cons]
    split
    · exact ih
    · next hl => exact List.takeWhile_cons_of_neg hl

/-- The first word that the grammar reads stands right behind the margin. -/
theorem behindMargin_eq_cons {ls ws : List Lexeme} {l : Lexeme} (h : significant ls = l :: ws) :
    ∃ rest, behindMargin ls = l :: rest ∧ significant rest = ws := by
  induction ls with
  | nil => exact absurd h (by simp [significant])
  | cons m ls ih =>
    rw [behindMargin, List.dropWhile_cons]
    rcases hm : m.isTrivia with _ | _
    · have hm' := significant_cons_of_word hm ls
      obtain ⟨rfl, rfl⟩ := List.cons.inj (hm'.symm.trans h)
      exact ⟨ls, rfl, rfl⟩
    · have hm' := significant_cons_of_trivia hm ls
      exact ih (hm'.symm.trans h)

theorem isTrivia_of_significant_eq_cons {ls ws : List Lexeme} {l : Lexeme}
    (h : significant ls = l :: ws) : l.isTrivia = false := by
  have hl : l ∈ significant ls := by simp [h]
  simpa using (List.mem_filter.mp hl).2

theorem isTrivia_of_behindMargin_eq_cons {ls rest : List Lexeme} {l : Lexeme}
    (h : behindMargin ls = l :: rest) : l.isTrivia = false := by
  have hstop := List.head?_dropWhile_not isTrivia ls
  rw [behindMargin] at h
  rwa [h] at hstop

/-- If the grammar has nothing more to read, only trivia is left. -/
theorem behindMargin_eq_nil {ls : List Lexeme} (h : significant ls = []) : behindMargin ls = [] := by
  refine List.dropWhile_eq_nil_iff.mpr fun l hl => ?_
  simpa using List.filter_eq_nil_iff.mp h l hl

end Lexeme

@[simp] theorem SyntaxTree.leavesAll_map_leaf (ls : List Lexeme) : leavesAll (ls.map leaf) = ls := by
  induction ls with
  | nil => simp
  | cons l ls ih => simp [ih]

open Lexeme (margin behindMargin extent extent_append significant significant_behindMargin
  margin_append_behindMargin behindMargin_eq_cons)
open SyntaxTree (leaf leavesAll leavesAll_nil leavesAll_cons leavesAll_append leavesAll_map_leaf
  leaves_node)

/-! ## Planting -/

/-- What comes of planting outlines. -/
structure Planting where
  /-- The trees, with their margins. -/
  trees : List SyntaxTree
  /-- The complaints, in their places. -/
  errors : List SyntaxError
  /-- Where the trees end in the text. -/
  offset : Nat
  /-- The lexemes behind the trees. -/
  rest : List Lexeme
  deriving Repr

namespace Outline

mutual

/-- **Plants an outline** from a place in the text. -/
def plant : Outline → Nat → List Lexeme → Planting
  | word l, offset, ls =>
    ⟨(margin ls ++ [l]).map leaf, [], offset + extent (margin ls ++ [l]), (behindMargin ls).tail⟩
  | error c, offset, ls => ⟨[], [⟨c, .offset offset⟩], offset, ls⟩
  | node kind os, offset, ls =>
    let p := plantAll os (offset + extent (margin ls)) (behindMargin ls)
    { p with trees := (margin ls).map leaf ++ [.node kind p.trees] }

/-- Plants outlines one behind the other. -/
def plantAll : List Outline → Nat → List Lexeme → Planting
  | [], offset, ls => ⟨[], [], offset, ls⟩
  | o :: os, offset, ls =>
    let p := o.plant offset ls
    let q := plantAll os p.offset p.rest
    ⟨p.trees ++ q.trees, p.errors ++ q.errors, q.offset, q.rest⟩

end

theorem plant_word (l : Lexeme) (offset : Nat) (ls : List Lexeme) : (word l).plant offset ls =
    ⟨(margin ls ++ [l]).map leaf, [], offset + extent (margin ls ++ [l]),
      (behindMargin ls).tail⟩ := by
  rw [plant]

theorem plant_error (c : Complaint) (offset : Nat) (ls : List Lexeme) :
    (error c).plant offset ls = ⟨[], [⟨c, .offset offset⟩], offset, ls⟩ := by
  rw [plant]

theorem plant_node (kind : SyntaxKind) (os : List Outline) (offset : Nat) (ls : List Lexeme) :
    (node kind os).plant offset ls =
      { plantAll os (offset + extent (margin ls)) (behindMargin ls) with
        trees := (margin ls).map leaf ++
          [.node kind (plantAll os (offset + extent (margin ls)) (behindMargin ls)).trees] } := by
  rw [plant]

theorem plantAll_nil (offset : Nat) (ls : List Lexeme) : plantAll [] offset ls = ⟨[], [], offset, ls⟩ := by
  rw [plantAll]

theorem plantAll_cons (o : Outline) (os : List Outline) (offset : Nat) (ls : List Lexeme) :
    plantAll (o :: os) offset ls =
      ⟨(o.plant offset ls).trees ++ (plantAll os (o.plant offset ls).offset (o.plant offset ls).rest).trees,
        (o.plant offset ls).errors ++
          (plantAll os (o.plant offset ls).offset (o.plant offset ls).rest).errors,
        (plantAll os (o.plant offset ls).offset (o.plant offset ls).rest).offset,
        (plantAll os (o.plant offset ls).offset (o.plant offset ls).rest).rest⟩ := by
  rw [plantAll]

mutual

/-- The errors of a planted outline are its complaints. -/
theorem map_complaint_plant : ∀ (o : Outline) (offset : Nat) (ls : List Lexeme),
    (o.plant offset ls).errors.map SyntaxError.complaint = o.complaints
  | word _, offset, ls => by rw [plant_word, complaints_word, List.map_nil]
  | error _, offset, ls => by rw [plant_error, complaints_error, List.map_singleton]
  | node _ os, offset, ls => by
      rw [plant_node, complaints_node]
      exact map_complaint_plantAll os _ _

theorem map_complaint_plantAll : ∀ (os : List Outline) (offset : Nat) (ls : List Lexeme),
    (plantAll os offset ls).errors.map SyntaxError.complaint = complaintsAll os
  | [], offset, ls => by rw [plantAll_nil, complaintsAll_nil, List.map_nil]
  | o :: os, offset, ls => by
      rw [plantAll_cons, complaintsAll_cons, List.map_append, map_complaint_plant o,
        map_complaint_plantAll os]

end

end Outline

/-! ## Nothing is lost -/

/-- The tree of outlines among the lexemes of a text, under a root of its own: the root has the trivia at
the end of the text inside. -/
def Outline.rooted (kind : SyntaxKind) (os : List Outline) (ls : List Lexeme) : SyntaxTree :=
  .node kind ((plantAll os 0 ls).trees ++ (plantAll os 0 ls).rest.map leaf)

/-- **A planting covers lexemes** from a place in the text, and then the grammar has words `ws` left to
read. -/
structure Planting.Covers (p : Planting) (offset : Nat) (ls ws : List Lexeme) : Prop where
  leaves : leavesAll p.trees ++ p.rest = ls
  offset_eq : p.offset = offset + extent (leavesAll p.trees)
  significant_eq : significant p.rest = ws

/-- If the grammar has read everything, only trivia is left. -/
theorem Planting.Covers.isTrivia_of_mem_rest {p : Planting} {offset : Nat} {ls : List Lexeme}
    (h : p.Covers offset ls []) {l : Lexeme} (hl : l ∈ p.rest) : l.isTrivia = true := by
  simpa using List.filter_eq_nil_iff.mp h.significant_eq l hl

namespace Outline

mutual

/-- **An outline of the next words covers them and the trivia between them.** -/
theorem covers_plant : ∀ (o : Outline) (offset : Nat) {ls ws : List Lexeme},
    significant ls = o.words ++ ws → (o.plant offset ls).Covers offset ls ws
  | word l, offset, ls, ws, h => by
      rw [words_word] at h
      obtain ⟨rest, hrest, hws⟩ := behindMargin_eq_cons h
      have hsplit := margin_append_behindMargin ls
      rw [hrest] at hsplit
      rw [plant_word, hrest]
      refine ⟨?_, ?_, hws⟩
      · rw [leavesAll_map_leaf, List.append_assoc]
        exact hsplit
      · rw [leavesAll_map_leaf]
  | error c, offset, ls, ws, h => by
      rw [words_error, List.nil_append] at h
      rw [plant_error]
      exact ⟨by simp, by simp, h⟩
  | node kind os, offset, ls, ws, h => by
      rw [words_node, ← significant_behindMargin] at h
      obtain ⟨leaves, offset_eq, significant_eq⟩ :=
        covers_plantAll os (offset + extent (margin ls)) h
      rw [plant_node]
      refine ⟨?_, ?_, significant_eq⟩
      · simp only [leavesAll_append, leavesAll_map_leaf, leavesAll_cons, leaves_node, leavesAll_nil,
          List.append_nil, List.append_assoc, leaves]
        exact margin_append_behindMargin ls
      · simp only [leavesAll_append, leavesAll_map_leaf, leavesAll_cons, leaves_node, leavesAll_nil,
          List.append_nil, extent_append, offset_eq]
        omega

/-- So do outlines one behind the other. -/
theorem covers_plantAll : ∀ (os : List Outline) (offset : Nat) {ls ws : List Lexeme},
    significant ls = wordsAll os ++ ws → (plantAll os offset ls).Covers offset ls ws
  | [], offset, ls, ws, h => by
      rw [wordsAll_nil, List.nil_append] at h
      rw [plantAll_nil]
      exact ⟨by simp, by simp, h⟩
  | o :: os, offset, ls, ws, h => by
      rw [wordsAll_cons, List.append_assoc] at h
      have first := covers_plant o offset h
      have others := covers_plantAll os (o.plant offset ls).offset first.significant_eq
      rw [plantAll_cons]
      refine ⟨?_, ?_, others.significant_eq⟩
      · rw [leavesAll_append, List.append_assoc, others.leaves, first.leaves]
      · rw [leavesAll_append, extent_append, ← Nat.add_assoc, ← first.offset_eq]
        exact others.offset_eq

end

/-- **Nothing of a text is lost** when outlines of its words are planted under a root. -/
theorem leaves_rooted (kind : SyntaxKind) {os : List Outline} {ls : List Lexeme}
    (h : significant ls = wordsAll os) : (rooted kind os ls).leaves = ls := by
  rw [← List.append_nil (wordsAll os)] at h
  have covers := covers_plantAll os 0 h
  rw [rooted, leaves_node, leavesAll_append, leavesAll_map_leaf, covers.leaves]

end Outline

end LosslessSyntax
