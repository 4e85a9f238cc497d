import LosslessSyntax.Proofs.Event.Describing
import LosslessSyntax.Proofs.Parse.Defects
import Mathlib.Data.List.Forall2

/-!
# Proofs/Parse/Anchors — where complaints are planted

The grammar complains without knowing where it is; the place of a complaint is how far planting has come.
No node but one over a skipped word begins with a complaint (`Grammar.Made.begins`), so whatever was
planted last is a word, unless the complaint is the first thing in such a node: then it is in front of
the word that was skipped, behind the margin (`Outline.noted_plantAll`).
-/

namespace LosslessSyntax

open Lexeme (margin behindMargin extent extent_append significant significant_append)
open SyntaxTree (leaf leavesAll placedAllAt)
open Element (nodesAll)
open Grammar (Made)

/-! ## Complaints and the words before them -/

/-- **The complaints among calls**, each with the number of words that were read before it, if `n` were
read before the calls. -/
def Call.noted : Nat → List Call → List (Nat × Complaint)
  | _, [] => []
  | n, .error c :: cs => (n, c) :: noted n cs
  | n, .token :: cs => noted (n + 1) cs
  | n, .start _ :: cs => noted n cs
  | n, .finish :: cs => noted n cs

namespace Call

theorem noted_append (n : Nat) (cs ds : List Call) :
    noted n (cs ++ ds) = noted n cs ++ noted (n + cs.count .token) ds := by
  induction cs generalizing n with
  | nil => rfl
  | cons c cs ih =>
    rcases c with kind | _ | _ | c
    · rw [List.count_cons_of_ne (by simp)]
      exact ih n
    · rw [List.count_cons_self, Nat.add_comm _ 1, ← Nat.add_assoc]
      exact ih (n + 1)
    · rw [List.count_cons_of_ne (by simp)]
      exact ih n
    · rw [List.count_cons_of_ne (by simp)]
      exact congrArg ((n, c) :: ·) (ih n)

end Call

theorem Outline.noted_calls_node (n : Nat) (kind : SyntaxKind) (os : List Outline) :
    Call.noted n (node kind os).calls = Call.noted n (callsAll os) := by
  rw [calls_node]
  exact (Call.noted_append ..).trans (List.append_nil _)

/-! ## Anchors -/

/-- **A place is anchored** after so many words have been read: it is right behind the last of them, the
trivia that follows not skipped, or at the start of a node over the next one. -/
inductive Anchored (all : List Lexeme) (nodes : List Element) : Nat → Nat → Prop
  | behind {front back : List Lexeme} {l : Lexeme} (split : front ++ l :: back = all)
      (word : l.isTrivia = false) :
      Anchored all nodes (significant (front ++ [l])).length (extent (front ++ [l]))
  | skipping {front back : List Lexeme} {l : Lexeme} {e : Element} (split : front ++ l :: back = all)
      (word : l.isTrivia = false) (mem : e ∈ nodes) (kind_eq : e.kind = .error)
      (start_eq : e.start = extent front) (lexemes_eq : e.lexemes = [l]) :
      Anchored all nodes (significant front).length (extent front)

/-- An error says what was complained about, at an anchored place. -/
def NotedAt (all : List Lexeme) (nodes : List Element) (x : Nat × Complaint) (e : SyntaxError) : Prop :=
  ∃ place, e = ⟨x.2, .offset place⟩ ∧ Anchored all nodes x.1 place

/-- Lexemes that end with a word. -/
def Lexeme.EndInWord (ls : List Lexeme) : Prop := ∃ l ∈ ls.getLast?, l.isTrivia = false

theorem Lexeme.EndInWord.append {ms : List Lexeme} (h : EndInWord ms) (ls : List Lexeme) :
    EndInWord (ls ++ ms) := by
  obtain ⟨l, hl, ht⟩ := h
  refine ⟨l, ?_, ht⟩
  rw [List.getLast?_append, Option.mem_def.mp hl]
  rfl

variable {all front ls ws : List Lexeme} {nodes : List Element}

theorem Lexeme.EndInWord.anchored (h : EndInWord front) (hall : front ++ ls = all) :
    Anchored all nodes (significant front).length (extent front) := by
  obtain ⟨l, hl, ht⟩ := h
  obtain ⟨ms, rfl⟩ := List.getLast?_eq_some_iff.mp hl
  rw [List.append_assoc, List.singleton_append] at hall
  exact .behind hall ht

/-! ## Nodes begin with words -/

/-- Whether an outline is a complaint. -/
def Outline.isError : Outline → Bool
  | error _ => true
  | word _ | node .. => false

/-- **A node begins with a word or a node**, unless it is one in which a word was skipped. -/
theorem Grammar.Made.begins {kind : SyntaxKind} {os : List Outline} (h : Made kind os ws) :
    (kind = .error ∧ ∃ c l, os = [.error c, .word l]) ∨
      kind ≠ .error ∧ ∀ o ∈ os.head?, o.isError = false := by
  cases h with
  | skipped | unmatched => exact .inl ⟨rfl, _, _, rfl⟩
  | operation hleft =>
    obtain ⟨k, ps, rfl, -⟩ := exists_node_of_isExpression hleft
    exact .inr ⟨by simp, by simp [Outline.isError]⟩
  | _ => exact .inr ⟨by simp, by simp [Outline.isError]⟩

/-- The words of what is planted are those of the outlines. -/
theorem Planting.Covers.significant_leavesAll {p : Planting} {offset : Nat} {vs : List Lexeme}
    (h : p.Covers offset ls ws) (hls : significant ls = vs ++ ws) :
    significant (leavesAll p.trees) = vs := by
  rw [← h.leaves, significant_append, h.significant_eq] at hls
  exact List.append_cancel_right hls

namespace Outline

/-- What is planted ends with a word; where a complaint is planted, nothing changes. -/
theorem endInWord_plant (o : Outline) (h : significant ls = o.words ++ ws) (hmade : o.Every Made ws)
    (ready : o.isError = true → Lexeme.EndInWord front) :
    Lexeme.EndInWord (front ++ leavesAll (o.plant (extent front) ls).trees) := by
  cases o with
  | word l =>
    rw [words_word, List.singleton_append] at h
    have ht := Lexeme.isTrivia_of_significant_eq_cons h
    rw [plant_word, SyntaxTree.leavesAll_map_leaf]
    exact Lexeme.EndInWord.append (.append ⟨l, rfl, ht⟩ _) _
  | error c =>
    rw [plant_error, SyntaxTree.leavesAll_nil, List.append_nil]
    exact ready rfl
  | node kind os =>
    have hstands : Lexeme.StandsAt (front ++ ls) (extent front) ls := ⟨front, rfl, rfl⟩
    have row := row_plant (.node kind os) h hstands
    have hne : wordsAll [.node kind os] ≠ [] := by
      simpa using (every_node.mp hmade).1.wordsAll_ne_nil
    have hmade : EveryAll Made [.node kind os] ws := by simpa using hmade
    obtain ⟨-, hlast⟩ := row.ends hmade (fun _ _ _ => Made.wordsAll_ne_nil) (row.ne_nil hne)
    rw [← Element.leavesAll_trees, SyntaxTree.trees_placedAllAt] at hlast
    exact Lexeme.EndInWord.append hlast _

/-- The node over a skipped word begins where the word does. -/
theorem noted_plant_skipped {c : Complaint} {l : Lexeme} (hall : front ++ ls = all)
    (h : significant ls = l :: ws)
    (hnodes : seat .error [.error c, .word l] (extent front) ls ∈ nodes) :
    List.Forall₂ (NotedAt all nodes)
      (Call.noted (significant front).length (node .error [.error c, .word l]).calls)
      ((node .error [.error c, .word l]).plant (extent front) ls).errors := by
  obtain ⟨rest, hrest, -⟩ := Lexeme.behindMargin_eq_cons h
  have hl := Lexeme.isTrivia_of_significant_eq_cons h
  have hsplit : (front ++ margin ls) ++ l :: rest = all := by
    rw [List.append_assoc, ← hrest, Lexeme.margin_append_behindMargin, hall]
  have hanchor := Anchored.skipping hsplit hl hnodes rfl (by simp [seat, Element.start])
    (by simp [seat, plantAll_cons, plant_error, plant_word, plantAll_nil, hrest, margin, hl,
      SyntaxTree.placedAt_leaf])
  rw [significant_append, Lexeme.significant_margin, List.append_nil] at hanchor
  rw [noted_calls_node, plant_node]
  simp only [plantAll_cons, plant_error, plant_word, plantAll_nil]
  exact .cons ⟨_, by simp, hanchor⟩ .nil

mutual

/-- **What is planted complains at anchored places.** -/
theorem noted_plant : ∀ (o : Outline) {front ls ws : List Lexeme}, front ++ ls = all →
    significant ls = o.words ++ ws → o.Every Made ws →
    (o.isError = true → Lexeme.EndInWord front) →
    nodesAll (placedAllAt (extent front) (o.plant (extent front) ls).trees) ⊆ nodes →
    List.Forall₂ (NotedAt all nodes) (Call.noted (significant front).length o.calls)
      (o.plant (extent front) ls).errors
  | word l, front, ls, ws, hall, h, hmade, ready, hnodes => by
      rw [plant_word, calls_word]
      exact .nil
  | error c, front, ls, ws, hall, h, hmade, ready, hnodes => by
      rw [plant_error, calls_error]
      exact .cons ⟨_, rfl, (ready rfl).anchored hall⟩ .nil
  | node kind os, front, ls, ws, hall, h, hmade, ready, hnodes => by
      obtain ⟨made, hmade⟩ := every_node.mp hmade
      rw [words_node] at h
      rw [nodesAll_plant_node kind os h, List.cons_subset] at hnodes
      rcases made.begins with ⟨rfl, c, l, rfl⟩ | ⟨-, hhead⟩
      · exact noted_plant_skipped hall (by simpa using h) hnodes.1
      · -- no complaint comes first in the node, so it does not matter that a margin is in front of it
        have hall' : (front ++ margin ls) ++ behindMargin ls = all := by
          rw [List.append_assoc, Lexeme.margin_append_behindMargin, hall]
        have inner := noted_plantAll os hall' (by rwa [Lexeme.significant_behindMargin]) hmade
          fun o ho he => absurd (hhead o ho) (by simp [he])
        rw [extent_append, significant_append, Lexeme.significant_margin, List.append_nil] at inner
        rw [noted_calls_node, plant_node]
        exact inner hnodes.2

theorem noted_plantAll : ∀ (os : List Outline) {front ls ws : List Lexeme}, front ++ ls = all →
    significant ls = wordsAll os ++ ws → EveryAll Made os ws →
    (∀ o ∈ os.head?, o.isError = true → Lexeme.EndInWord front) →
    nodesAll (placedAllAt (extent front) (plantAll os (extent front) ls).trees) ⊆ nodes →
    List.Forall₂ (NotedAt all nodes) (Call.noted (significant front).length (callsAll os))
      (plantAll os (extent front) ls).errors
  | [], front, ls, ws, hall, h, hmade, ready, hnodes => by
      rw [plantAll_nil, callsAll_nil]
      exact .nil
  | o :: os, front, ls, ws, hall, h, hmade, ready, hnodes => by
      obtain ⟨hfirst, hothers⟩ := everyAll_cons.mp hmade
      rw [wordsAll_cons, List.append_assoc] at h
      have covers := covers_plant o (extent front) h
      have ends := endInWord_plant o h hfirst (ready o rfl)
      have hall' : (front ++ leavesAll (o.plant (extent front) ls).trees) ++
          (o.plant (extent front) ls).rest = all := by
        rw [List.append_assoc, covers.leaves, hall]
      rw [plantAll_cons, SyntaxTree.placedAllAt_append, Element.nodesAll_append,
        List.append_subset, ← covers.offset_eq] at hnodes
      have first := noted_plant o hall h hfirst (ready o rfl) hnodes.1
      have others := noted_plantAll os hall' covers.significant_eq hothers fun _ _ _ => ends
      rw [extent_append, ← covers.offset_eq, significant_append, covers.significant_leavesAll h,
        List.length_append] at others
      rw [callsAll_cons, Call.noted_append, plantAll_cons, count_token_calls]
      exact List.rel_append first (others hnodes.2)

end

/-! ## Skipped words -/

mutual

theorem exists_error_plant : ∀ (o : Outline) {offset : Nat} {ls ws : List Lexeme},
    significant ls = o.words ++ ws → o.Every Made ws →
    ∀ e ∈ nodesAll (placedAllAt offset (o.plant offset ls).trees), e.kind = .error →
      ∃ c, ⟨c, .offset e.start⟩ ∈ (o.plant offset ls).errors
  | word l, offset, ls, ws, h, hmade, e, he, hkind => by
      rw [plant_word, SyntaxTree.nodesAll_placedAllAt_map_leaf] at he
      exact absurd he List.not_mem_nil
  | error c, offset, ls, ws, h, hmade, e, he, hkind => by
      rw [plant_error, SyntaxTree.placedAllAt_nil, Element.nodesAll_nil] at he
      exact absurd he List.not_mem_nil
  | node kind os, offset, ls, ws, h, hmade, e, he, hkind => by
      obtain ⟨made, hmade⟩ := every_node.mp hmade
      rw [words_node] at h
      rw [nodesAll_plant_node kind os h] at he
      rw [plant_node]
      rcases List.mem_cons.mp he with rfl | he
      · obtain ⟨-, c, l, rfl⟩ := made.begins.resolve_right fun hne => hne.1 hkind
        refine ⟨c, ?_⟩
        rw [plantAll_cons, plant_error]
        exact List.mem_cons_self
      · exact exists_error_plantAll os (by rwa [Lexeme.significant_behindMargin]) hmade e he hkind

/-- **Where a word is skipped there is an error.** -/
theorem exists_error_plantAll : ∀ (os : List Outline) {offset : Nat} {ls ws : List Lexeme},
    significant ls = wordsAll os ++ ws → EveryAll Made os ws →
    ∀ e ∈ nodesAll (placedAllAt offset (plantAll os offset ls).trees), e.kind = .error →
      ∃ c, ⟨c, .offset e.start⟩ ∈ (plantAll os offset ls).errors
  | [], offset, ls, ws, h, hmade, e, he, hkind => by
      rw [plantAll_nil, SyntaxTree.placedAllAt_nil, Element.nodesAll_nil] at he
      exact absurd he List.not_mem_nil
  | o :: os, offset, ls, ws, h, hmade, e, he, hkind => by
      obtain ⟨hfirst, hothers⟩ := everyAll_cons.mp hmade
      rw [wordsAll_cons, List.append_assoc] at h
      have covers := covers_plant o offset h
      rw [plantAll_cons, SyntaxTree.placedAllAt_append, Element.nodesAll_append,
        ← covers.offset_eq] at he
      rw [plantAll_cons]
      rcases List.mem_append.mp he with he | he
      · obtain ⟨c, hc⟩ := exists_error_plant o h hfirst e he hkind
        exact ⟨c, List.mem_append_left _ hc⟩
      · obtain ⟨c, hc⟩ := exists_error_plantAll os covers.significant_eq hothers e he hkind
        exact ⟨c, List.mem_append_right _ hc⟩

end

end Outline

/-! ## Order -/

/-- **Errors in the order of the text**, from one place to another. -/
structure InOrder (start : Nat) (es : List SyntaxError) (stop : Nat) : Prop where
  le : start ≤ stop
  within : ∀ e ∈ es, start ≤ e.location.start ∧ e.location.start ≤ stop
  pairwise : es.Pairwise fun e f => e.location.start ≤ f.location.start

theorem InOrder.nil {start stop : Nat} (h : start ≤ stop) : InOrder start [] stop :=
  ⟨h, List.forall_mem_nil _, .nil⟩

theorem InOrder.append {start mid stop : Nat} {es fs : List SyntaxError} (h : InOrder start es mid)
    (h' : InOrder mid fs stop) : InOrder start (es ++ fs) stop := by
  have hle := h.le
  have hle' := h'.le
  refine ⟨by omega, fun e he => ?_, List.pairwise_append.mpr ⟨h.pairwise, h'.pairwise, ?_⟩⟩
  · rcases List.mem_append.mp he with he | he
    · have := h.within e he
      omega
    · have := h'.within e he
      omega
  · intro e he f hf
    exact (h.within e he).2.trans (h'.within f hf).1

namespace Outline

mutual

theorem inOrder_plant : ∀ (o : Outline) (offset : Nat) (ls : List Lexeme),
    InOrder offset (o.plant offset ls).errors (o.plant offset ls).offset
  | word l, offset, ls => by
      rw [plant_word]
      exact .nil (Nat.le_add_right _ _)
  | error c, offset, ls => by
      rw [plant_error]
      exact ⟨Nat.le_refl _, by simp [Location.start], List.pairwise_singleton _ _⟩
  | node kind os, offset, ls => by
      rw [plant_node]
      exact (InOrder.nil (Nat.le_add_right _ _)).append (inOrder_plantAll os _ _)

/-- **Planting goes forward**, and so do the errors. -/
theorem inOrder_plantAll : ∀ (os : List Outline) (offset : Nat) (ls : List Lexeme),
    InOrder offset (plantAll os offset ls).errors (plantAll os offset ls).offset
  | [], offset, ls => by
      rw [plantAll_nil]
      exact .nil (Nat.le_refl _)
  | o :: os, offset, ls => by
      rw [plantAll_cons]
      exact (inOrder_plant o offset ls).append (inOrder_plantAll os _ _)

end

end Outline

end LosslessSyntax
