import LosslessSyntax.Proofs.Parse.Joining
import LosslessSyntax.Proofs.Tree.Defects

/-!
# Proofs/Parse/Defects — every defect is reported, and none twice

The grammar remarks on every empty place of a node once, and where the remark is planted the node is
laid out around it.  So the errors of a parse and the defects of its tree correspond one to one
(`Parse.reportsDefects`), and the errors with a given wording can be counted off the tree.
-/

namespace LosslessSyntax

open Lexeme (significant tokenize extent margin behindMargin StandsAt)
open SyntaxTree (leaf placedAllAt endOf)
open Element (nodesAll)
open Grammar (Made)
open SyntaxKind

/-! ## Planted outlines -/

/-- What is lacking among the parts of an element. -/
def Element.lacking (e : Element) : List Complaint := LosslessSyntax.lacking e.kind e.parts

theorem SyntaxTree.nodesAll_placedAllAt_map_leaf (ls : List Lexeme) (start : Nat) :
    nodesAll (placedAllAt start (ls.map leaf)) = [] := by
  induction ls generalizing start with
  | nil => simp
  | cons l ls ih => simp [placedAt_leaf, ih]

theorem SyntaxTree.filter_isNode_placedAllAt_map_leaf (ls : List Lexeme) (start : Nat) :
    (placedAllAt start (ls.map leaf)).filter Element.isNode = [] := by
  induction ls generalizing start with
  | nil => simp
  | cons l ls ih => simp [placedAt_leaf, ih]

theorem Lexeme.StandsAt.behindMargin {all ls : List Lexeme} {offset : Nat}
    (h : StandsAt all offset ls) : StandsAt all (offset + extent (margin ls)) (behindMargin ls) := by
  rw [← margin_append_behindMargin ls] at h
  exact h.append

namespace Outline

/-- The node that an outline becomes where it is planted, behind its margin. -/
def seat (kind : SyntaxKind) (os : List Outline) (offset : Nat) (ls : List Lexeme) : Element :=
  let p := plantAll os (offset + extent (margin ls)) (behindMargin ls)
  .node kind (offset + extent (margin ls)) p.offset
    (placedAllAt (offset + extent (margin ls)) p.trees)

variable {all ls ws : List Lexeme} {offset : Nat}

/-- A node is planted with its margin in front. -/
theorem placedAllAt_plant_node (kind : SyntaxKind) (os : List Outline)
    (h : significant ls = wordsAll os ++ ws) :
    placedAllAt offset ((node kind os).plant offset ls).trees =
      placedAllAt offset ((margin ls).map leaf) ++ [seat kind os offset ls] := by
  rw [← Lexeme.significant_behindMargin] at h
  have covers := covers_plantAll os (offset + extent (margin ls)) h
  have hend := SyntaxTree.endOf_placedAllAt
    (plantAll os (offset + extent (margin ls)) (behindMargin ls)).trees
    (offset + extent (margin ls))
  rw [← covers.offset_eq] at hend
  rw [plant_node, SyntaxTree.placedAllAt_append, SyntaxTree.leavesAll_map_leaf,
    SyntaxTree.placedAllAt_cons, SyntaxTree.placedAllAt_nil, SyntaxTree.placedAt_node, hend, seat]

theorem filter_isNode_plant_node (kind : SyntaxKind) (os : List Outline)
    (h : significant ls = wordsAll os ++ ws) :
    (placedAllAt offset ((node kind os).plant offset ls).trees).filter Element.isNode =
      [seat kind os offset ls] := by
  rw [placedAllAt_plant_node kind os h, List.filter_append,
    SyntaxTree.filter_isNode_placedAllAt_map_leaf]
  rfl

theorem nodesAll_plant_node (kind : SyntaxKind) (os : List Outline)
    (h : significant ls = wordsAll os ++ ws) :
    nodesAll (placedAllAt offset ((node kind os).plant offset ls).trees) =
      seat kind os offset ls :: nodesAll (seat kind os offset ls).children := by
  rw [placedAllAt_plant_node kind os h, Element.nodesAll_append,
    SyntaxTree.nodesAll_placedAllAt_map_leaf, List.nil_append, Element.nodesAll_cons,
    Element.nodesAll_nil, List.append_nil]
  exact Element.nodes_node ..

/-- The parts of a planted node are what its outlines become. -/
theorem parts_seat (kind : SyntaxKind) {os : List Outline} (h : significant ls = wordsAll os ++ ws)
    (hs : StandsAt all offset ls) : (seat kind os offset ls).parts = os.filterMap part? := by
  rw [← Lexeme.significant_behindMargin] at h
  exact (row_plantAll os h hs.behindMargin).map_part

mutual

/-- **What is planted reports what is lacking in its nodes**, and what it remarks about the node around
it. -/
theorem reported_plant : ∀ (o : Outline) {offset : Nat} {ls ws : List Lexeme},
    significant ls = o.words ++ ws → StandsAt all offset ls → o.Every Made ws →
    ReportedOneToOne (defectsAt ⟨offset, (o.plant offset ls).offset⟩ o.remarks ++
        defectsIn Element.lacking (nodesAll (placedAllAt offset (o.plant offset ls).trees)))
      (o.plant offset ls).errors
  | word l, offset, ls, ws, h, hs, hmade => by
      rw [plant_word, SyntaxTree.nodesAll_placedAllAt_map_leaf]
      exact .nil
  | error c, offset, ls, ws, h, hs, hmade => by
      rw [plant_error, SyntaxTree.placedAllAt_nil, Element.nodesAll_nil]
      exact .cons ⟨rfl, Nat.le_refl _, Nat.le_refl _⟩ .zero
  | node kind os, offset, ls, ws, h, hs, hmade => by
      obtain ⟨made, hmade⟩ := every_node.mp hmade
      rw [words_node] at h
      have hparts := parts_seat kind h hs
      have inner := reported_plantAll os (by rwa [Lexeme.significant_behindMargin]) hs.behindMargin hmade
      rw [← made.remarks_eq, ← hparts, defectsAt_append, List.append_assoc] at inner
      rw [nodesAll_plant_node kind os h, plant_node]
      exact inner.widen (decide_eq_true ⟨Nat.le_add_right _ _, Nat.le_refl _⟩)

theorem reported_plantAll : ∀ (os : List Outline) {offset : Nat} {ls ws : List Lexeme},
    significant ls = wordsAll os ++ ws → StandsAt all offset ls → EveryAll Made os ws →
    ReportedOneToOne (defectsAt ⟨offset, (plantAll os offset ls).offset⟩ (os.flatMap remarks) ++
      defectsIn Element.lacking (nodesAll (placedAllAt offset (plantAll os offset ls).trees)))
      (plantAll os offset ls).errors
  | [], offset, ls, ws, h, hs, hmade => by
      rw [plantAll_nil, SyntaxTree.placedAllAt_nil, Element.nodesAll_nil]
      exact .nil
  | o :: os, offset, ls, ws, h, hs, hmade => by
      obtain ⟨hfirst, hothers⟩ := everyAll_cons.mp hmade
      rw [wordsAll_cons, List.append_assoc] at h
      have covers := covers_plant o offset h
      have covers' := covers_plantAll os (o.plant offset ls).offset covers.significant_eq
      have first := reported_plant o h hs hfirst
      have others := reported_plantAll os covers.significant_eq (covers.stands hs) hothers
      have hle := covers.offset_eq
      have hle' := covers'.offset_eq
      rw [plantAll_cons, SyntaxTree.placedAllAt_append, ← hle, Element.nodesAll_append, defectsIn_append,
        List.flatMap_cons, defectsAt_append]
      refine (first.widen ?_).interchange (others.widen ?_)
      · exact decide_eq_true ⟨Nat.le_refl _, hle' ▸ Nat.le_add_right _ _⟩
      · exact decide_eq_true ⟨hle ▸ Nat.le_add_right _ _, Nat.le_refl _⟩

end

/-- What is planted between statements reports what was skipped and what is lacking. -/
theorem reported_between {o : Outline} (ho : Grammar.Between o) (h : significant ls = o.words ++ ws)
    (hs : StandsAt all offset ls) (hmade : o.Every Made ws) :
    ReportedOneToOne
      (defectsIn Element.skipped
          ((placedAllAt offset (o.plant offset ls).trees).filter Element.isNode) ++
        defectsIn Element.lacking (nodesAll (placedAllAt offset (o.plant offset ls).trees)))
      (o.plant offset ls).errors := by
  cases ho with
  | word l =>
    rw [plant_word, SyntaxTree.filter_isNode_placedAllAt_map_leaf,
      SyntaxTree.nodesAll_placedAllAt_map_leaf]
    exact .nil
  | @node kind hk os =>
    have planted := reported_plant (.node kind os) h hs hmade
    have hskip : (seat kind os offset ls).skipped = [] := Element.skipped_of_ne_error hk
    rw [words_node] at h
    rw [remarks_node hk] at planted
    rw [filter_isNode_plant_node kind os h, defectsIn, List.flatMap_singleton, hskip]
    exact planted
  | skipped l =>
    -- the complaint is made inside the node itself, not only inside the margin around it
    obtain ⟨-, hmade⟩ := every_node.mp hmade
    rw [words_node] at h
    have hparts := parts_seat .error h hs
    have hskip := Element.skipped_eq (e := seat .error _ offset ls) rfl hparts
    have inner := reported_plantAll _ (by rwa [Lexeme.significant_behindMargin]) hs.behindMargin hmade
    rw [filter_isNode_plant_node .error _ h, nodesAll_plant_node .error _ h, defectsIn,
      List.flatMap_singleton, hskip, plant_node]
    exact inner

/-- So do the statements of a file. -/
theorem reportedAll_between (os : List Outline) (hos : ∀ o ∈ os, Grammar.Between o)
    (h : significant ls = wordsAll os ++ ws) (hs : StandsAt all offset ls) (hmade : EveryAll Made os ws) :
    ReportedOneToOne
      (defectsIn Element.skipped
          ((placedAllAt offset (plantAll os offset ls).trees).filter Element.isNode) ++
        defectsIn Element.lacking (nodesAll (placedAllAt offset (plantAll os offset ls).trees)))
      (plantAll os offset ls).errors := by
  induction os generalizing offset ls with
  | nil =>
    rw [plantAll_nil, SyntaxTree.placedAllAt_nil, Element.nodesAll_nil]
    exact .nil
  | cons o os ih =>
    obtain ⟨ho, hos⟩ := List.forall_mem_cons.mp hos
    obtain ⟨hfirst, hothers⟩ := everyAll_cons.mp hmade
    rw [wordsAll_cons, List.append_assoc] at h
    have covers := covers_plant o offset h
    have first := reported_between ho h hs hfirst
    have others := ih hos covers.significant_eq (covers.stands hs) hothers
    rw [plantAll_cons, SyntaxTree.placedAllAt_append, ← covers.offset_eq, Element.nodesAll_append,
      defectsIn_append, List.filter_append, defectsIn_append]
    exact first.interchange others

end Outline

/-! ## Defects of a parse -/

namespace Parse

variable {os : List Outline} {ls : List Lexeme}

theorem children_root (os : List Outline) (ls : List Lexeme) : ∃ place,
    (ofOutlines os ls).root.children = placedAllAt 0 (Outline.plantAll os 0 ls).trees ++
      placedAllAt place ((Outline.plantAll os 0 ls).rest.map leaf) := by
  refine ⟨0 + extent (SyntaxTree.leavesAll (Outline.plantAll os 0 ls).trees), ?_⟩
  rw [← SyntaxTree.placedAllAt_append, root, tree_ofOutlines, Outline.planted, SyntaxTree.placed,
    SyntaxTree.placedAt_node]
  rfl

/-- Nothing is missing in the root itself. -/
theorem missing_root (os : List Outline) (ls : List Lexeme) : (ofOutlines os ls).root.missing = [] := by
  rw [root, tree_ofOutlines, Outline.planted, SyntaxTree.placed, SyntaxTree.placedAt_node]
  rfl

/-- What is missing in the nodes below the root is what is lacking among their parts. -/
theorem defectsIn_missing (hreads : Grammar.ReadsFile (significant ls) os)
    (hpos : ∀ l ∈ ls, 0 < l.length) :
    defectsIn Element.missing (nodesAll (ofOutlines os ls).root.children) =
      defectsIn Element.lacking (nodesAll (ofOutlines os ls).root.children) := by
  refine List.flatMap_congr fun e he => ?_
  obtain ⟨shaped, ordered⟩ := isShaped_and_isOrdered hreads hpos he
  rw [Element.missing_eq shaped ordered, Element.lacking]

/-- **The errors of the grammar report the defects of the tree.** -/
theorem reported_ofOutlines (hreads : Grammar.ReadsFile (significant ls) os)
    (hpos : ∀ l ∈ ls, 0 < l.length) :
    ReportedOneToOne (defects (ofOutlines os ls).root) (Outline.plantAll os 0 ls).errors := by
  have h := hreads.wordsAll_eq.symm
  rw [← List.append_nil (Outline.wordsAll os)] at h
  have reported := Outline.reportedAll_between os hreads.between h (StandsAt.zero ls) hreads.every
  obtain ⟨place, hchildren⟩ := children_root os ls
  have hnodes : nodesAll (ofOutlines os ls).root.children =
      nodesAll (placedAllAt 0 (Outline.plantAll os 0 ls).trees) := by
    rw [hchildren, Element.nodesAll_append, SyntaxTree.nodesAll_placedAllAt_map_leaf, List.append_nil]
  have hchildNodes : (ofOutlines os ls).root.childNodes =
      (placedAllAt 0 (Outline.plantAll os 0 ls).trees).filter Element.isNode := by
    rw [Element.childNodes, hchildren, List.filter_append,
      SyntaxTree.filter_isNode_placedAllAt_map_leaf, List.append_nil]
  have hmissing : defectsIn Element.missing (ofOutlines os ls).root.nodes =
      defectsIn Element.lacking (nodesAll (placedAllAt 0 (Outline.plantAll os 0 ls).trees)) := by
    rw [nodes_root, defectsIn, List.flatMap_cons, missing_root, ← defectsIn,
      defectsIn_missing hreads hpos, hnodes]
    rfl
  refine reported.perm ?_
  rw [defects, hmissing, hchildNodes]
  exact List.perm_append_comm

/-- **The errors of a parse report the defects of its tree**, and can be counted off it. -/
structure ReportsDefects (p : Parse) : Prop where
  /-- Each error reports a defect inside the node where it is, and each defect is reported once. -/
  oneToOne : ReportedOneToOne (defects p.root) p.errors
  names : p.errors.countP (·.message == "expected a name") = p.root.nodes.countP (·.lacksName)
  equals : p.errors.countP (·.message == "expected EQ") = p.root.nodes.countP (·.lacksEquals)
  closings : p.errors.countP (·.message == "expected R_PAREN") =
    p.root.nodes.countP (·.lacksClosing)
  unmatched : p.errors.countP (·.message == "unmatched ')'") =
    p.root.childNodes.countP (·.skipsParen)
  expressions : p.errors.countP (·.message == "expected expression") =
    p.root.nodes.countP (·.lacksExpression) + p.root.childNodes.countP (·.skipsOther)
  /-- There are no other errors. -/
  others : ∀ e ∈ p.errors, e.message ∈ ["expected a name", "expected EQ", "expected R_PAREN",
    "unmatched ')'", "expected expression"]

/-- Errors that report the defects of a tree are as many of any wording as there are defects of that
sort. -/
theorem countP_message {p : Parse} (h : ReportedOneToOne (defects p.root) p.errors)
    (m : String → Bool) : p.errors.countP (m ·.message) =
      p.root.nodes.countP (fun e => e.lacksName && m "expected a name") +
      p.root.nodes.countP (fun e => e.lacksEquals && m "expected EQ") +
      p.root.nodes.countP (fun e => e.lacksExpression && m "expected expression") +
      p.root.nodes.countP (fun e => e.lacksClosing && m "expected R_PAREN") +
      (p.root.childNodes.countP (fun e => e.skipsParen && m "unmatched ')'") +
      p.root.childNodes.countP (fun e => e.skipsOther && m "expected expression")) := by
  have hsum := h.countP_eq (m ·.message)
  rw [defects, List.countP_append, Element.countP_missing (m ·.message),
    Element.countP_skipped (m ·.message)] at hsum
  exact hsum

/-- Errors that report the defects of a tree can be counted off it. -/
theorem reportsDefects_of_reported {p : Parse} (h : ReportedOneToOne (defects p.root) p.errors) :
    ReportsDefects p := by
  have hcount := countP_message h
  refine ⟨h, ?_, ?_, ?_, ?_, ?_, ?_⟩
  · simpa using hcount (· == "expected a name")
  · simpa using hcount (· == "expected EQ")
  · simpa using hcount (· == "expected R_PAREN")
  · simpa using hcount (· == "unmatched ')'")
  · simpa using hcount (· == "expected expression")
  · let wordings := ["expected a name", "expected EQ", "expected R_PAREN", "unmatched ')'",
      "expected expression"]
    have hnone : p.errors.countP (fun e => !wordings.contains e.message) = 0 := by
      rw [hcount fun m => !wordings.contains m]
      simp [wordings]
    intro e he
    have hmem := List.countP_eq_zero.mp hnone e he
    rwa [Bool.not_eq_true', Bool.not_eq_false, List.contains_iff_mem] at hmem

/-- **Error reporting is exact**: before the literals of a text are looked at, the errors and the
defects of its tree correspond one to one, and there are as many errors of each wording as there are
defects of that sort. -/
theorem reportsDefects (text : String) : ∃ p, Yields text p ∧ ReportsDefects p := by
  obtain ⟨os, hreads, -⟩ := ofText_eq text
  have reported := reported_ofOutlines hreads fun _ => Lexeme.length_pos_of_mem_tokenize
  refine ⟨_, yields_of_reads hreads, reportsDefects_of_reported reported⟩

end Parse

end LosslessSyntax
