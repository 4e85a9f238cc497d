import LosslessSyntax.Proofs.Body.Gaps
import LosslessSyntax.Proofs.Parse.Defects
import Mathlib.Data.List.Flatten
import Mathlib.Data.List.Perm.Subperm

/-!
# Proofs/Parse/Gaps — what is missing in a body has been reported

Whatever keeps a body from being whole is a defect of the tree, and every defect has an error of its own:
an expression that is absent, a number that is too large, and a definition without a name, which is
dropped (`Parse.reportsGaps`).  So the body of a text without errors is whole, and says what the text
says, statement by statement.
-/

namespace LosslessSyntax

open Lexeme (significant tokenize)
open Element (nodesAll)
open SyntaxKind

/-! ## Defects among the nodes of a file -/

/-- Defects of two sorts in the same nodes. -/
theorem defectsIn_append_perm (f g : Element → List Complaint) (es : List Element) :
    (defectsIn f es ++ defectsIn g es).Perm (defectsIn (fun e => f e ++ g e) es) := by
  refine (List.flatMap_append_perm ..).trans (.of_eq (List.flatMap_congr fun e _ => ?_))
  exact (defectsAt_append ..).symm

theorem defectsIn_sublist {f g : Element → List Complaint} (es : List Element)
    (h : ∀ e, (f e).Sublist (g e)) : (defectsIn f es).Sublist (defectsIn g es) :=
  List.Sublist.flatMap_right es fun e _ => (h e).map _

namespace Element

variable {r : Element} {es fs : List Element}

/-- Every node is among its own nodes. -/
theorem sublist_nodesAll (h : ∀ e ∈ es, e.isNode = true) : es.Sublist (nodesAll es) := by
  induction es with
  | nil => exact List.nil_sublist _
  | cons e es ih =>
    obtain ⟨he, hes⟩ := List.forall_mem_cons.mp h
    rw [nodesAll_cons, nodes_eq_cons he]
    exact ((ih hes).trans (List.sublist_append_right ..)).cons_cons e

/-- The statements of a file are among its nodes. -/
theorem statements_sublist (r : Element) : r.statements.Sublist (nodesAll r.children) := by
  have hnodes : ∀ s ∈ r.statements, s.isNode = true := fun s hs =>
    (mem_statements.mp hs).2.1
  have hsub : r.statements.Sublist r.children := List.filter_sublist.trans List.filter_sublist
  refine (sublist_nodesAll hnodes).trans ?_
  rw [nodesAll_eq_flatMap, nodesAll_eq_flatMap]
  exact hsub.flatMap nodes

/-- So are the nodes of the statements that are kept. -/
theorem nodesAll_kept_sublist (r : Element) : (nodesAll r.kept).Sublist (nodesAll r.children) := by
  have hsub : r.kept.Sublist r.children :=
    List.filter_sublist.trans (List.filter_sublist.trans List.filter_sublist)
  rw [nodesAll_eq_flatMap, nodesAll_eq_flatMap]
  exact hsub.flatMap nodes

/-- The lack of a name and the gaps of a node are among what is missing in it and what is wrong with
its number. -/
theorem sublist_missing (e : Element) : (e.nameless ++ e.gap).Sublist (e.missing ++ e.oversized) := by
  rw [gap, ← List.append_assoc]
  refine List.Sublist.append_right ?_ _
  exact ((List.sublist_append_left ..).append_right _).trans (List.sublist_append_left ..)

/-- **Whatever keeps the body of a file from being whole is a defect of its tree**, or a number that is
too large. -/
theorem subperm_defects (r : Element) :
    (defectsIn nameless r.statements ++ defectsIn gap (nodesAll r.kept)).Subperm
      (defectsIn missing (nodesAll r.children) ++ defectsIn oversized (nodesAll r.children)) := by
  have hall : (defectsIn nameless r.statements ++ defectsIn gap (nodesAll r.kept)).Sublist
      (defectsIn nameless (nodesAll r.children) ++ defectsIn gap (nodesAll r.children)) :=
    ((statements_sublist r).flatMap _).append ((nodesAll_kept_sublist r).flatMap _)
  have hnodes := defectsIn_sublist (nodesAll r.children) sublist_missing
  exact (hall.subperm.trans (defectsIn_append_perm ..).subperm).trans
    (hnodes.subperm.trans (defectsIn_append_perm ..).symm.subperm)

/-- There are as many defects at the gaps of some nodes as there are gaps. -/
theorem length_defectsIn_gap (es : List Element) : (defectsIn gap es).length = gaps es := by
  induction es with
  | nil => rfl
  | cons e es ih =>
    rw [defectsIn, List.flatMap_cons, ← defectsIn, List.length_append, ih, gaps_cons, gap, oversized]
    cases e.lacksExpression <;> cases e.overflows <;> rfl

end Element

/-! ## Errors of a parse -/

namespace Parse

variable {os : List Outline} {text : String}

/-- The errors of the literals of some nodes report the numbers that are too large. -/
theorem reported_literalErrorsOf {ns : List Element}
    (h : ∀ n ∈ ns, (n.kind == literal && n.isInteger && n.intValue?.isNone) = n.overflows) :
    ReportedOneToOne (defectsIn Element.oversized ns) (literalErrorsOf ns) := by
  induction ns with
  | nil => exact .nil
  | cons n ns ih =>
    obtain ⟨hn, hns⟩ := List.forall_mem_cons.mp h
    rw [literalErrorsOf, List.filter_cons, hn, defectsIn, List.flatMap_cons, Element.oversized]
    cases n.overflows with
    | false => exact ih hns
    | true => exact .cons ⟨rfl, Nat.le_refl _, Nat.le_refl _⟩ (ih hns)

/-- In a node of a text, a literal has no value exactly if its number is too large. -/
theorem overflows_eq {e : Element} (shaped : e.IsShaped) (hof : e.IsOf text) :
    (e.kind == literal && e.isInteger && e.intValue?.isNone) = e.overflows := by
  by_cases hk : e.kind = literal
  · obtain ⟨start, word, hsolid, -⟩ := shaped.exists_number hk
    have hinteger : e.isInteger = true := by
      rw [Element.isInteger, Element.literalWord?_eq, hsolid]
      rfl
    rw [hk, hinteger, shaped.isNone_intValue? hof hk]
    rfl
  · rw [Element.overflows, beq_eq_false_iff_ne.mpr hk]
    rfl

/-- A node of a parse is of the text. -/
theorem isOf_of_mem_nodes (hreads : Grammar.ReadsFile (significant (tokenize text)) os) {e : Element}
    (he : e ∈ (ofOutlines os (tokenize text)).root.nodes) : e.IsOf text := by
  obtain ⟨kind, ts, place, rfl, hts⟩ := SyntaxTree.exists_of_mem_nodes_placedAt _ he
  intro l hl
  rw [← Element.leaves_tree, SyntaxTree.tree_placedAt, SyntaxTree.leaves_node] at hl
  have hmem := hts l hl
  rwa [tree_ofOutlines, Outline.leaves_planted hreads.wordsAll_eq.symm] at hmem

/-- **The errors of a parse report the defects of its tree**, and the numbers that are too large. -/
theorem reported_errors (hreads : Grammar.ReadsFile (significant (tokenize text)) os) :
    ReportedOneToOne (defects (ofOutlines os (tokenize text)).root ++
      defectsIn Element.oversized (ofOutlines os (tokenize text)).root.nodes)
      (ofOutlines os (tokenize text)).errors := by
  have hpos : ∀ l ∈ tokenize text, 0 < l.length := fun _ => Lexeme.length_pos_of_mem_tokenize
  refine (reported_ofOutlines hreads hpos).append (reported_literalErrorsOf fun e he => ?_)
  have hof := isOf_of_mem_nodes hreads he
  rw [nodes_root] at he
  obtain rfl | he := List.mem_cons.mp he
  · rw [Element.overflows, (isRoot_ofOutlines hreads.wordsAll_eq.symm).kind_eq]
    rfl
  · exact overflows_eq (isShaped_and_isOrdered hreads hpos he).1 hof

/-- **The errors of a parse account for its body.** -/
structure ReportsGaps (p : Parse) : Prop where
  /-- Something is missing in the body for each expression that is absent and each number that is too
  large in the statements that are kept. -/
  missings : (Body.ofFile p.root).exprs.count .missing =
    (nodesAll p.root.kept).countP (·.lacksExpression) + (nodesAll p.root.kept).countP (·.overflows)
  /-- The definitions without a name are dropped, and no other statement is. -/
  dropped : (Lowering.ofFile p.root).dropped.toList =
    (p.root.statements.filter (·.lacksName)).map (·.range)
  /-- Each of these has an error of its own. -/
  reported : ∃ es, es.Subperm p.errors ∧ ReportedOneToOne
    (defectsIn Element.nameless p.root.statements ++ defectsIn Element.gap (nodesAll p.root.kept)) es
  /-- The statements that are kept are the statements of the body, one by one. -/
  statements : List.Forall₂ (Element.SaidBy (Body.ofFile p.root)) p.root.kept
    (Body.ofFile p.root).statements.toList
  operators : ∀ x ∈ (Body.ofFile p.root).exprs, x.HasOperator

theorem reportsGaps_ofOutlines (hreads : Grammar.ReadsFile (significant (tokenize text)) os) :
    ReportsGaps (ofOutlines os (tokenize text)) := by
  have htidy : ∀ c ∈ (ofOutlines os (tokenize text)).root.children, c.IsTidy := fun c =>
    isTidy_of_mem_children hreads fun _ => Lexeme.length_pos_of_mem_tokenize
  have hof : ∀ c ∈ (ofOutlines os (tokenize text)).root.children, c.IsOf text := fun c =>
    (isOf_root hreads).of_mem_children
  refine ⟨Body.count_missing_ofFile htidy hof, Lowering.dropped_ofFile htidy, ?_,
    Body.forall₂_saidBy_ofFile htidy, Body.hasOperator_of_mem_ofFile htidy hof⟩
  refine (reported_errors hreads).of_subperm ((Element.subperm_defects _).trans ?_)
  have hnodes : (nodesAll (ofOutlines os (tokenize text)).root.children).Sublist
      (ofOutlines os (tokenize text)).root.nodes := nodes_root os (tokenize text) ▸ .cons _ (.refl _)
  exact (((hnodes.flatMap _).trans (List.sublist_append_left ..)).append (hnodes.flatMap _)).subperm

/-- If there are no errors, nothing is missing in the body, and no statement is dropped. -/
theorem ReportsGaps.whole {p : Parse} (h : ReportsGaps p) (hp : p.errors = []) :
    .missing ∉ (Body.ofFile p.root).exprs ∧ p.root.kept = p.root.statements := by
  obtain ⟨es, hes, hreported⟩ := h.reported
  rw [hp, List.subperm_nil] at hes
  rw [hes] at hreported
  obtain ⟨hnameless, hgaps⟩ := List.append_eq_nil_iff.mp hreported.eq_nil
  constructor
  · rw [← Array.count_eq_zero, h.missings]
    have hlength := Element.length_defectsIn_gap (nodesAll p.root.kept)
    rw [hgaps] at hlength
    exact hlength.symm
  · refine List.filter_eq_self.mpr fun s hs => ?_
    have hname := List.flatMap_eq_nil_iff.mp hnameless s hs
    rw [defectsAt, List.map_eq_nil_iff, Element.nameless] at hname
    cases hlacks : s.lacksName with
    | false => rfl
    | true => exact absurd hname (by simp [hlacks])

/-- **Lowering and error reporting agree.**  Of every text, each expression that is missing in the body
has an error of its own, and so has each definition that is dropped.  So if a text has no errors, nothing
is missing in its body, and the body has one statement for every statement of the file. -/
theorem reportsGaps (text : String) : ∃ p, ofText text = .ok p ∧ ReportsGaps p ∧
    (p.errors = [] → .missing ∉ (Body.ofFile p.root).exprs ∧
      (∀ x ∈ (Body.ofFile p.root).exprs, x.HasOperator) ∧
      List.Forall₂ (Element.SaidBy (Body.ofFile p.root)) p.root.statements
        (Body.ofFile p.root).statements.toList) := by
  obtain ⟨os, hreads, htext⟩ := ofText_eq text
  have h := reportsGaps_ofOutlines hreads
  refine ⟨_, htext, h, fun hp => ?_⟩
  obtain ⟨hwhole, hkept⟩ := h.whole hp
  have hstatements := h.statements
  rw [hkept] at hstatements
  exact ⟨hwhole, h.operators, hstatements⟩

end Parse

end LosslessSyntax
