import LosslessSyntax.Proofs.Body.SourceMap
import LosslessSyntax.Proofs.Parse.Gaps
import LosslessSyntax.Proofs.Parse.Pointers

/-!
# Proofs/Parse/SourceMap — from a tree to its body and back

A chart of all expressions that are kept is left behind when the body of a parse has been read off its
tree, and pointers into the tree are unambiguous.  So the map between the two can be followed in both
directions.
-/

namespace LosslessSyntax

open Lexeme (significant tokenize)
open Element (nodesAll expressionNodes)
open SyntaxKind

/-! ## The expressions that are kept -/

namespace Element

variable {r n : Element}

/-- The expressions of the statements that are kept are among the nodes of a file. -/
theorem expressionNodes_kept_sublist (r : Element) :
    (r.kept.flatMap expressionNodes).Sublist (nodesAll r.children) := by
  have hfilter : r.kept.flatMap expressionNodes = (nodesAll r.kept).filter isExpression := by
    rw [nodesAll_eq_flatMap, List.filter_flatMap]
    rfl
  rw [hfilter]
  exact List.filter_sublist.trans (nodesAll_kept_sublist r)

theorem mem_expressionNodes_kept : n ∈ r.kept.flatMap expressionNodes ↔
    ∃ d ∈ r.statements, d.lacksName = false ∧ n ∈ d.nodes ∧ n.isExpression = true := by
  simp [kept, mem_expressionNodes, and_assoc]

theorem mem_children_of_mem_statements {d : Element} (h : d ∈ r.statements) : d ∈ r.children :=
  (mem_statements.mp h).1

end Element

namespace Parse

variable {os : List Outline} {ls : List Lexeme} {r n : Element}

/-- What stands between the statements of a file is a word, or was skipped. -/
theorem FollowsSchema.kind_of_mem_children (h : FollowsSchema r) {c : Element} (hc : c ∈ r.children)
    (hn : c.isNode = true) : c.kind.isStmt = true ∨ c.kind = .error := by
  obtain ⟨ss, hss, hfits⟩ := h.fits r (Element.self_mem_nodes (Element.isNode_of_mem_children hc))
  rw [h.kind_eq] at hss
  obtain rfl := Option.some.inj hss
  have hpart : Part.node c.kind ∈ r.parts :=
    Element.part_node_mem.mpr ⟨c, List.mem_filter.mpr ⟨hc, hn⟩, rfl⟩
  obtain ⟨slot, hslot, hmem⟩ := hfits.mem_parts hpart
  obtain rfl := List.mem_singleton.mp hslot
  revert hmem
  cases c.kind <;> simp [Slot.parts, operandParts, expressionParts, isStmt, isExpr]

/-- **Every expression of a file is in a statement.** -/
theorem exists_statement (hreads : Grammar.ReadsFile (significant ls) os)
    (hpos : ∀ l ∈ ls, 0 < l.length) (hn : n ∈ (ofOutlines os ls).root.nodes)
    (hk : n.kind.isExpr = true) : ∃ d ∈ (ofOutlines os ls).root.statements, n ∈ d.nodes := by
  have hroot := isRoot_ofOutlines hreads.wordsAll_eq.symm
  rcases Element.mem_nodes.mp hn with ⟨-, rfl⟩ | ⟨c, hc, hnc⟩
  · exact absurd hk (by simp [hroot.kind_eq, isExpr])
  · have hnode := Element.isNode_of_nodes_ne_nil (List.ne_nil_of_mem hnc)
    rcases (hroot.followsSchema hreads).kind_of_mem_children hc hnode with hstmt | herror
    · exact ⟨c, Element.mem_statements.mpr ⟨hc, hnode, hstmt⟩, hnc⟩
    · have htidy := isTidy_of_mem_children hreads hpos hc
      rw [htidy.nodes_eq_singleton hnode (.inr herror), List.mem_singleton] at hnc
      exact absurd hk (by simp [hnc, herror, isExpr])

/-- **The map between a body and its tree is faithful** in both directions. -/
structure MapsFaithfully (r : Element) (s : Lowering) : Prop where
  /-- Every expression node means something, unless it is inside a definition that is dropped: the
  expression that was read off it, which comes from no other node, or, for a parenthesis, what its inside
  means. -/
  means : ∀ n ∈ r.nodes, n.kind.isExpr = true →
    (∀ d ∈ r.statements, d.lacksName = true → n ∉ d.nodes) → ∃ id, s.Means n id
  /-- Inside a definition that is dropped, nothing means anything. -/
  dropped : ∀ d ∈ r.statements, d.lacksName = true → ∀ n ∈ d.nodes, s.map.exprOf? n = none
  /-- An expression that comes from a node is what the node means, and the node can be found again. -/
  back : ∀ id p, s.map.origin? id = some p → s.map.exprAt? p = some id ∧
    ∃ n, p.toNode .expr r = .ok n ∧ n.kind ≠ parenExpr
  /-- An expression comes from no node exactly if it is missing and stands in for one that is absent. -/
  absent : ∀ id < s.exprs.size, s.map.origin? id = none ↔
    s.exprs[id]? = some .missing ∧ s.StandsIn r.nodes r.kept id

theorem mapsFaithfully_ofOutlines (hreads : Grammar.ReadsFile (significant ls) os)
    (hpos : ∀ l ∈ ls, 0 < l.length) :
    MapsFaithfully (ofOutlines os ls).root (Lowering.ofFile (ofOutlines os ls).root) := by
  have hdiscernible := isDiscernible_root hreads hpos
  have hnodup := hdiscernible.nodup
  have hsub := Element.expressionNodes_kept_sublist (ofOutlines os ls).root
  have hsub : ((ofOutlines os ls).root.kept.flatMap expressionNodes).Sublist
      (ofOutlines os ls).root.nodes := nodes_root os ls ▸ hsub.cons _
  have charts := Lowering.charts_ofFile (fun c => isTidy_of_mem_children hreads hpos)
    ((hsub.map _).nodup hnodup)
  have hinj : ∀ n ∈ (ofOutlines os ls).root.nodes,
      ∀ m ∈ (ofOutlines os ls).root.kept.flatMap expressionNodes,
      SyntaxPointer.of m = SyntaxPointer.of n → m = n :=
    fun n hn m hm => List.inj_on_of_nodup_map hnodup (hsub.subset hm) hn
  refine ⟨?_, ?_, ?_, ?_⟩
  · intro n hn hk hkept
    obtain ⟨d, hd, hnd⟩ := exists_statement hreads hpos hn hk
    have hname : d.lacksName = false := by
      by_contra hname
      exact hkept d hd (by simpa using hname) hnd
    have hexpr : n.isExpression = true := by
      rw [Element.isExpression, Element.isNode_of_mem_nodes hn, hk, Bool.true_and]
    exact charts.means n (Element.mem_expressionNodes_kept.mpr ⟨d, hd, hname, hnd, hexpr⟩)
  · intro d hd hname n hn
    have hd' := Element.mem_children_of_mem_statements hd
    by_contra hmeans
    obtain ⟨id, there⟩ := Option.ne_none_iff_exists'.mp hmeans
    obtain ⟨m, hm, heq⟩ := charts.keys there
    obtain rfl := hinj n (Element.mem_nodes_of_mem_children (Element.mem_nodesAll hd' hn)) m hm heq
    obtain ⟨c, hc, hname', hmc, -⟩ := Element.mem_expressionNodes_kept.mp hm
    have hne : c ≠ d := by
      rintro rfl
      exact absurd hname (by simp [hname'])
    exact hdiscernible.disjoint_nodes (Element.mem_children_of_mem_statements hc) hd' hne hmc hn
  · intro id p hp
    obtain ⟨n, hn, hk, rfl, there⟩ := charts.exists_of_origin? hp
    obtain ⟨-, -, -, -, hexpr⟩ := Element.mem_expressionNodes_kept.mp hn
    exact ⟨there, n, SyntaxPointer.toNode_of hdiscernible (hsub.subset hn)
      (Bool.and_eq_true_iff.mp hexpr).2, hk⟩
  · intro id hlt
    rw [charts.origin?_eq_none_iff hlt]
    refine and_congr_right fun _ => ⟨fun hid => ?_, charts.standsIn_of_nodes hinj⟩
    exact hid.mono (.refl _) hsub.subset (List.prefix_refl _)

/-- **The source map is faithful.** -/
theorem mapsFaithfully (text : String) : ∃ p, ofText text = .ok p ∧
    MapsFaithfully p.root (Lowering.ofFile p.root) := by
  obtain ⟨os, hreads, htext⟩ := ofText_eq text
  exact ⟨_, htext, mapsFaithfully_ofOutlines hreads fun _ => Lexeme.length_pos_of_mem_tokenize⟩

end Parse

end LosslessSyntax
