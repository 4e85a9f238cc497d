import LosslessSyntax.Proofs.Grammar.Precedence
import LosslessSyntax.Proofs.Lexeme.Number
import LosslessSyntax.Proofs.Parse.Nodes
import LosslessSyntax.Proofs.Tree.Parts

/-!
# Proofs/Parse/Precedence — operators bind in the tree as they should

The parts of an operation are found by their places relative to its operator.  In a tree that was
parsed these are the parts that were read (`Stands.operation`), so what the rules say about operators
holds of the parts of every operation in the tree of any text, whether or not the text has errors.
-/

namespace LosslessSyntax

open Lexeme (significant tokenize onwards)
open SyntaxKind Grammar Outline

namespace Element

/-! ## Parts -/

theorem mem_of_mem_expressions {c e : Element} (h : c ∈ e.expressions) :
    c ∈ e.children ∧ c.isNode = true ∧ c.kind.isExpr = true := by
  obtain ⟨hc, hk⟩ := List.mem_filter.mp h
  obtain ⟨hc, hn⟩ := List.mem_filter.mp hc
  exact ⟨hc, hn, hk⟩

theorem stop_le_of_lhs? {c e w : Element} {op : BinaryOperator}
    (hw : e.operatorWord? = some (w, op)) (h : e.lhs? = some c) :
    c ∈ e.expressions ∧ c.stop ≤ w.start := by
  simp only [lhs?, hw] at h
  simpa using List.mem_of_getLast? h

theorem lt_stop_of_rhs? {c e w : Element} {op : BinaryOperator}
    (hw : e.operatorWord? = some (w, op)) (h : e.rhs? = some c) :
    c ∈ e.expressions ∧ w.start < c.stop := by
  simp only [rhs?, hw] at h
  exact ⟨List.mem_of_find?_eq_some h, by simpa using List.find?_some h⟩

theorem mem_expressions_of_inner? {c e : Element} (h : e.inner? = some c) :
    c ∈ e.expressions :=
  List.mem_filter.mpr ⟨List.mem_of_find?_eq_some h, kind_of_firstNode? h⟩

section Parts

variable {e left w c : Element} {front back : List Element} {op : BinaryOperator}

/-- The operator is the first word of an operation that is one. -/
theorem operatorWord?_eq (h : e.children = left :: (front ++ w :: back)) (hleft : left.isNode = true)
    (hfront : ∀ f ∈ front, f.isTrivia = true) (hw : w.isNode = false)
    (hop : BinaryOperator.ofKind? w.kind = some op) : e.operatorWord? = some (w, op) := by
  have hnone : (front.filter fun c => !c.isNode).findSome? (fun c =>
      (BinaryOperator.ofKind? c.kind).map (c, ·)) = none := by
    refine List.findSome?_eq_none_iff.mpr fun f hf => ?_
    rw [ofKind?_of_isTrivia (hfront f (List.mem_filter.mp hf).1), Option.map_none]
  rw [operatorWord?, childWords, h, List.filter_cons_of_neg (by simp [hleft]), List.filter_append,
    List.findSome?_append, hnone, List.filter_cons_of_pos (by simp [hw]), List.findSome?_cons, hop]
  rfl

/-- A child node of an operation is the one on the left, or it stands behind the operator. -/
theorem eq_left_or_mem (h : e.children = left :: (front ++ w :: back))
    (hfront : ∀ f ∈ front, f.isTrivia = true) (hw : w.isNode = false) (hc : c ∈ e.children)
    (hn : c.isNode = true) : c = left ∨ c ∈ back := by
  rw [h, List.mem_cons, List.mem_append, List.mem_cons] at hc
  rcases hc with rfl | hc | rfl | hc
  · exact .inl rfl
  · exact absurd hn (by simp [isNode_of_isTrivia (hfront c hc)])
  · exact absurd hn (by simp [hw])
  · exact .inr hc

theorem eq_left_of_lhs? (h : e.children = left :: (front ++ w :: back))
    (hfront : ∀ f ∈ front, f.isTrivia = true) (hw : w.isNode = false)
    (hop : e.operatorWord? = some (w, op)) (hback : ∀ f ∈ back, w.start < f.stop)
    (hc : e.lhs? = some c) : c = left := by
  obtain ⟨hmem, hstop⟩ := stop_le_of_lhs? hop hc
  obtain ⟨hmem, hn, -⟩ := mem_of_mem_expressions hmem
  refine (eq_left_or_mem h hfront hw hmem hn).resolve_right fun hb => ?_
  exact absurd (hback c hb) (Nat.not_lt.mpr hstop)

theorem mem_back_of_rhs? (h : e.children = left :: (front ++ w :: back))
    (hfront : ∀ f ∈ front, f.isTrivia = true) (hw : w.isNode = false)
    (hop : e.operatorWord? = some (w, op)) (hleft : left.stop ≤ w.start)
    (hc : e.rhs? = some c) : c ∈ back := by
  obtain ⟨hmem, hstop⟩ := lt_stop_of_rhs? hop hc
  obtain ⟨hmem, hn, -⟩ := mem_of_mem_expressions hmem
  refine (eq_left_or_mem h hfront hw hmem hn).resolve_left ?_
  rintro rfl
  exact absurd hstop (Nat.not_lt.mpr hleft)

end Parts

section Stands

variable {all ws : List Lexeme} {os : List Outline} {kind : SyntaxKind} {e c : Element}

/-- An expression inside a node stands for one of the outlines of the node. -/
theorem Stands.of_mem_expressions (h : e.Stands Made all kind os ws) (hc : c ∈ e.expressions) :
    ∃ before k ps after, os = before ++ .node k ps :: after ∧ k.isExpr = true ∧
      c.Stands Made all k ps (wordsAll after ++ ws) := by
  obtain ⟨hmem, hn, hk⟩ := mem_of_mem_expressions hc
  obtain ⟨-, every, row, -⟩ := h
  obtain ⟨before, k, ps, after, rfl, hstands⟩ := row.stands_of_mem every hmem hn
  exact ⟨before, k, ps, after, rfl, hstands.kind_eq ▸ hk, hstands⟩

/-- **The parts of an operation** are those it was read from. -/
theorem Stands.operation (hpos : ∀ l ∈ all, 0 < l.length) (h : e.Stands Made all binExpr os ws) :
    ∃ left l op x ls, os = left :: .word l :: x.items ∧ BinaryOperator.ofKind? l.kind = some op ∧
      Reads (.expression op.rightPower) ls x ws ∧ e.operator? = some op ∧
      (∀ c, e.lhs? = some c →
        ∃ kind ps, c.Stands Made all kind ps (l :: (wordsAll x.items ++ ws))) ∧
      ∀ c, e.rhs? = some c →
        ∃ kind ps, x = .found (.node kind ps) ∧ c.Stands Made all kind ps ws := by
  obtain ⟨holds, every, row, tight⟩ := h
  rcases holds with _ | _ | _ | _ | _ | ⟨hleft, hop, inner⟩
  obtain ⟨k, ps, rfl, -⟩ := exists_node_of_isExpression hleft
  obtain ⟨front, start, mid, cs, back, rfl, hfront, inside, inside_tight, behind⟩ := row.exists_node
  obtain ⟨⟨holds', every'⟩, everyAll⟩ := by simpa using every
  rcases front with _ | ⟨f, front⟩
  swap
  · exact absurd (hfront f List.mem_cons_self) (by simp [tight f rfl])
  have hstart := behind.start_le.2
  obtain ⟨front, place, back, rfl, hfront, hl, -, rest⟩ := behind.exists_word
  have hplace : mid ≤ place := (hstart _ (List.mem_append_right _ List.mem_cons_self)).1
  have hback : ∀ f ∈ back, place < f.stop := by
    intro f hf
    have := rest.start_le.2 f hf
    have := hpos _ hl
    omega
  have htrivia : ∀ f ∈ front, f.isTrivia = true := fun f hf => (hfront f hf).1
  generalize he : Element.node binExpr _ _ _ = e
  have hchildren := congrArg children he.symm
  have hword := operatorWord?_eq hchildren rfl htrivia rfl hop
  refine ⟨_, _, _, _, _, rfl, hop, inner, by rw [operator?, hword, Option.map_some], fun c hc => ?_,
    fun c hc => ?_⟩
  · obtain rfl := eq_left_of_lhs? hchildren htrivia rfl hword hback hc
    exact ⟨k, ps, .intro holds' every' (by simpa using inside) inside_tight⟩
  · have hmem := mem_back_of_rhs? hchildren htrivia rfl hword hplace hc
    obtain ⟨-, hn, hk⟩ := mem_of_mem_expressions (lt_stop_of_rhs? hword hc).1
    obtain ⟨before, k, ps, after, hsplit, hstands⟩ := rest.stands_of_mem everyAll hmem hn
    obtain ⟨hx, rfl⟩ := inner.eq_found_of_split hsplit (hstands.kind_eq ▸ hk)
    exact ⟨k, ps, hx, by simpa using hstands⟩

/-- What is negated is not an operation. -/
theorem Stands.kind_ne_of_negation (h : e.Stands Made all prefixExpr os ws)
    (hc : c ∈ e.expressions) : c.kind ≠ binExpr := by
  obtain ⟨before, k, ps, after, rfl, hk, hstands⟩ := h.of_mem_expressions hc
  rw [hstands.kind_eq]
  rintro rfl
  generalize hos : before ++ _ :: after = os at h
  rcases h.holds with _ | _ | _ | ⟨-, inner⟩
  rcases before with _ | ⟨b, before⟩
  · exact absurd hos (by simp)
  obtain ⟨-, hsplit⟩ := List.cons.inj hos
  obtain ⟨rfl, -⟩ := inner.eq_found_of_split hsplit.symm hk
  obtain ⟨l, op, -, -, -, -, binds⟩ := inner.exists_operator
  exact absurd op.leftPower_lt_negate (Nat.not_lt.mpr binds)

/-- An operation to the right of an operator is a product below a sum. -/
theorem Stands.isProduct_of_rhs? (hpos : ∀ l ∈ all, 0 < l.length)
    (h : e.Stands Made all binExpr os ws) (hc : e.rhs? = some c) (hk : c.kind = binExpr)
    {op : BinaryOperator} (hop : e.operator? = some op) :
    op.isProduct = false ∧ ∀ op', c.operator? = some op' → op'.isProduct = true := by
  obtain ⟨left, l, op, x, ls, rfl, -, inner, heq, -, hright⟩ := h.operation hpos
  obtain rfl := Option.some.inj (hop.symm.trans heq)
  obtain ⟨k, ps, rfl, hstands⟩ := hright c hc
  obtain rfl := hstands.kind_eq.symm.trans hk
  obtain ⟨m, op', left, qs, rfl, hm, binds⟩ := inner.exists_operator
  obtain ⟨_, _, _, _, _, hqs, hm', -, heq', -⟩ := hstands.operation hpos
  obtain rfl := Outline.word.inj (List.cons.inj (List.cons.inj hqs).2).1
  obtain rfl := Option.some.inj (hm.symm.trans hm')
  obtain ⟨hsum, hproduct⟩ := BinaryOperator.isProduct_of_le_leftPower binds
  refine ⟨hsum, fun op' hop' => ?_⟩
  obtain rfl := Option.some.inj (hop'.symm.trans heq')
  exact hproduct

/-- A sum to the left of a product is one whose right operand is missed. -/
theorem Stands.rhs?_eq_none_of_lhs? (hpos : ∀ l ∈ all, 0 < l.length)
    (h : e.Stands Made all binExpr os ws) (hc : e.lhs? = some c) (hk : c.kind = binExpr)
    {op op' : BinaryOperator} (hop : e.operator? = some op) (hop' : c.operator? = some op')
    (hproduct : op.isProduct = true) (hsum : op'.isProduct = false) : c.rhs? = none := by
  obtain ⟨left, l, op, x, ls, rfl, hl, -, heq, hleft, -⟩ := h.operation hpos
  obtain rfl := Option.some.inj (hop.symm.trans heq)
  obtain ⟨k, ps, hstands⟩ := hleft c hc
  obtain rfl := hstands.kind_eq.symm.trans hk
  obtain ⟨_, _, op', y, _, -, -, inner, heq', -, hright⟩ := hstands.operation hpos
  obtain rfl := Option.some.inj (hop'.symm.trans heq')
  refine Option.eq_none_iff_forall_ne_some.mpr fun d hd => ?_
  obtain ⟨k, ps, rfl, -⟩ := hright d hd
  -- the operand on the right of the sum ends in front of the operator of the product
  have hlt := inner.leftPower_lt_of_found rfl hl
  exact absurd (BinaryOperator.isProduct_of_leftPower_lt hlt hproduct) (by simp [hsum])

/-- Behind a node stand the words that follow it. -/
theorem Stands.significant_onwards (hpos : ∀ l ∈ all, 0 < l.length) (h : e.Stands Made all kind os ws) :
    significant (onwards e.stop all) = ws := by
  obtain ⟨-, -, row, -⟩ := h
  obtain ⟨ls, hstands, rfl⟩ := row.stands
  rw [← hstands.onwards_eq hpos]
  rfl

end Stands

end Element

namespace Parse

/-! ## Trees -/

/-- **Operators bind as they should** in the tree of a text that consists of some lexemes. -/
structure Binds (r : Element) (ls : List Lexeme) : Prop where
  /-- What is negated is not an operation. -/
  negated : ∀ e ∈ r.nodes, e.kind = prefixExpr → ∀ c, e.inner? = some c → c.kind ≠ binExpr
  /-- Every operation has an operator. -/
  operated : ∀ e ∈ r.nodes, e.kind = binExpr → ∃ op, e.operator? = some op
  /-- To the right of the operator of a product there is no operation. -/
  right_product : ∀ e ∈ r.nodes, e.kind = binExpr → ∀ op, e.operator? = some op →
    op.isProduct = true → ∀ c, e.rhs? = some c → c.kind ≠ binExpr
  /-- To the right of the operator of a sum there is no sum. -/
  right_sum : ∀ e ∈ r.nodes, e.kind = binExpr → ∀ op, e.operator? = some op →
    op.isProduct = false → ∀ c, e.rhs? = some c → c.kind = binExpr →
    ∀ op', c.operator? = some op' → op'.isProduct = true
  /-- To the left of the operator of a product there is no sum that has a right operand. -/
  left_product : ∀ e ∈ r.nodes, e.kind = binExpr → ∀ op, e.operator? = some op →
    op.isProduct = true → ∀ c, e.lhs? = some c → c.kind = binExpr →
    ∀ op', c.operator? = some op' → op'.isProduct = false → c.rhs? = none
  /-- No operator follows a statement, what is in parentheses, or the value of a definition. -/
  maximal : ∀ e ∈ r.nodes, e.kind = sourceFile ∨ e.kind = parenExpr ∨ e.kind = variableDef →
    ∀ c ∈ e.expressions, ∀ l ∈ (significant (onwards c.stop ls)).head?,
      BinaryOperator.ofKind? l.kind = none

variable {os : List Outline} {ls ws : List Lexeme} {r : Element}

theorem IsRoot.stands (h : IsRoot os ls r) (hreads : ReadsFile (significant ls) os) {e : Element}
    (he : e ∈ r.nodes) (hk : e.kind ≠ sourceFile) : ∃ ps vs, e.Stands Made ls e.kind ps vs := by
  rcases h.eq_or_stands hreads.every he with rfl | ⟨kind, ps, vs, hstands⟩
  · exact absurd h.kind_eq hk
  · obtain rfl := hstands.kind_eq
    exact ⟨ps, vs, hstands⟩

/-- No operator follows an expression that was read as maximal. -/
theorem no_operator_onwards (hpos : ∀ l ∈ ls, 0 < l.length) {before after : List Outline}
    {kind : SyntaxKind} {ps : List Outline} {c : Element}
    (hmax : Maximal (before ++ .node kind ps :: after) ws) (hk : kind.isExpr = true)
    (hc : c.Stands Made ls kind ps (wordsAll after ++ ws)) :
    ∀ l ∈ (significant (onwards c.stop ls)).head?, BinaryOperator.ofKind? l.kind = none := by
  rw [hc.significant_onwards hpos]
  exact hmax.no_operator hk

theorem IsRoot.maximal (h : IsRoot os ls r) (hreads : ReadsFile (significant ls) os)
    (hpos : ∀ l ∈ ls, 0 < l.length) {e c : Element} (he : e ∈ r.nodes)
    (hk : e.kind = sourceFile ∨ e.kind = parenExpr ∨ e.kind = variableDef) (hc : c ∈ e.expressions) :
    ∀ l ∈ (significant (onwards c.stop ls)).head?, BinaryOperator.ofKind? l.kind = none := by
  rcases h.eq_or_stands hreads.every he with rfl | ⟨kind, ps, vs, hstands⟩
  · obtain ⟨hmem, hn, hk⟩ := Element.mem_of_mem_expressions hc
    obtain ⟨before, k, ps, after, rfl, hstands⟩ := h.stands_of_mem hreads.every hmem hn
    refine no_operator_onwards hpos hreads.maximal (hstands.kind_eq ▸ hk) ?_
    rwa [List.append_nil]
  · obtain ⟨before, k, qs, after, rfl, hexpr, hstands'⟩ := hstands.of_mem_expressions hc
    rw [hstands.kind_eq] at hk
    refine no_operator_onwards hpos (hstands.holds.maximal (hk.resolve_left ?_)) hexpr hstands'
    rintro rfl
    rcases hstands.holds with _ | _

theorem IsRoot.binds (h : IsRoot os ls r) (hreads : ReadsFile (significant ls) os)
    (hpos : ∀ l ∈ ls, 0 < l.length) : Binds r ls := by
  have operation : ∀ e ∈ r.nodes, e.kind = binExpr → ∃ ps vs, e.Stands Made ls binExpr ps vs := by
    intro e he hk
    rw [← hk]
    exact h.stands hreads he (by simp [hk])
  refine ⟨?_, ?_, ?_, ?_, ?_, fun e he hk c hc => h.maximal hreads hpos he hk hc⟩
  · intro e he hk c hc
    obtain ⟨ps, vs, hstands⟩ := h.stands hreads he (by simp [hk])
    exact (hk ▸ hstands).kind_ne_of_negation (Element.mem_expressions_of_inner? hc)
  · intro e he hk
    obtain ⟨ps, vs, hstands⟩ := operation e he hk
    obtain ⟨-, -, op, -, -, -, -, -, hop, -⟩ := hstands.operation hpos
    exact ⟨op, hop⟩
  · intro e he hk op hop hproduct c hc hk'
    obtain ⟨ps, vs, hstands⟩ := operation e he hk
    obtain ⟨hsum, -⟩ := hstands.isProduct_of_rhs? hpos hc hk' hop
    exact absurd hproduct (by simp [hsum])
  · intro e he hk op hop _ c hc hk' op' hop'
    obtain ⟨ps, vs, hstands⟩ := operation e he hk
    exact (hstands.isProduct_of_rhs? hpos hc hk' hop).2 op' hop'
  · intro e he hk op hop hproduct c hc hk' op' hop' hsum
    obtain ⟨ps, vs, hstands⟩ := operation e he hk
    exact hstands.rhs?_eq_none_of_lhs? hpos hc hk' hop hop' hproduct hsum

/-- **Operators bind as they should in the tree of every text**, whether or not it has errors. -/
theorem precedence (text : String) : ∃ p, ofText text = .ok p ∧ Binds p.root (tokenize text) := by
  obtain ⟨os, hreads, htext⟩ := ofText_eq text
  have root := isRoot_ofOutlines hreads.wordsAll_eq.symm
  exact ⟨_, htext, root.binds hreads fun _ => Lexeme.length_pos_of_mem_tokenize⟩

end Parse

end LosslessSyntax
