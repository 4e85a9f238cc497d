import LosslessSyntax.Proofs.Tree.Bare
import LosslessSyntax.Proofs.Tree.Shape
import LosslessSyntax.View

/-!
# Proofs/Tree/Parts — where the parts of a node are found

The parts of a node are looked up by kind, and those of a binary operation by their places relative to
its operator.  In a node that has its shape, and whose children stand one behind the other, looking them
up gives the first and the second of the expressions inside it and the words between them.
-/

namespace LosslessSyntax

open SyntaxKind

namespace Element

/-! ## Children in order -/

/-- **The children of a node stand one behind the other**, and its words are not empty. -/
structure IsOrdered (e : Element) : Prop where
  pairwise : e.children.Pairwise fun c d => c.stop ≤ d.start
  start_le : ∀ c ∈ e.children, c.start ≤ c.stop
  start_lt : ∀ c ∈ e.children, c.isNode = false → c.start < c.stop

/-- Whether an element is a node that is an expression. -/
def isExpression (e : Element) : Bool := e.isNode && e.kind.isExpr

/-- A file is no expression. -/
theorem kind_ne_sourceFile {e : Element} (h : e.isExpression = true) : e.kind ≠ sourceFile := by
  intro hk
  exact absurd h (by simp [isExpression, hk, isExpr])

theorem ofKind?_of_isTrivia {e : Element} (h : e.isTrivia = true) :
    BinaryOperator.ofKind? e.kind = none := by
  cases e with
  | word k s t =>
    change k.isTrivia = true at h
    cases k <;> first | rfl | exact absurd h (by decide)
  | node => exact absurd h (by simp)

/-- The statements of a file are among its children. -/
theorem mem_statements {d r : Element} :
    d ∈ r.statements ↔ d ∈ r.children ∧ d.isNode = true ∧ d.kind.isStmt = true := by
  simp [statements, childNodes, and_comm]

/-! ## Parts among the children that are not trivia -/

/-- The expressions inside a node are among its parts. -/
theorem expressions_eq (e : Element) : e.expressions = e.solid.filter isExpression := by
  rw [expressions, childNodes, solid, List.filter_filter, List.filter_filter]
  refine List.filter_congr fun c _ => ?_
  cases c <;> simp [isExpression]

theorem inner?_eq (e : Element) : e.inner? = e.expressions[0]? := by
  rw [inner?, firstNode?, expressions, ← List.head?_filter, List.head?_eq_getElem?]

/-- The word of a literal is the first of its own words. -/
theorem literalWord?_eq (e : Element) : e.literalWord? = (e.solid.filter fun c => !c.isNode)[0]? := by
  rw [literalWord?, firstWord?, childWords, ← List.head?_filter, solid, List.filter_filter,
    List.filter_filter, List.head?_eq_getElem?]
  refine congrArg (·[0]?) (List.filter_congr fun c _ => ?_)
  cases c <;> simp [isTrivia, kind]

/-- The operator is among the words that are not trivia. -/
theorem operatorWord?_eq_findSome? (e : Element) : e.operatorWord? =
    (e.solid.filter fun c => !c.isNode).findSome? fun c =>
      (BinaryOperator.ofKind? c.kind).map (c, ·) := by
  rw [operatorWord?, childWords, solid, List.filter_filter]
  induction e.children with
  | nil => rfl
  | cons c cs ih =>
    cases hn : c.isNode with
    | true => simpa [hn] using ih
    | false =>
      cases ht : c.isTrivia with
      | true => simpa [hn, ht, ofKind?_of_isTrivia ht] using ih
      | false => simp [hn, ht, List.findSome?_cons, ih]

/-! ## The parts of shaped nodes -/

theorem eq_node_of_part {e : Element} {k : SyntaxKind} (h : e.part = .node k) :
    e.isNode = true ∧ e.kind = k := by
  cases e with
  | word => exact absurd h (by simp [part])
  | node => exact ⟨rfl, Part.node.inj h⟩

theorem eq_word_of_part {e : Element} {k : SyntaxKind} (h : e.part = .word k) :
    e.isNode = false ∧ e.kind = k := by
  cases e with
  | word => exact ⟨rfl, Part.word.inj h⟩
  | node => exact absurd h (by simp [part])

theorem exists_kind_of_mem_operandParts {p : Part} (h : p ∈ operandParts) : ∃ k, p = .node k := by
  cases p with
  | word k => exact absurd h (by simp [operandParts, expressionParts])
  | node k => exact ⟨k, rfl⟩

/-- What fills the place of an operand is one node or none. -/
theorem isNode_of_fits_operand {cs : List Element}
    (h : Fits [.optional operandParts] (cs.map part)) : cs.length ≤ 1 ∧ ∀ c ∈ cs, c.isNode = true := by
  generalize hqs : cs.map part = qs at h
  cases h with
  | absent more =>
    cases more
    obtain rfl := List.map_eq_nil_iff.mp hqs
    exact ⟨Nat.zero_le _, List.forall_mem_nil _⟩
  | present hp more =>
    cases more
    obtain ⟨c, rfl, hc⟩ := List.map_eq_singleton_iff.mp hqs
    obtain ⟨k, hk⟩ := exists_kind_of_mem_operandParts hp
    refine ⟨Nat.le_refl _, fun d hd => ?_⟩
    obtain rfl := List.mem_singleton.mp hd
    exact (eq_node_of_part (hc.trans hk)).1

variable {e : Element}

/-- Every node but a file has a word of its own. -/
theorem IsShaped.exists_word (h : e.IsShaped) (hk : e.kind ≠ sourceFile) :
    ∃ w ∈ e.children, w.isNode = false := by
  obtain ⟨ss, hss, hfits⟩ := h.fits
  obtain ⟨qs, hqs, hwords⟩ := exists_word_of_schema? hss hk
  obtain ⟨q, hq, hmem⟩ := hfits.exists_of_one hqs
  obtain ⟨w, hw, rfl⟩ := List.mem_map.mp hq
  have hword := List.all_eq_true.mp hwords _ hmem
  refine ⟨w, (List.mem_filter.mp hw).1, ?_⟩
  rcases w with _ | _
  · rfl
  · exact absurd hword (by simp [part, Part.isWord])

/-- **A word of its own makes a node longer** than the nodes inside it. -/
theorem IsOrdered.range_ne {m : Element} (h : e.IsOrdered) (hnested : e.IsNested) {w : Element}
    (hw : w ∈ e.children) (hword : w.isNode = false) (hm : m ∈ nodesAll e.children) :
    m.range ≠ e.range := by
  intro heq
  obtain ⟨c, hc, hm⟩ := mem_nodesAll_iff.mp hm
  have hne : w ≠ c := by
    rintro rfl
    exact absurd hm (by simp [nodes_eq_nil hword])
  have hself := self_mem_nodes (isNode_of_mem_children hc)
  have hlt := h.start_lt w hw hword
  have hle := h.start_le c hc
  have hcovers := contains_range_iff.mp (hnested e hself w hw)
  have hinside := (hnested.of_mem_children hc).contains hm
  rw [heq, contains_range_iff] at hinside
  rcases isApart_of_pairwise h.pairwise hw hc hne with hapart | hapart <;> omega

/-- A name, the use of a name or a literal is made of one word. -/
theorem IsShaped.solid_of_leaf (h : e.IsShaped) {k : SyntaxKind}
    (hk : schema? e.kind = some [.one [.word k]]) :
    ∃ start text, e.solid = [.word k start text] := by
  obtain ⟨ss, hss, hfits⟩ := h.fits
  obtain rfl := Option.some.inj (hss.symm.trans hk)
  generalize hqs : e.parts = qs at hfits
  cases hfits with
  | one hp more =>
    cases more
    obtain rfl := List.mem_singleton.mp hp
    obtain ⟨c, hc, hpart⟩ := List.map_eq_singleton_iff.mp hqs
    cases c with
    | word kind start text =>
      obtain rfl := Part.word.inj hpart
      exact ⟨start, text, hc⟩
    | node => exact absurd hpart (by simp [part])

/-- What is not trivia in an element is what is not trivia in its parts. -/
theorem significant_lexemesAll (es : List Element) : Lexeme.significant (lexemesAll es) =
    Lexeme.significant (lexemesAll (es.filter fun c => !c.isTrivia)) := by
  induction es with
  | nil => rfl
  | cons c es ih =>
    rw [lexemesAll_cons, Lexeme.significant_append, ih]
    cases hc : c.isTrivia with
    | false =>
      rw [List.filter_cons_of_pos (by simp [hc]), lexemesAll_cons, Lexeme.significant_append]
    | true =>
      rw [List.filter_cons_of_neg (by simp [hc])]
      cases c with
      | word k start text =>
        have hk : k.isTrivia = true := hc
        simp [Lexeme.significant, Lexeme.isTrivia, hk]
      | node => exact absurd hc (by simp)

/-- A name, the use of a name or a literal covers nothing but its word. -/
theorem IsShaped.lexemes_of_leaf (h : e.IsShaped) {k : SyntaxKind} {start : Nat} {text : String}
    (hsolid : e.solid = [.word k start text]) (hk : k.isTrivia = false) : e.lexemes = [⟨k, text⟩] := by
  have hword : Lexeme.significant e.lexemes = [⟨k, text⟩] := by
    cases e with
    | word => exact absurd hsolid (by simp [solid, children])
    | node =>
      rw [lexemes_node, significant_lexemesAll]
      rw [solid, children] at hsolid
      simp [hsolid, Lexeme.significant, Lexeme.isTrivia, hk]
  exact h.trimmed.eq_singleton hword

/-- A literal consists of a number, whose value it has. -/
theorem IsShaped.exists_number (h : e.IsShaped) (hk : e.kind = literal) : ∃ start text,
    e.solid = [.word intNumber start text] ∧ e.lexemes = [⟨intNumber, text⟩] ∧
      e.intValue? = Text.Integer.parse? text.toList := by
  obtain ⟨start, text, hsolid⟩ := h.solid_of_leaf (k := intNumber) (by rw [hk]; rfl)
  refine ⟨start, text, hsolid, h.lexemes_of_leaf hsolid rfl, ?_⟩
  rw [intValue?, literalWord?_eq, hsolid]
  rfl

/-- A negation begins with its sign. -/
theorem IsShaped.solid_of_prefixExpr (h : e.IsShaped) (hk : e.kind = prefixExpr) :
    ∃ w cs, e.solid = w :: cs ∧ w.part = .word minus := by
  obtain ⟨ss, hss, hfits⟩ := h.fits
  rw [hk] at hss
  obtain rfl := Option.some.inj hss
  generalize hqs : e.parts = qs at hfits
  cases hfits with
  | one hp more =>
    obtain rfl := List.mem_singleton.mp hp
    obtain ⟨w, cs, hsolid, hw, -⟩ := List.map_eq_cons_iff.mp hqs
    exact ⟨w, cs, hsolid, hw⟩

/-- **A binary operation** is an expression, an operator and perhaps one more node. -/
theorem IsShaped.solid_of_binExpr (h : e.IsShaped) (hk : e.kind = binExpr) :
    ∃ l w cs, e.solid = l :: w :: cs ∧ l.isExpression = true ∧ w.isNode = false ∧
      (BinaryOperator.ofKind? w.kind).isSome = true ∧ cs.length ≤ 1 ∧ ∀ c ∈ cs, c.isNode = true := by
  obtain ⟨ss, hss, hfits⟩ := h.fits
  rw [hk] at hss
  obtain rfl := Option.some.inj hss
  generalize hqs : e.parts = qs at hfits
  cases hfits with
  | one hleft more =>
    cases more with
    | one hop more =>
      obtain ⟨l, ds, hsolid, rfl, hds⟩ := List.map_eq_cons_iff.mp hqs
      obtain ⟨w, cs, rfl, rfl, rfl⟩ := List.map_eq_cons_iff.mp hds
      obtain ⟨hlength, hnodes⟩ := isNode_of_fits_operand more
      refine ⟨l, w, cs, hsolid, ?_, ?_, ?_, hlength, hnodes⟩
      · cases l with
        | word => exact absurd hleft (by simp [part, expressionParts])
        | node k start stop es => exact mem_expressionParts.mp hleft
      · cases w with
        | word => rfl
        | node => exact absurd hop (by simp [part])
      · cases w with
        | word k start text =>
          obtain rfl | rfl | rfl | rfl : k = plus ∨ k = minus ∨ k = star ∨ k = slash := by
            simpa [part] using hop
          all_goals rfl
        | node => exact absurd hop (by simp [part])

/-- The sign of a negation is its first child. -/
theorem IsShaped.sign?_eq (h : e.IsShaped) (hk : e.kind = prefixExpr) : e.sign? = some .negate := by
  obtain ⟨w, cs, hsolid, hw⟩ := h.solid_of_prefixExpr hk
  obtain ⟨hword, hkind⟩ := eq_word_of_part hw
  obtain ⟨⟨l, hl, ht⟩, -⟩ := h.trimmed
  cases e with
  | word => exact absurd hsolid (by simp [solid, children])
  | node kind start stop es =>
    cases es with
    | nil => exact absurd hsolid (by simp [solid, children])
    | cons c es =>
      have hc : c.isTrivia = false := by
        cases c with
        | word =>
          obtain rfl : _ = l := by simpa using hl
          exact ht
        | node => rfl
      rw [solid, children, List.filter_cons_of_pos (by simp [hc])] at hsolid
      obtain ⟨rfl, -⟩ := List.cons.inj hsolid
      simp [sign?, signWord?, children, hword, hkind, UnaryOperator.ofKind?]

theorem operatorWord?_of_solid {l w : Element} {cs : List Element} {op : BinaryOperator}
    (hsolid : e.solid = l :: w :: cs) (hl : l.isNode = true) (hw : w.isNode = false)
    (hop : BinaryOperator.ofKind? w.kind = some op) :
    e.operatorWord? = some (w, op) := by
  rw [operatorWord?_eq_findSome?, hsolid, List.filter_cons_of_neg (by simp [hl]),
    List.filter_cons_of_pos (by simp [hw]), List.findSome?_cons, hop]
  rfl

theorem expressions_of_solid {l w : Element} {cs : List Element} (hsolid : e.solid = l :: w :: cs)
    (hl : l.isExpression = true) (hw : w.isNode = false) :
    e.expressions = l :: cs.filter isExpression := by
  rw [expressions_eq, hsolid, List.filter_cons_of_pos hl,
    List.filter_cons_of_neg (by simp [isExpression, hw])]

/-- **The operands of a binary operation** are the first two expressions inside it. -/
theorem IsOrdered.operands_of_binExpr (h : e.IsOrdered) (shaped : e.IsShaped)
    (hk : e.kind = binExpr) : e.lhs? = e.expressions[0]? ∧ e.rhs? = e.expressions[1]? := by
  obtain ⟨l, w, cs, hsolid, hl, hw, hop, -, -⟩ := shaped.solid_of_binExpr hk
  obtain ⟨op, hop⟩ := Option.isSome_iff_exists.mp hop
  have hsub : (l :: w :: cs).Sublist e.children := hsolid ▸ List.filter_sublist
  have hpair := h.pairwise.sublist hsub
  have hmem : ∀ c ∈ l :: w :: cs, c ∈ e.children := fun c hc => hsub.subset hc
  simp only [List.pairwise_cons, List.mem_cons] at hpair hmem
  obtain ⟨hleft, hright, -⟩ := hpair
  have hstop : l.stop ≤ w.start := hleft w (.inl rfl)
  have hlt : w.start < w.stop := h.start_lt w (hmem w (.inr (.inl rfl))) hw
  have hbehind : ∀ c ∈ cs.filter isExpression, ¬c.stop ≤ w.start := by
    intro c hc
    have hc := (List.mem_filter.mp hc).1
    have := hright c hc
    have := h.start_le c (hmem c (.inr (.inr hc)))
    omega
  have hexprs := expressions_of_solid hsolid hl hw
  have hnode : l.isNode = true := (Bool.and_eq_true_iff.mp hl).1
  have hword := operatorWord?_of_solid hsolid hnode hw hop
  constructor
  · have hnone : (cs.filter isExpression).filter (fun c => decide (c.stop ≤ w.start)) = [] :=
      List.filter_eq_nil_iff.mpr fun c hc => by simpa using hbehind c hc
    simp only [lhs?, hword, hexprs]
    rw [List.filter_cons_of_pos (by simpa using hstop), hnone]
    rfl
  · simp only [rhs?, hword, hexprs]
    rw [List.find?_cons_of_neg (by simpa using hstop)]
    cases hrest : cs.filter isExpression with
    | nil => rfl
    | cons r rs =>
      have := hbehind r (by simp [hrest])
      rw [List.find?_cons_of_pos (by simpa using this)]
      rfl

end Element

/-! ## Laid out -/

open Lexeme (extent extent_append)
open SyntaxTree (leavesAll placedAllAt)

namespace SyntaxTree

theorem start_placedAt (t : SyntaxTree) (start : Nat) : (t.placedAt start).start = start := by
  cases t with
  | leaf => rw [placedAt_leaf, Element.start]
  | node => rw [placedAt_node, Element.start]

theorem start_le_stop_placedAt (t : SyntaxTree) (start : Nat) :
    (t.placedAt start).start ≤ (t.placedAt start).stop := by
  rw [start_placedAt, stop_placedAt]
  exact Nat.le_add_right _ _

/-- What is laid out from a place does not begin before it. -/
theorem le_start_of_mem_placedAllAt {ts : List SyntaxTree} {start : Nat} {e : Element}
    (he : e ∈ placedAllAt start ts) : start ≤ e.start := by
  induction ts generalizing start with
  | nil => exact absurd he (by simp)
  | cons t ts ih =>
    rw [placedAllAt_cons] at he
    obtain rfl | he := List.mem_cons.mp he
    · rw [start_placedAt]
    · have := ih he
      rw [stop_placedAt] at this
      omega

/-- What is laid out from a place ends with its words or before. -/
theorem stop_le_of_mem_placedAllAt {ts : List SyntaxTree} {start : Nat} {e : Element}
    (he : e ∈ placedAllAt start ts) : e.stop ≤ start + extent (leavesAll ts) := by
  induction ts generalizing start with
  | nil => exact absurd he (by simp)
  | cons t ts ih =>
    rw [placedAllAt_cons] at he
    rw [leavesAll_cons, extent_append, ← Nat.add_assoc, ← stop_placedAt]
    rcases List.mem_cons.mp he with rfl | he
    · exact Nat.le_add_right _ _
    · exact ih he

/-- A node that is laid out covers its children. -/
theorem contains_placedAt {t : SyntaxTree} {start : Nat} {c : Element}
    (hc : c ∈ (t.placedAt start).children) : (t.placedAt start).range.contains c.range = true := by
  rcases t with l | ⟨kind, ts⟩
  · exact absurd hc (by simp [placedAt_leaf, Element.children])
  · have hstop := stop_placedAt (node kind ts) start
    rw [leaves_node] at hstop
    rw [Element.contains_range_iff, start_placedAt, hstop]
    rw [placedAt_node] at hc
    exact ⟨le_start_of_mem_placedAllAt hc, stop_le_of_mem_placedAllAt hc⟩

theorem exists_of_mem_placedAllAt {ts : List SyntaxTree} {start : Nat} {e : Element}
    (he : e ∈ placedAllAt start ts) : ∃ t ∈ ts, ∃ place, e = t.placedAt place := by
  induction ts generalizing start with
  | nil => exact absurd he (by simp)
  | cons t ts ih =>
    rw [placedAllAt_cons] at he
    obtain rfl | he := List.mem_cons.mp he
    · exact ⟨t, List.mem_cons_self, start, rfl⟩
    · obtain ⟨u, hu, place, rfl⟩ := ih he
      exact ⟨u, List.mem_cons_of_mem _ hu, place, rfl⟩

theorem pairwise_placedAllAt (ts : List SyntaxTree) (start : Nat) :
    (placedAllAt start ts).Pairwise fun c d => c.stop ≤ d.start := by
  induction ts generalizing start with
  | nil => simp
  | cons t ts ih =>
    rw [placedAllAt_cons]
    exact .cons (fun d hd => le_start_of_mem_placedAllAt hd) (ih _)

/-- **A node that is laid out has its children in order**, if no word in it is empty. -/
theorem isOrdered_placedAt {kind : SyntaxKind} {ts : List SyntaxTree} {start : Nat}
    (h : ∀ l ∈ leavesAll ts, 0 < l.length) : ((node kind ts).placedAt start).IsOrdered := by
  rw [placedAt_node]
  refine ⟨pairwise_placedAllAt ts start, fun c hc => ?_, fun c hc hn => ?_⟩
  · obtain ⟨t, -, place, rfl⟩ := exists_of_mem_placedAllAt hc
    exact start_le_stop_placedAt t place
  · obtain ⟨t, ht, place, rfl⟩ := exists_of_mem_placedAllAt hc
    cases t with
    | leaf l =>
      have := h l (by rw [leavesAll_eq_flatMap]; exact List.mem_flatMap.mpr ⟨_, ht, by simp⟩)
      rw [start_placedAt, stop_placedAt, leaves_leaf, Lexeme.extent_cons]
      omega
    | node => exact absurd hn (by simp [placedAt_node])

mutual

/-- Every node of a tree that is laid out is a node that is laid out, of words of the tree. -/
theorem exists_of_mem_nodes_placedAt : ∀ (t : SyntaxTree) {start : Nat} {e : Element},
    e ∈ (t.placedAt start).nodes → ∃ kind ts place, e = (node kind ts).placedAt place ∧
      ∀ l ∈ leavesAll ts, l ∈ t.leaves
  | leaf _, start, e, he => absurd he (by simp [placedAt_leaf])
  | node kind ts, start, e, he => by
      rw [placedAt_node, Element.nodes_node] at he
      obtain rfl | he := List.mem_cons.mp he
      · exact ⟨kind, ts, start, (placedAt_node ..).symm, fun l hl => by rwa [leaves_node]⟩
      · rw [leaves_node]
        exact exists_of_mem_nodesAll_placedAllAt ts he

theorem exists_of_mem_nodesAll_placedAllAt : ∀ (ts : List SyntaxTree) {start : Nat} {e : Element},
    e ∈ Element.nodesAll (placedAllAt start ts) → ∃ kind us place,
      e = (node kind us).placedAt place ∧ ∀ l ∈ leavesAll us, l ∈ leavesAll ts
  | [], start, e, he => absurd he (by simp)
  | t :: ts, start, e, he => by
      rw [placedAllAt_cons, Element.nodesAll_cons] at he
      rw [leavesAll_cons]
      obtain he | he := List.mem_append.mp he
      · obtain ⟨kind, us, place, rfl, hus⟩ := exists_of_mem_nodes_placedAt t he
        exact ⟨kind, us, place, rfl, fun l hl => List.mem_append_left _ (hus l hl)⟩
      · obtain ⟨kind, us, place, rfl, hus⟩ := exists_of_mem_nodesAll_placedAllAt ts he
        exact ⟨kind, us, place, rfl, fun l hl => List.mem_append_right _ (hus l hl)⟩

end

/-- **The nodes of a tree that is laid out cover their children.** -/
theorem isNested_placedAt (t : SyntaxTree) (start : Nat) : (t.placedAt start).IsNested := by
  intro n hn c hc
  obtain ⟨kind, ts, place, rfl, -⟩ := exists_of_mem_nodes_placedAt t hn
  exact contains_placedAt hc

/-- **Every node of a tree that is laid out has its children in order**, if no word is empty. -/
theorem isOrdered_of_mem_nodes {t : SyntaxTree} {start : Nat} {e : Element}
    (h : ∀ l ∈ t.leaves, 0 < l.length) (he : e ∈ (t.placedAt start).nodes) : e.IsOrdered := by
  obtain ⟨kind, ts, place, rfl, hts⟩ := exists_of_mem_nodes_placedAt t he
  exact isOrdered_placedAt fun l hl => h l (hts l hl)

end SyntaxTree

end LosslessSyntax
