import LosslessSyntax.Proofs.Body.Origin
import LosslessSyntax.Proofs.Tree.Defects

/-!
# Proofs/Body/Gaps — what is missing in a body

A tree has a gap where an expression is absent, and where the number of a literal is too large to have a
value.  Reading a statement off the tree enters something missing for every gap in it and for nothing
else (`Element.lacks_of_sentence?`), and every operation keeps its operator.  Only definitions without a
name are dropped (`Lowering.dropped_ofFile`), so the gaps of the statements that are kept are what is
missing in the body (`Body.count_missing_ofFile`).
-/

namespace LosslessSyntax

open Lowering (termOf? nth_map_term)
open SyntaxKind

/-! ## Terms with something missing -/

/-- A binary operation of an arena has its operator. -/
def Expr.HasOperator : Expr → Prop
  | binary op _ _ => op.isSome = true
  | _ => True

namespace Term

/-- How often something is missing in a term. -/
def missings : Term → Nat
  | missing => 1
  | int _ | var _ => 0
  | unary _ t => t.missings
  | binary _ t u => t.missings + u.missings

/-- Every operation in a term has its operator. -/
def IsOperated : Term → Prop
  | missing | int _ | var _ => True
  | unary _ t => t.IsOperated
  | binary op t u => op.isSome = true ∧ t.IsOperated ∧ u.IsOperated

/-- **A term lacks so many expressions**, and no operators. -/
structure Lacks (t : Term) (n : Nat) : Prop where
  missings_eq : t.missings = n
  operated : t.IsOperated

theorem lacks_missing : missing.Lacks 1 := ⟨rfl, trivial⟩

theorem lacks_int (n : Int) : (int n).Lacks 0 := ⟨rfl, trivial⟩

theorem lacks_var (name : Name) : (var name).Lacks 0 := ⟨rfl, trivial⟩

variable {t u : Term} {n m : Nat}

theorem Lacks.unary (h : t.Lacks n) (op : UnaryOperator) : (unary op t).Lacks n :=
  ⟨h.missings_eq, h.operated⟩

theorem Lacks.binary (h : t.Lacks n) (h' : u.Lacks m) (op : BinaryOperator) :
    (binary (some op) t u).Lacks (n + m) :=
  ⟨congrArg₂ (· + ·) h.missings_eq h'.missings_eq, rfl, h.operated, h'.operated⟩

/-- **Entering a term enters what is missing in it.** -/
theorem count_missing_enter (t : Term) (a : Array Expr) :
    (t.enter a).count .missing = a.count .missing + t.missings := by
  induction t generalizing a with
  | missing | int | var => simp [enter, missings]
  | unary op t ih => simp [enter, missings, ih]
  | binary op t u ih ih' => simp [enter, missings, ih, ih', Nat.add_assoc]

theorem hasOperator_of_mem_enter (t : Term) (h : t.IsOperated) {a : Array Expr}
    (ha : ∀ x ∈ a, x.HasOperator) : ∀ x ∈ t.enter a, x.HasOperator := by
  induction t generalizing a with
  | missing | int | var => simpa [enter, or_imp, forall_and, Expr.HasOperator] using ha
  | unary op t ih => simpa [enter, or_imp, forall_and, Expr.HasOperator] using ih h ha
  | binary op t u ih ih' =>
    obtain ⟨hop, ht, hu⟩ := h
    simpa [enter, or_imp, forall_and, Expr.HasOperator, hop] using ih' hu (ih ht ha)

end Term

namespace Body

/-- What is missing in the body of sentences is what is missing in them. -/
theorem count_missing_foldl (b : Body) (ss : List Sentence) :
    (ss.foldl Body.enter b).exprs.count .missing =
      b.exprs.count .missing + (ss.map (·.value.missings)).sum := by
  induction ss generalizing b with
  | nil => rfl
  | cons s ss ih =>
    rw [List.foldl_cons, ih, enter, Term.count_missing_enter, List.map_cons, List.sum_cons,
      Nat.add_assoc]

theorem hasOperator_of_mem_foldl {b : Body} {ss : List Sentence}
    (hb : ∀ x ∈ b.exprs, x.HasOperator) (h : ∀ s ∈ ss, s.value.IsOperated) :
    ∀ x ∈ (ss.foldl Body.enter b).exprs, x.HasOperator := by
  induction ss generalizing b with
  | nil => exact hb
  | cons s ss ih =>
    obtain ⟨hs, hss⟩ := List.forall_mem_cons.mp h
    exact ih (s.value.hasOperator_of_mem_enter hs hb) hss

end Body

/-! ## The expressions inside a node -/

namespace Element

variable {e c : Element}

theorem IsShaped.exists_slot (h : e.IsShaped) (hc : c ∈ e.children) (hn : c.isNode = true) :
    ∃ ss, schema? e.kind = some ss ∧ ∃ s ∈ ss, .node c.kind ∈ s.parts := by
  obtain ⟨ss, hss, hfits⟩ := h.fits
  exact ⟨ss, hss, hfits.mem_parts (part_node_mem.mpr ⟨c, List.mem_filter.mpr ⟨hc, hn⟩, rfl⟩)⟩

/-- A node in a statement that is no expression is a name, or was skipped. -/
theorem IsShaped.kind_of_not_isExpression (h : e.IsShaped) (hk : e.kind ≠ sourceFile)
    (hc : c ∈ e.children) (hn : c.isNode = true) (hexpr : c.isExpression = false) :
    c.kind = name ∨ c.kind = .error := by
  obtain ⟨ss, hss, s, hs, hmem⟩ := h.exists_slot hc hn
  have hinner := List.all_eq_true.mp (List.all_eq_true.mp (isInner_of_schema? hss hk) s hs) _ hmem
  rw [isExpression, hn, Bool.true_and] at hexpr
  simpa [Part.isInner, hexpr] using hinner

/-- There are no nodes in a name or in what was skipped. -/
theorem IsShaped.isNode_eq_false (h : e.IsShaped) (hk : e.kind = name ∨ e.kind = .error)
    (hc : c ∈ e.children) : c.isNode = false := by
  refine Bool.eq_false_iff.mpr fun hn => ?_
  obtain ⟨ss, hss, s, hs, hmem⟩ := h.exists_slot hc hn
  obtain hk | hk := hk <;> rw [hk] at hss <;> obtain rfl := Option.some.inj hss <;>
    obtain rfl := List.mem_singleton.mp hs <;> simp [Slot.parts] at hmem

/-- There is at most one expression in a definition, in a negation and in parentheses. -/
theorem IsShaped.length_expressions_le_one (h : e.IsShaped)
    (hk : e.kind = variableDef ∨ e.kind = prefixExpr ∨ e.kind = parenExpr) :
    e.expressions.length ≤ 1 := by
  rw [length_expressions]
  obtain ⟨ss, hss, hfits⟩ := h.fits
  obtain hk | hk | hk := hk <;> rw [hk] at hss <;> obtain rfl := Option.some.inj hss <;>
    exact hfits.countP_le (by simp)

/-- There are one or two expressions in a binary operation. -/
theorem IsShaped.expressions_of_binExpr (h : e.IsShaped) (hk : e.kind = binExpr) :
    ∃ l rs, e.expressions = l :: rs ∧ rs.length ≤ 1 := by
  obtain ⟨l, w, cs, hsolid, hl, hw, -, hlength, -⟩ := h.solid_of_binExpr hk
  exact ⟨l, cs.filter isExpression, expressions_of_solid hsolid hl hw,
    Nat.le_trans (List.length_filter_le ..) hlength⟩

/-! ## Gaps -/

/-- Whether a node is a literal whose number is too large to have a value. -/
def overflows (e : Element) : Bool :=
  e.kind == literal &&
    e.lexemes.any fun l => l.kind == intNumber && decide (2 ^ 63 - 1 < l.value)

/-- What is wrong with the number of a literal. -/
def oversized (e : Element) : List Complaint := if e.overflows then [.literalTooLarge] else []

/-- What is wrong where a node has a gap. -/
def gap (e : Element) : List Complaint :=
  (if e.lacksExpression then [.expectedExpression] else []) ++ e.oversized

/-- What is wrong with a definition that is dropped. -/
def nameless (e : Element) : List Complaint := if e.lacksName then [.expectedName] else []

/-- **How many gaps some nodes have**: the expressions that are absent and the numbers without a
value. -/
def gaps (es : List Element) : Nat := es.countP lacksExpression + es.countP overflows

@[simp] theorem gaps_nil : gaps [] = 0 := rfl

theorem gaps_append (es fs : List Element) : gaps (es ++ fs) = gaps es + gaps fs := by
  simp only [gaps, List.countP_append]
  omega

theorem gaps_cons (e : Element) (es : List Element) :
    gaps (e :: es) = e.lacksExpression.toNat + e.overflows.toNat + gaps es := by
  have hcount : ∀ sort : Element → Bool, (e :: es).countP sort = (sort e).toNat + es.countP sort := by
    intro sort
    rw [List.countP_cons, Nat.add_comm]
    cases sort e <;> rfl
  rw [gaps, gaps, hcount lacksExpression, hcount overflows]
  omega

/-- Nothing is inside a name or what was skipped but words. -/
theorem IsTidy.nodes_eq_singleton (h : e.IsTidy) (hn : e.isNode = true)
    (hk : e.kind = name ∨ e.kind = .error) : e.nodes = [e] := by
  rw [nodes_eq_cons hn, nodesAll_of_words fun c => (h.self hn).1.isNode_eq_false hk]

/-- A name, or what was skipped, has no gaps. -/
theorem IsTidy.gaps_nodes_eq_zero (h : e.IsTidy) (hn : e.isNode = true)
    (hk : e.kind = name ∨ e.kind = .error) : gaps e.nodes = 0 := by
  rw [h.nodes_eq_singleton hn hk, gaps_cons]
  obtain hk | hk := hk <;> simp [lacksExpression, overflows, hk]

theorem expressions_eq_filter (e : Element) : e.expressions = e.children.filter isExpression := by
  rw [expressions, childNodes, List.filter_filter]
  exact List.filter_congr fun c _ => Bool.and_comm ..

/-- The gaps below a node are in the expressions inside it. -/
theorem gaps_nodesAll {es : List Element}
    (h : ∀ c ∈ es, c.isNode = true → c.isExpression = false → gaps c.nodes = 0) :
    gaps (nodesAll es) = ((es.filter isExpression).map fun c => gaps c.nodes).sum := by
  induction es with
  | nil => simp
  | cons c es ih =>
    obtain ⟨hc, hes⟩ := List.forall_mem_cons.mp h
    rw [nodesAll_cons, gaps_append, ih hes]
    cases hexpr : c.isExpression with
    | true => rw [List.filter_cons_of_pos hexpr, List.map_cons, List.sum_cons]
    | false =>
      rw [List.filter_cons_of_neg (by simp [hexpr])]
      cases c with
      | word => rw [nodes_word, gaps_nil, Nat.zero_add]
      | node => rw [hc rfl hexpr, Nat.zero_add]

/-- **The gaps of a node** are its own and those of the expressions inside it. -/
theorem IsTidy.gaps_nodes (h : e.IsTidy) (hn : e.isNode = true) (hk : e.kind ≠ sourceFile) :
    gaps e.nodes = e.lacksExpression.toNat + e.overflows.toNat +
      (e.expressions.map fun c => gaps c.nodes).sum := by
  rw [nodes_eq_cons hn, gaps_cons, expressions_eq_filter]
  refine congrArg _ (gaps_nodesAll fun c hc hnode hexpr => ?_)
  exact (h.of_mem_children hc).gaps_nodes_eq_zero hnode
    ((h.self hn).1.kind_of_not_isExpression hk hc hnode hexpr)

/-- There is no expression inside a literal or the use of a name. -/
theorem IsShaped.expressions_of_leaf (h : e.IsShaped) (hk : e.kind = literal ∨ e.kind = nameRef) :
    e.expressions = [] := by
  have hslots : ∃ kind, schema? e.kind = some [.one [.word kind]] := by
    rcases hk with hk | hk <;> rw [hk] <;> exact ⟨_, rfl⟩
  obtain ⟨kind, hslots⟩ := hslots
  obtain ⟨start, word, hsolid⟩ := h.solid_of_leaf hslots
  rw [expressions_eq, hsolid]
  rfl

/-- A literal and the use of a name have no gap but a number without a value. -/
theorem IsTidy.gaps_nodes_of_leaf (h : e.IsTidy) (hn : e.isNode = true)
    (hk : e.kind = literal ∨ e.kind = nameRef) : gaps e.nodes = e.overflows.toNat := by
  have hfile : e.kind ≠ sourceFile := by obtain hk | hk := hk <;> simp [hk]
  have hlacks : e.lacksExpression = false := by obtain hk | hk := hk <;> simp [lacksExpression, hk]
  rw [h.gaps_nodes hn hfile, hlacks, (h.self hn).1.expressions_of_leaf hk]
  exact Nat.zero_add _

/-! ## What is missing is a gap -/

variable {text : String}

/-- **A literal of a text has a value unless its number is too large.** -/
theorem IsShaped.isNone_intValue? (h : e.IsShaped) (hof : e.IsOf text) (hk : e.kind = literal) :
    e.intValue?.isNone = e.overflows := by
  obtain ⟨start, word, -, hlexemes, hvalue⟩ := h.exists_number hk
  have hmem := hof ⟨intNumber, word⟩ (by simp [hlexemes])
  have hrange := Lexeme.parse?_isNone_eq_false_iff hmem rfl
  have hoverflows : e.overflows = decide (2 ^ 63 - 1 < Lexeme.value ⟨intNumber, word⟩) := by
    simp [overflows, hk, hlexemes]
  rw [hoverflows, hvalue, Bool.eq_iff_iff, ← Bool.not_eq_false, hrange, Nat.not_le, decide_eq_true_iff]

theorem IsShaped.lacks_literal (h : e.IsShaped) (hof : e.IsOf text) (hnode : e.isNode = true)
    (hk : e.kind = literal) : e.tree.term.Lacks e.overflows.toNat := by
  rw [h.term_of_literal hnode hk, ← h.isNone_intValue? hof hk]
  cases e.intValue? with
  | none => exact Term.lacks_missing
  | some n => exact Term.lacks_int n

/-- A part lacks what its expression lacks, or the expression itself. -/
theorem lacks_part (h : e.IsTidy) (hof : e.IsOf text)
    (ih : ∀ c ∈ e.children, c.IsTidy → c.IsOf text → c.isExpression = true →
      c.tree.term.Lacks (gaps c.nodes)) (n : Nat) :
    (termOf? e.expressions[n]?).Lacks ((e.expressions.map fun c => gaps c.nodes)[n]?.getD 1) := by
  rw [List.getElem?_map]
  cases hc : e.expressions[n]? with
  | none => exact Term.lacks_missing
  | some c =>
    obtain ⟨hmem, htidy, hexpr⟩ := h.of_expressions hc
    exact ih c hmem htidy (hof.of_mem_children hmem) hexpr

/-- What is missing where one expression should be: the expression, or what is missing in it. -/
theorem getD_one_eq {ns : List Nat} (h : ns.length ≤ 1) :
    ns[0]?.getD 1 = ns[0]?.isNone.toNat + ns.sum := by
  match ns with
  | [] => rfl
  | [n] => simp
  | _ :: _ :: _ => simp at h

/-- What is missing around the one expression of a node is a gap of the node. -/
theorem lacks_inner (h : e.IsTidy) (hof : e.IsOf text) (hn : e.isNode = true)
    (hk : e.kind = variableDef ∨ e.kind = prefixExpr ∨ e.kind = parenExpr)
    (ih : ∀ c ∈ e.children, c.IsTidy → c.IsOf text → c.isExpression = true →
      c.tree.term.Lacks (gaps c.nodes)) : (termOf? e.expressions[0]?).Lacks (gaps e.nodes) := by
  have hle := (h.self hn).1.length_expressions_le_one hk
  have part := lacks_part h hof ih 0
  have hgap : e.lacksExpression = (e.expressions.map fun c => gaps c.nodes)[0]?.isNone := by
    obtain hk | hk | hk := hk <;> simp [lacksExpression, hk, inner?_eq]
  have hvalue : e.overflows = false := by
    obtain hk | hk | hk := hk <;> simp [overflows, hk]
  have hfile : e.kind ≠ sourceFile := by
    obtain hk | hk | hk := hk <;> simp [hk]
  rw [getD_one_eq (by rwa [List.length_map]), ← hgap] at part
  rw [h.gaps_nodes hn hfile, hvalue]
  exact part

/-- **What is missing in an expression are its gaps.** -/
theorem lacks_of_isExpression (e : Element) (h : e.IsTidy) (hof : e.IsOf text)
    (hexpr : e.isExpression = true) : e.tree.term.Lacks (gaps e.nodes) := by
  obtain ⟨hnode, hkind⟩ := Bool.and_eq_true_iff.mp hexpr
  obtain ⟨shaped, ordered⟩ := h.self hnode
  have ih : ∀ c ∈ e.children, c.IsTidy → c.IsOf text → c.isExpression = true →
      c.tree.term.Lacks (gaps c.nodes) := fun c hc htidy hof hexpr =>
    have := sizeOf_lt_of_mem_children hc
    lacks_of_isExpression c htidy hof hexpr
  cases hk : e.kind with
  | literal =>
    rw [h.gaps_nodes_of_leaf hnode (.inl hk)]
    exact shaped.lacks_literal hof hnode hk
  | nameRef =>
    have hvalue : e.overflows = false := by simp [overflows, hk]
    rw [h.gaps_nodes_of_leaf hnode (.inr hk), hvalue, shaped.term_of_nameRef hnode hk]
    exact Term.lacks_var _
  | prefixExpr =>
    rw [term_tree hnode, hk, Term.ofNode_prefixExpr, nth_map_term]
    exact (lacks_inner h hof hnode (.inr (.inl hk)) ih).unary .negate
  | binExpr =>
    obtain ⟨op, -, hterm⟩ := shaped.term_of_binExpr hnode hk
    obtain ⟨l, rs, hexprs, hle⟩ := shaped.expressions_of_binExpr hk
    have part := lacks_part h hof ih
    have hsum : gaps e.nodes = gaps l.nodes + (rs.map fun c => gaps c.nodes)[0]?.getD 1 := by
      have hgap : e.lacksExpression = (rs.map fun c => gaps c.nodes)[0]?.isNone := by
        simp [lacksExpression, hk, (ordered.operands_of_binExpr shaped hk).2, hexprs]
      have hvalue : e.overflows = false := by simp [overflows, hk]
      rw [h.gaps_nodes hnode (by simp [hk]), hgap, hvalue, hexprs, List.map_cons, List.sum_cons,
        getD_one_eq (by rwa [List.length_map])]
      exact Nat.add_left_comm ..
    rw [hterm, nth_map_term, nth_map_term, hsum]
    have hleft := part 0
    have hright := part 1
    rw [hexprs] at hleft hright ⊢
    exact hleft.binary hright op
  | parenExpr =>
    rw [term_tree hnode, hk, Term.ofNode_parenExpr, nth_map_term]
    exact lacks_inner h hof hnode (.inr (.inr hk)) ih
  | _ => exact absurd hkind (by simp [hk, isExpr])
termination_by sizeOf e

/-! ## Statements that are kept -/

/-- The statements of a file that are not dropped. -/
def kept (r : Element) : List Element := r.statements.filter fun s => !s.lacksName

/-- **A statement means something unless it is a definition without a name.** -/
theorem isNone_sentence? (h : e.IsTidy) (hn : e.isNode = true) (hstmt : e.kind.isStmt = true) :
    e.tree.sentence?.isNone = e.lacksName := by
  rw [sentence?_tree hn, lacksName]
  split
  · next hk =>
    rw [Lowering.head?_filterMap_name? e h, hk]
    simp
  · next hk =>
    have hexpr := isExpr_of_isStmt hstmt hk
    rw [if_pos hexpr]
    simp [hk]

/-- **What is missing in what a statement means are the gaps of the statement.** -/
theorem lacks_of_sentence? (h : e.IsTidy) (hof : e.IsOf text) {s : Sentence}
    (hs : e.tree.sentence? = some s) : s.value.Lacks (gaps e.nodes) := by
  cases hnode : e.isNode with
  | false => exact absurd hs (by simp [sentence?_tree_of_not_stmt, hnode])
  | true =>
    rw [sentence?_tree hnode] at hs
    split at hs
    · next hk =>
      rw [terms_children, nth_map_term] at hs
      obtain ⟨n, -, rfl⟩ := Option.map_eq_some_iff.mp hs
      exact lacks_inner h hof hnode (.inl hk) fun c _ => lacks_of_isExpression c
    split at hs
    · next hkind =>
      obtain rfl := Option.some.inj hs
      exact lacks_of_isExpression e h hof (Bool.and_eq_true_iff.mpr ⟨hnode, hkind⟩)
    · exact absurd hs (by simp)

/-- **A file means what the statements mean that are kept**, one after the other. -/
theorem forall₂_kept {r : Element} (h : ∀ c ∈ r.children, c.IsTidy) :
    List.Forall₂ (fun e s => e.tree.sentence? = some s) r.kept r.tree.sentences := by
  rw [kept, statements, childNodes, SyntaxTree.sentences, children_tree, List.filter_filter,
    List.filter_filter]
  generalize r.children = cs at h
  induction cs with
  | nil => exact .nil
  | cons c cs ih =>
    obtain ⟨hc, hcs⟩ := List.forall_mem_cons.mp h
    have others := ih hcs
    rw [List.map_cons, List.filterMap_cons]
    cases hstmt : c.isNode && c.kind.isStmt with
    | false =>
      have hkept : (!c.lacksName && c.kind.isStmt && c.isNode) = false := by
        rw [Bool.and_assoc, Bool.and_comm c.kind.isStmt, hstmt, Bool.and_false]
      rw [sentence?_tree_of_not_stmt hstmt, List.filter_cons_of_neg (by simp [hkept])]
      exact others
    | true =>
      obtain ⟨hn, hk⟩ := Bool.and_eq_true_iff.mp hstmt
      have hnone := isNone_sentence? hc hn hk
      cases hs : c.tree.sentence? with
      | none =>
        rw [List.filter_cons_of_neg (by simp [← hnone, hs])]
        exact others
      | some s =>
        rw [List.filter_cons_of_pos (by simp [← hnone, hs, hn, hk])]
        exact .cons hs others

theorem mem_children_of_mem_kept {r : Element} (h : e ∈ r.kept) : e ∈ r.children :=
  (List.mem_filter.mp (List.mem_filter.mp (List.mem_filter.mp h).1).1).1

/-- Terms that lack the gaps of some elements lack as many expressions as these have gaps. -/
theorem sum_missings {es : List Element} {ss : List Sentence}
    (h : List.Forall₂ (fun e s => s.value.Lacks (gaps e.nodes)) es ss) :
    (ss.map (·.value.missings)).sum = gaps (nodesAll es) := by
  induction h with
  | nil => simp
  | cons hs _ ih =>
    rw [List.map_cons, List.sum_cons, nodesAll_cons, gaps_append, ih, hs.missings_eq]

theorem operated_of_forall₂ {es : List Element} {ss : List Sentence}
    (h : List.Forall₂ (fun e s => s.value.Lacks (gaps e.nodes)) es ss) :
    ∀ s ∈ ss, s.value.IsOperated := by
  induction h with
  | nil => exact List.forall_mem_nil _
  | cons hs _ ih => exact List.forall_mem_cons.mpr ⟨hs.operated, ih⟩

/-- What is missing in the sentences of a file are the gaps of the statements that are kept. -/
theorem forall₂_lacks {r : Element} (h : ∀ c ∈ r.children, c.IsTidy)
    (hof : ∀ c ∈ r.children, c.IsOf text) :
    List.Forall₂ (fun e s => s.value.Lacks (gaps e.nodes)) r.kept r.tree.sentences := by
  have hkept : ∀ e ∈ r.kept, e.IsTidy ∧ e.IsOf text := by
    intro e he
    have hc := mem_children_of_mem_kept he
    exact ⟨h e hc, hof e hc⟩
  refine ((List.forall₂_and_left ..).mpr ⟨hkept, forall₂_kept h⟩).imp ?_
  rintro e s ⟨⟨htidy, hof⟩, hs⟩
  exact lacks_of_sentence? htidy hof hs

/-- **A statement of a body says what an element means.** -/
def SaidBy (b : Body) (e : Element) (x : Stmt) : Prop :=
  ∃ s, e.tree.sentence? = some s ∧ s.StandsIn b x

theorem forall₂_saidBy {b : Body} {es : List Element} {ss : List Sentence} {xs : List Stmt}
    (hes : List.Forall₂ (fun e s => e.tree.sentence? = some s) es ss)
    (hxs : List.Forall₂ (Sentence.StandsIn b) xs ss) : List.Forall₂ (SaidBy b) es xs := by
  induction hes generalizing xs with
  | nil =>
    rw [List.forall₂_nil_right_iff.mp hxs]
    exact .nil
  | cons hs _ ih =>
    obtain ⟨x, xs, hx, hothers, rfl⟩ := List.forall₂_cons_right_iff.mp hxs
    exact .cons ⟨_, hs, hx⟩ (ih hothers)

end Element

/-! ## Bodies of files -/

namespace Lowering

variable {e : Element}

/-- **Reading a statement drops it** if it is a definition without a name. -/
theorem dropped_statement (h : e.IsTidy) (hnode : e.isNode = true) (hstmt : e.kind.isStmt = true)
    (s : Lowering) : (s.statement e).dropped.toList =
      s.dropped.toList ++ if e.lacksName then [e.range] else [] := by
  rw [statement, Element.lacksName]
  split
  · next hk =>
    rw [hk, BEq.rfl, Bool.true_and]
    cases e.definedName? with
    | none => exact Array.toList_push
    | some n =>
      have henters := enters_part h (fun c _ => enters_expr c) s 0
      rw [← Element.inner?_eq] at henters
      simp [henters.dropped_eq]
  · next hk =>
    have hexpr := isExpr_of_isStmt hstmt hk
    have henters := enters_expr e h (Bool.and_eq_true_iff.mpr ⟨hnode, hexpr⟩) s
    simp [hk, henters.dropped_eq]

theorem dropped_foldl {es : List Element}
    (h : ∀ e ∈ es, e.IsTidy ∧ e.isNode = true ∧ e.kind.isStmt = true) (s : Lowering) :
    (es.foldl statement s).dropped.toList =
      s.dropped.toList ++ (es.filter Element.lacksName).map Element.range := by
  induction es generalizing s with
  | nil => simp
  | cons e es ih =>
    obtain ⟨⟨htidy, hnode, hstmt⟩, hes⟩ := List.forall_mem_cons.mp h
    rw [List.foldl_cons, ih hes, dropped_statement htidy hnode hstmt, List.filter_cons, List.append_assoc]
    cases e.lacksName <;> rfl

/-- **The statements that are dropped are the definitions without a name.** -/
theorem dropped_ofFile {r : Element} (h : ∀ c ∈ r.children, c.IsTidy) :
    (ofFile r).dropped.toList = (r.statements.filter Element.lacksName).map Element.range := by
  refine dropped_foldl (fun e he => ?_) .empty
  obtain ⟨he, hnode, hstmt⟩ := Element.mem_statements.mp he
  exact ⟨h e he, hnode, hstmt⟩

end Lowering

namespace Body

variable {text : String} {r : Element}

/-- **The gaps of the statements that are kept are what is missing in the body of a file.** -/
theorem count_missing_ofFile (h : ∀ c ∈ r.children, c.IsTidy) (hof : ∀ c ∈ r.children, c.IsOf text) :
    (ofFile r).exprs.count .missing = Element.gaps (Element.nodesAll r.kept) := by
  rw [ofFile_eq h, ofSentences, count_missing_foldl, Element.sum_missings (Element.forall₂_lacks h hof)]
  simp

/-- **No operation in the body of a file is without its operator.** -/
theorem hasOperator_of_mem_ofFile (h : ∀ c ∈ r.children, c.IsTidy)
    (hof : ∀ c ∈ r.children, c.IsOf text) : ∀ x ∈ (ofFile r).exprs, x.HasOperator := by
  rw [ofFile_eq h, ofSentences]
  exact hasOperator_of_mem_foldl (by simp) (Element.operated_of_forall₂ (Element.forall₂_lacks h hof))

/-- **The body of a file says what its statements mean**, but for those that are dropped. -/
theorem forall₂_saidBy_ofFile (h : ∀ c ∈ r.children, c.IsTidy) :
    List.Forall₂ (Element.SaidBy (ofFile r)) r.kept (ofFile r).statements.toList := by
  have hsays := says_ofSentences r.tree.sentences
  rw [← ofFile_eq h] at hsays
  exact Element.forall₂_saidBy (Element.forall₂_kept h) hsays

end Body

end LosslessSyntax
