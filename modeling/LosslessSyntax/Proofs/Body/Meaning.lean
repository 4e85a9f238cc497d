import LosslessSyntax.Body.Lower
import LosslessSyntax.Proofs.Body.Term
import LosslessSyntax.Proofs.Tree.Parts

/-!
# Proofs/Body/Meaning — what a tree means

The meaning of a tree is a list of sentences (`SyntaxTree.sentences`).  It is said by the kinds of the
nodes and by the words in them; trivia has no part in it (`SyntaxTree.sentences_bare`), and neither have
the places where the parts of a node stand.  If every node has its shape and its children in order,
reading a body off the tree enters exactly these sentences (`Body.ofFile_eq`).
-/

namespace LosslessSyntax

open SyntaxKind

/-- A statement that is no definition is an expression. -/
theorem SyntaxKind.isExpr_of_isStmt {kind : SyntaxKind} (h : kind.isStmt = true)
    (hk : kind ≠ variableDef) : kind.isExpr = true := by
  revert h hk
  cases kind <;> simp [isStmt]

/-! ## Meaning -/

namespace Term

/-- One of some terms, or what stands for it if it is absent. -/
def nth (ts : List Term) (n : Nat) : Term := ts[n]?.getD missing

/-- **The term for a node** that has some words of its own and inside it some expressions. -/
def ofNode : SyntaxKind → List Lexeme → List Term → Term
  | literal, ws, _ =>
    ((ws.head?.bind fun w => Text.Integer.parse? w.text.toList).map int).getD missing
  | nameRef, ws, _ => var ⟨Lexeme.spell ws⟩
  | prefixExpr, _, ts => unary .negate (nth ts 0)
  | binExpr, ws, ts =>
    binary (ws.head?.bind fun w => BinaryOperator.ofKind? w.kind) (nth ts 0) (nth ts 1)
  | _, _, ts => nth ts 0

theorem ofNode_literal (ws : List Lexeme) (ts : List Term) : ofNode literal ws ts =
    ((ws.head?.bind fun w => Text.Integer.parse? w.text.toList).map int).getD missing := rfl

theorem ofNode_nameRef (ws : List Lexeme) (ts : List Term) :
    ofNode nameRef ws ts = var ⟨Lexeme.spell ws⟩ := rfl

theorem ofNode_prefixExpr (ws : List Lexeme) (ts : List Term) :
    ofNode prefixExpr ws ts = unary .negate (nth ts 0) := rfl

theorem ofNode_binExpr (ws : List Lexeme) (ts : List Term) : ofNode binExpr ws ts =
    binary (ws.head?.bind fun w => BinaryOperator.ofKind? w.kind) (nth ts 0) (nth ts 1) := rfl

theorem ofNode_parenExpr (ws : List Lexeme) (ts : List Term) : ofNode parenExpr ws ts = nth ts 0 := rfl

end Term

namespace SyntaxTree

/-- The word that a tree is, unless it is trivia. -/
def solidWord? : SyntaxTree → Option Lexeme
  | leaf l => if l.isTrivia then none else some l
  | node .. => none

/-- The words among some trees, trivia left out. -/
def ownWords (ts : List SyntaxTree) : List Lexeme := ts.filterMap solidWord?

/-- Whether a tree is a node that is an expression. -/
def isExpression : SyntaxTree → Bool
  | leaf _ => false
  | node kind _ => kind.isExpr

mutual

/-- **What an expression means.** -/
def term : SyntaxTree → Term
  | leaf _ => .missing
  | node kind ts => .ofNode kind (ownWords ts) (terms ts)

/-- What the expressions among some trees mean. -/
def terms : List SyntaxTree → List Term
  | [] => []
  | t :: ts => if t.isExpression then t.term :: terms ts else terms ts

end

/-- The name that a tree is, if it is one. -/
def name? : SyntaxTree → Option Name
  | leaf _ => none
  | node kind ts => if kind = name then some ⟨Lexeme.spell (ownWords ts)⟩ else none

/-- What a statement means; a definition without a name means nothing. -/
def sentence? : SyntaxTree → Option Sentence
  | leaf _ => none
  | node kind ts =>
    if kind = variableDef then
      (ts.filterMap name?).head?.map fun n => .define n (.nth (terms ts) 0)
    else if kind.isExpr then some (.expr (node kind ts).term)
    else none

/-- **What a file means.** -/
def sentences (t : SyntaxTree) : List Sentence := t.children.filterMap sentence?

theorem term_node (kind : SyntaxKind) (ts : List SyntaxTree) :
    (node kind ts).term = .ofNode kind (ownWords ts) (terms ts) := by rw [term]

theorem terms_cons_of_not_isExpression {t : SyntaxTree} (h : t.isExpression = false)
    (ts : List SyntaxTree) : terms (t :: ts) = terms ts := by
  rw [terms, if_neg (by simp [h])]

theorem terms_cons_of_isExpression {t : SyntaxTree} (h : t.isExpression = true)
    (ts : List SyntaxTree) : terms (t :: ts) = t.term :: terms ts := by
  rw [terms, if_pos h]

theorem terms_eq_map (ts : List SyntaxTree) : terms ts = (ts.filter isExpression).map term := by
  induction ts with
  | nil => rw [terms, List.filter_nil, List.map_nil]
  | cons t ts ih =>
    rw [terms, List.filter_cons]
    split <;> simp [ih]

/-! ## Trivia means nothing -/

theorem isExpression_of_isTrivia {t : SyntaxTree} (h : t.isTrivia = true) : t.isExpression = false := by
  cases t with
  | leaf => rfl
  | node => exact absurd h (by simp)

theorem isExpression_bare (t : SyntaxTree) : t.bare.isExpression = t.isExpression := by
  cases t <;> simp [isExpression]

/-- What is picked out of trees without regard to trivia is picked out of bare trees. -/
theorem filterMap_bareAll {α : Type} {f : SyntaxTree → Option α} (hbare : ∀ t, f t.bare = f t)
    (htrivia : ∀ t, t.isTrivia = true → f t = none) (ts : List SyntaxTree) :
    (bareAll ts).filterMap f = ts.filterMap f := by
  induction ts with
  | nil => simp
  | cons t ts ih =>
    rw [bareAll_cons, List.filterMap_cons]
    split
    · next ht => rw [htrivia t ht, ih]
    · rw [List.filterMap_cons, hbare, ih]

theorem ownWords_bareAll (ts : List SyntaxTree) : ownWords (bareAll ts) = ownWords ts := by
  refine filterMap_bareAll (fun t => ?_) (fun t ht => ?_) ts
  · cases t <;> simp [solidWord?]
  · cases t with
    | leaf l => exact if_pos ht
    | node => rfl

mutual

theorem term_bare : ∀ t : SyntaxTree, t.bare.term = t.term
  | leaf l => by rw [bare_leaf]
  | node kind ts => by rw [bare_node, term_node, term_node, ownWords_bareAll, terms_bareAll ts]

theorem terms_bareAll : ∀ ts : List SyntaxTree, terms (bareAll ts) = terms ts
  | [] => by rw [bareAll_nil]
  | t :: ts => by
      rw [bareAll_cons, terms]
      by_cases ht : t.isTrivia = true
      · rw [if_pos ht, if_neg (by simp [isExpression_of_isTrivia ht]), terms_bareAll ts]
      · rw [if_neg ht, terms, isExpression_bare, term_bare t, terms_bareAll ts]

end

theorem name?_bare (t : SyntaxTree) : t.bare.name? = t.name? := by
  cases t <;> simp [name?, ownWords_bareAll]

theorem name?_of_isTrivia {t : SyntaxTree} (h : t.isTrivia = true) : t.name? = none := by
  cases t with
  | leaf => rfl
  | node => exact absurd h (by simp)

theorem sentence?_bare (t : SyntaxTree) : t.bare.sentence? = t.sentence? := by
  cases t with
  | leaf => rw [bare_leaf]
  | node kind ts =>
    simp only [bare_node, sentence?, filterMap_bareAll name?_bare (fun _ => name?_of_isTrivia),
      term_node, ownWords_bareAll, terms_bareAll]

/-- **Trivia has no part in what a file means.** -/
theorem sentences_bare (t : SyntaxTree) : t.bare.sentences = t.sentences := by
  cases t with
  | leaf => rw [bare_leaf]
  | node kind ts =>
    rw [bare_node, sentences, sentences, children_node, children_node]
    refine filterMap_bareAll sentence?_bare (fun t ht => ?_) ts
    cases t with
    | leaf => rfl
    | node => exact absurd ht (by simp)

end SyntaxTree

/-! ## Meaning in its place -/

namespace Element

open SyntaxTree (ownWords solidWord? terms)

theorem isExpression_tree (e : Element) : e.tree.isExpression = e.isExpression := by
  cases e <;> simp [SyntaxTree.isExpression, isExpression, kind]

theorem solidWord?_tree_of_isNode {e : Element} (h : e.isNode = true) : e.tree.solidWord? = none := by
  cases e with
  | word => exact absurd h (by simp)
  | node => rw [tree_node, solidWord?]

theorem solidWord?_tree_of_word {e : Element} (h : e.isNode = false) (ht : e.isTrivia = false) :
    ∃ l, e.tree.solidWord? = some l ∧ l.kind = e.kind := by
  cases e with
  | word k start text =>
    have hk : k.isTrivia = false := ht
    exact ⟨⟨k, text⟩, by simp [solidWord?, Lexeme.isTrivia, hk], rfl⟩
  | node => exact absurd h (by simp)

/-- The words of its own that a node has are among its parts. -/
theorem ownWords_children (e : Element) :
    ownWords e.tree.children = e.solid.filterMap (solidWord? ·.tree) := by
  rw [children_tree, ownWords, List.filterMap_map, solid, List.filterMap_filter]
  refine List.filterMap_congr fun c _ => ?_
  cases hc : c.isTrivia with
  | false => rfl
  | true =>
    cases c with
    | word k start text => simp [solidWord?, Lexeme.isTrivia, show k.isTrivia = true from hc]
    | node => exact absurd hc (by simp)

/-- The expressions inside a node are the expressions among the trees inside its tree. -/
theorem filter_isExpression_children (e : Element) :
    e.tree.children.filter SyntaxTree.isExpression = e.expressions.map tree := by
  rw [children_tree, List.filter_map, expressions, childNodes, List.filter_filter]
  refine congrArg (List.map _) (List.filter_congr fun c _ => ?_)
  rw [Function.comp_apply, isExpression_tree, isExpression, Bool.and_comm]

theorem terms_children (e : Element) : terms e.tree.children = e.expressions.map (·.tree.term) := by
  rw [SyntaxTree.terms_eq_map, filter_isExpression_children, List.map_map]
  rfl

theorem term_tree {e : Element} (h : e.isNode = true) :
    e.tree.term = .ofNode e.kind (ownWords e.tree.children) (e.expressions.map (·.tree.term)) := by
  rw [← terms_children]
  cases e with
  | word => exact absurd h (by simp)
  | node => rw [tree_node, SyntaxTree.term_node, SyntaxTree.children_node, kind]

theorem sentence?_tree {e : Element} (h : e.isNode = true) : e.tree.sentence? =
    if e.kind = variableDef then
      (e.tree.children.filterMap SyntaxTree.name?).head?.map fun n =>
        .define n (.nth (terms e.tree.children) 0)
    else if e.kind.isExpr then some (.expr e.tree.term)
    else none := by
  cases e with
  | word => exact absurd h (by simp)
  | node => rw [tree_node, SyntaxTree.sentence?, SyntaxTree.children_node, kind]

/-- What is no statement means nothing. -/
theorem sentence?_tree_of_not_stmt {e : Element} (h : (e.isNode && e.kind.isStmt) = false) :
    e.tree.sentence? = none := by
  cases e with
  | word => rfl
  | node k start stop es =>
    change k.isStmt = false at h
    rw [sentence?_tree rfl, kind]
    cases k <;> first | rfl | exact absurd h (by decide)

/-- A literal means its value. -/
theorem IsShaped.term_of_literal {e : Element} (h : e.IsShaped) (hnode : e.isNode = true)
    (hk : e.kind = literal) : e.tree.term = (e.intValue?.map Term.int).getD .missing := by
  obtain ⟨start, text, hsolid, -, hvalue⟩ := h.exists_number hk
  rw [term_tree hnode, hk, Term.ofNode_literal, ownWords_children, hsolid, hvalue]
  rfl

/-- The use of a name means the name. -/
theorem IsShaped.term_of_nameRef {e : Element} (h : e.IsShaped) (hnode : e.isNode = true)
    (hk : e.kind = nameRef) : e.tree.term = .var ⟨e.text⟩ := by
  obtain ⟨start, text, hsolid⟩ := h.solid_of_leaf (k := ident) (by rw [hk]; rfl)
  rw [term_tree hnode, hk, Term.ofNode_nameRef, ownWords_children, hsolid, Element.text,
    h.lexemes_of_leaf hsolid rfl]
  rfl

/-- A binary operation means what its operator makes of its operands. -/
theorem IsShaped.term_of_binExpr {e : Element} (h : e.IsShaped) (hnode : e.isNode = true)
    (hk : e.kind = binExpr) : ∃ op, e.operator? = some op ∧ e.tree.term =
      .binary (some op) (.nth (e.expressions.map (·.tree.term)) 0)
        (.nth (e.expressions.map (·.tree.term)) 1) := by
  obtain ⟨l, w, cs, hsolid, hl, hw, hop, -, -⟩ := h.solid_of_binExpr hk
  obtain ⟨op, hop⟩ := Option.isSome_iff_exists.mp hop
  have hl := (Bool.and_eq_true_iff.mp hl).1
  have hmem : w ∈ e.solid := by simp [hsolid]
  have ht : w.isTrivia = false := by simpa using (List.mem_filter.mp hmem).2
  obtain ⟨m, hm, hkind⟩ := solidWord?_tree_of_word hw ht
  refine ⟨op, by rw [operator?, operatorWord?_of_solid hsolid hl hw hop, Option.map_some], ?_⟩
  rw [term_tree hnode, hk, Term.ofNode_binExpr, ownWords_children, hsolid, List.filterMap_cons,
    solidWord?_tree_of_isNode hl, List.filterMap_cons, hm, List.head?_cons, Option.bind_some, hkind,
    hop]

end Element

/-! ## Reading a body off -/

namespace Element

/-- **Every node of an element has its shape**, and its children in order. -/
def IsTidy (e : Element) : Prop := ∀ n ∈ e.nodes, n.IsShaped ∧ n.IsOrdered

variable {e : Element}

theorem IsTidy.of_mem_children (h : e.IsTidy) {c : Element} (hc : c ∈ e.children) : c.IsTidy := by
  exact fun n hn => h n (mem_nodes_of_mem_children (mem_nodesAll hc hn))

/-- An expression inside a node is tidy if the node is. -/
theorem IsTidy.of_expressions (h : e.IsTidy) {n : Nat} {c : Element}
    (hc : e.expressions[n]? = some c) : c ∈ e.children ∧ c.IsTidy ∧ c.isExpression = true := by
  have hmem := List.mem_of_getElem? hc
  have hchild := mem_children_of_mem_expressions hmem
  rw [expressions_eq] at hmem
  exact ⟨hchild, h.of_mem_children hchild, (List.mem_filter.mp hmem).2⟩

theorem IsTidy.self (h : e.IsTidy) (hn : e.isNode = true) : e.IsShaped ∧ e.IsOrdered := by
  cases e with
  | word => exact absurd hn (by simp)
  | node => exact h _ (by simp)

end Element

namespace Lowering

/-- **A term has been entered**: it is the last in the arena, and no statement has been made or
dropped. -/
structure Enters (s : Lowering) (t : Term) (p : ExprId × Lowering) : Prop where
  exprs_eq : p.2.exprs = t.enter s.exprs
  id_eq : p.1 = lastId p.2.exprs
  statements_eq : p.2.statements = s.statements
  dropped_eq : p.2.dropped = s.dropped

variable {s : Lowering} {e : Element} {t u : Term} {p q : ExprId × Lowering}

theorem enters_absent (s : Lowering) : s.Enters .missing s.absent :=
  ⟨rfl, (lastId_push ..).symm, rfl, rfl⟩

theorem enters_add {x : Expr} (s : Lowering) (e : Element) (h : t.enter s.exprs = s.exprs.push x) :
    s.Enters t (s.add e x) :=
  ⟨h.symm, (lastId_push ..).symm, rfl, rfl⟩

theorem Enters.unary (h : s.Enters t p) (e : Element) (op : UnaryOperator) :
    s.Enters (.unary op t) (p.2.add e (.unary op p.1)) := by
  refine ⟨?_, (lastId_push ..).symm, h.statements_eq, h.dropped_eq⟩
  rw [Term.enter, ← h.exprs_eq, ← h.id_eq]
  rfl

theorem Enters.binary (h : s.Enters t p) (h' : p.2.Enters u q) (e : Element)
    (op : Option BinaryOperator) : s.Enters (.binary op t u) (q.2.add e (.binary op p.1 q.1)) := by
  refine ⟨?_, (lastId_push ..).symm, h'.statements_eq.trans h.statements_eq,
    h'.dropped_eq.trans h.dropped_eq⟩
  rw [Term.enter, ← h.exprs_eq, ← h.id_eq, ← h'.exprs_eq, ← h'.id_eq]
  rfl

theorem Enters.mean (h : s.Enters t p) (e : Element) (id : ExprId) :
    s.Enters t (p.1, p.2.mean e id) :=
  ⟨h.exprs_eq, h.id_eq, h.statements_eq, h.dropped_eq⟩

/-- The term for a part that may be absent. -/
def termOf? (c? : Option Element) : Term := (c?.map (·.tree.term)).getD .missing

theorem nth_map_term (es : List Element) (n : Nat) :
    Term.nth (es.map (·.tree.term)) n = termOf? es[n]? := by
  rw [Term.nth, List.getElem?_map, termOf?]

theorem enters_literal (s : Lowering) (h : e.IsShaped) (hnode : e.isNode = true)
    (hk : e.kind = SyntaxKind.literal) : s.Enters e.tree.term (s.add e (literal e)) := by
  rw [h.term_of_literal hnode hk, literal]
  cases e.intValue? with
  | none => exact enters_add s e rfl
  | some n => exact enters_add s e rfl

/-- A part that may be absent is entered if the expressions inside the node are. -/
theorem enters_part (h : e.IsTidy)
    (ih : ∀ c ∈ e.children, c.IsTidy → c.isExpression = true → ∀ s : Lowering,
      s.Enters c.tree.term (s.expr c)) (s : Lowering) (n : Nat) :
    s.Enters (termOf? e.expressions[n]?) (s.expr? e.expressions[n]?) := by
  cases hc : e.expressions[n]? with
  | none => exact s.enters_absent
  | some c =>
    obtain ⟨hmem, htidy, hexpr⟩ := h.of_expressions hc
    exact ih c hmem htidy hexpr s

/-- **Reading an expression off an element enters what it means.** -/
theorem enters_expr (e : Element) (h : e.IsTidy) (hexpr : e.isExpression = true) (s : Lowering) :
    s.Enters e.tree.term (s.expr e) := by
  obtain ⟨hnode, hkind⟩ := Bool.and_eq_true_iff.mp hexpr
  obtain ⟨shaped, ordered⟩ := h.self hnode
  have part := enters_part h fun c hc htidy hexpr s =>
    have := Element.sizeOf_lt_of_mem_children hc
    enters_expr c htidy hexpr s
  cases hk : e.kind with
  | literal =>
    rw [expr_literal s hk]
    exact enters_literal s shaped hnode hk
  | nameRef =>
    rw [expr_nameRef s hk, shaped.term_of_nameRef hnode hk]
    exact enters_add s e rfl
  | prefixExpr =>
    rw [expr_prefixExpr s hk, shaped.sign?_eq hk, Element.inner?_eq, Element.term_tree hnode, hk,
      Term.ofNode_prefixExpr, nth_map_term]
    exact (part s 0).unary e .negate
  | binExpr =>
    obtain ⟨op, hop, hterm⟩ := shaped.term_of_binExpr hnode hk
    obtain ⟨hlhs, hrhs⟩ := ordered.operands_of_binExpr shaped hk
    rw [expr_binExpr s hk, hlhs, hrhs, hop, hterm, nth_map_term, nth_map_term]
    exact (part s 0).binary (part _ 1) e (some op)
  | parenExpr =>
    rw [expr_parenExpr s hk, Element.inner?_eq, Element.term_tree hnode, hk, Term.ofNode_parenExpr,
      nth_map_term]
    exact (part s 0).mean e _
  | _ => exact absurd hkind (by simp [hk, isExpr])
termination_by sizeOf e

/-- The name of a definition is what its node covers. -/
theorem name?_tree {c : Element} (h : c.IsTidy) :
    c.tree.name? = if c.isNode && c.kind == name then some ⟨c.text⟩ else none := by
  cases c with
  | word => rfl
  | node k start stop es =>
    rw [Element.tree_node, SyntaxTree.name?, Element.isNode_node, Bool.true_and, Element.kind]
    by_cases hk : k = name
    · obtain ⟨shaped, -⟩ := h.self rfl
      obtain ⟨place, text, hsolid⟩ := shaped.solid_of_leaf (k := ident) (by rw [Element.kind, hk]; rfl)
      have hwords := Element.ownWords_children (.node k start stop es)
      rw [Element.tree_node, SyntaxTree.children_node, hsolid] at hwords
      rw [if_pos hk, if_pos (beq_iff_eq.mpr hk), hwords, Element.text, shaped.lexemes_of_leaf hsolid rfl]
      rfl
    · rw [if_neg hk, if_neg (by simpa using hk)]

theorem head?_filterMap_name? (e : Element) (h : e.IsTidy) :
    (e.tree.children.filterMap SyntaxTree.name?).head? = e.definedName?.map fun n => ⟨n.text⟩ := by
  have hchildren : ∀ c ∈ e.children, c.IsTidy := fun c => h.of_mem_children
  rw [Element.children_tree, Element.definedName?, Element.firstNode?, Element.childNodes]
  generalize e.children = cs at hchildren
  induction cs with
  | nil => rfl
  | cons c cs ih =>
    have ih := ih fun d hd => hchildren d (List.mem_cons_of_mem _ hd)
    rw [List.map_cons, List.filterMap_cons, name?_tree (hchildren c List.mem_cons_self)]
    cases hn : c.isNode with
    | false => simpa [hn] using ih
    | true =>
      cases hk : c.kind == name with
      | false => simpa [hn, hk] using ih
      | true => simp [hn, hk]

theorem Enters.body_enter {x : Sentence} (h : s.Enters x.value p) :
    Lowering.body { p.2 with statements := p.2.statements.push (x.stmt p.1) } = s.body.enter x := by
  rw [body, Body.enter, h.id_eq, h.exprs_eq, h.statements_eq]
  rfl

/-- **Reading a statement off an element enters what it means**, if it means anything. -/
theorem body_statement (h : e.IsTidy) (hnode : e.isNode = true) (hstmt : e.kind.isStmt = true)
    (s : Lowering) : (s.statement e).body = e.tree.sentence?.toList.foldl Body.enter s.body := by
  rw [statement, Element.sentence?_tree hnode]
  split
  · next hk =>
    rw [head?_filterMap_name? e h, Element.terms_children, nth_map_term, ← Element.inner?_eq]
    cases e.definedName? with
    | none => rfl
    | some n =>
      have henters := enters_part h (fun c _ => enters_expr c) s 0
      rw [← Element.inner?_eq] at henters
      exact henters.body_enter (x := .define ⟨n.text⟩ _)
  · next hk =>
    have hexpr := isExpr_of_isStmt hstmt hk
    rw [if_pos hexpr]
    exact (enters_expr e h (Bool.and_eq_true_iff.mpr ⟨hnode, hexpr⟩) s).body_enter (x := .expr _)

/-- Reading statements off elements enters what they mean, one after the other. -/
theorem body_foldl_statement {cs : List Element} (h : ∀ c ∈ cs, c.IsTidy) (s : Lowering) :
    (((cs.filter Element.isNode).filter fun c => c.kind.isStmt).foldl statement s).body =
      ((cs.map Element.tree).filterMap SyntaxTree.sentence?).foldl Body.enter s.body := by
  induction cs generalizing s with
  | nil => rfl
  | cons c cs ih =>
    have ih := fun s => ih (fun d hd => h d (List.mem_cons_of_mem _ hd)) s
    rw [List.map_cons, List.filterMap_cons, List.filter_cons]
    cases hn : c.isNode with
    | false =>
      rw [Element.sentence?_tree_of_not_stmt (by simp [hn])]
      exact ih s
    | true =>
      rw [if_pos rfl, List.filter_cons]
      cases hk : c.kind.isStmt with
      | false =>
        rw [Element.sentence?_tree_of_not_stmt (by simp [hk])]
        exact ih s
      | true =>
        rw [if_pos rfl, List.foldl_cons, ih, body_statement (h c List.mem_cons_self) hn hk]
        cases c.tree.sentence? <;> rfl

end Lowering

/-- **The body of a file is made of the sentences that the file means.** -/
theorem Body.ofFile_eq {r : Element} (h : ∀ c ∈ r.children, c.IsTidy) :
    Body.ofFile r = Body.ofSentences r.tree.sentences := by
  rw [SyntaxTree.sentences, Element.children_tree]
  exact Lowering.body_foldl_statement h .empty

end LosslessSyntax
