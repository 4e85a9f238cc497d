import LosslessSyntax.Proofs.Body.Origin

/-!
# Proofs/Body/Erasure — what a tree leaves behind when its spelling is erased

Erasing a tree keeps its operations, names and numbers (`SyntaxTree.erase`).  Parentheses give way to what
they enclose, the operands of an operation are told apart by the side of the operator they stand on, and
whatever is absent is missing.  Nothing is said about places in the text or about numbers in an arena.
In a text, where every node has its shape, this is what a tree means (`Element.erase_tree`), so it is what
the arena of a body unfolds to (`Body.unfolded`).
-/

namespace LosslessSyntax

open Lexeme (tokenize)
open SyntaxKind

/-! ## Erasing a tree -/

/-- What matters of a child of a node: a word that is not trivia, or an expression without its
spelling. -/
inductive Piece
  | word (l : Lexeme)
  | term (t : Term)
  deriving DecidableEq, Repr

namespace Piece

def word? : Piece → Option Lexeme
  | word l => some l
  | term _ => none

def term? : Piece → Option Term
  | word _ => none
  | term t => some t

/-- The operator between two operands that a piece is. -/
def operator? (p : Piece) : Option BinaryOperator := p.word?.bind (BinaryOperator.ofKind? ·.kind)

/-- The first word of a kind. -/
def wordOf? (k : SyntaxKind) (ps : List Piece) : Option Lexeme :=
  (ps.filterMap word?).find? (·.kind == k)

/-- The operator in front of an operand. -/
def sign? (ps : List Piece) : Option UnaryOperator :=
  (ps.filterMap word?).findSome? (UnaryOperator.ofKind? ·.kind)

/-- The first expression, or what stands for it if it is absent. -/
def first (ps : List Piece) : Term := (ps.filterMap term?).head?.getD .missing

/-- The last expression, or what stands for it if it is absent. -/
def last (ps : List Piece) : Term := (ps.filterMap term?).getLast?.getD .missing

/-- What comes before the operator. -/
def before (ps : List Piece) : List Piece := ps.takeWhile (·.operator?.isNone)

/-- The operator and what comes behind it. -/
def behind (ps : List Piece) : List Piece := ps.dropWhile (·.operator?.isNone)

end Piece

namespace Term

/-- The value of a number, or nothing if it is out of range. -/
def ofNumber (l : Lexeme) : Term := if l.value ≤ 2 ^ 63 - 1 then .int l.value else .missing

/-- **What is left of a node** that consists of some pieces. -/
def ofPieces : SyntaxKind → List Piece → Term
  | literal, ps => ((Piece.wordOf? intNumber ps).map ofNumber).getD .missing
  | nameRef, ps => ((Piece.wordOf? ident ps).map fun l => .var ⟨l.text⟩).getD .missing
  | prefixExpr, ps => ((Piece.sign? ps).map fun op => .unary op (Piece.first ps)).getD .missing
  | binExpr, ps =>
    .binary ((Piece.behind ps).head?.bind Piece.operator?) (Piece.last (Piece.before ps))
      (Piece.first (Piece.behind ps))
  | _, ps => Piece.first ps

/-- An operation in writing: an operand, the operator and what comes behind it. -/
theorem ofPieces_binExpr (t : Term) {l : Lexeme} {op : BinaryOperator}
    (h : BinaryOperator.ofKind? l.kind = some op) (ps : List Piece) :
    ofPieces binExpr (.term t :: .word l :: ps) = .binary (some op) t (Piece.first ps) := by
  have hterm : (Piece.term t).operator? = none := rfl
  have hword : (Piece.word l).operator? = some op := h
  have hbefore : Piece.before (.term t :: .word l :: ps) = [.term t] := by
    simp [Piece.before, hterm, hword]
  have hbehind : Piece.behind (.term t :: .word l :: ps) = .word l :: ps := by
    simp [Piece.behind, hterm, hword]
  rw [ofPieces, hbefore, hbehind, List.head?_cons, Option.bind_some, hword]
  rfl

end Term

namespace SyntaxTree

mutual

/-- **An expression without its spelling.** -/
def erase : SyntaxTree → Term
  | leaf _ => .missing
  | node kind ts => .ofPieces kind (pieces ts)

/-- What matters of some trees, from left to right. -/
def pieces : List SyntaxTree → List Piece
  | [] => []
  | leaf l :: ts => if l.isTrivia then pieces ts else .word l :: pieces ts
  | node kind us :: ts => if kind.isExpr then .term (node kind us).erase :: pieces ts else pieces ts

end

/-- Parentheses leave nothing behind, and what is absent is missing: `(x -`. -/
example : (node binExpr [node parenExpr [leaf ⟨lParen, "("⟩, node nameRef [leaf ⟨ident, "x"⟩]],
    leaf ⟨whitespace, " "⟩, leaf ⟨minus, "-"⟩]).erase =
    .binary (some .subtract) (.var ⟨"x"⟩) .missing := rfl

/-- The name that a tree is, if it is one: the text of its identifier. -/
def erasedName? : SyntaxTree → Option Name
  | leaf _ => none
  | node kind ts =>
    if kind = name then (Piece.wordOf? ident (pieces ts)).map fun l => ⟨l.text⟩ else none

/-- A statement without its spelling; nothing is left of a definition without a name. -/
def erasedStatement? : SyntaxTree → Option Sentence
  | leaf _ => none
  | node kind ts =>
    if kind = variableDef then
      (ts.findSome? erasedName?).map fun n => .define n (Piece.first (pieces ts))
    else if kind.isExpr then some (.expr (node kind ts).erase)
    else none

/-- **A file without its spelling**: its statements, in order. -/
def erasure (t : SyntaxTree) : List Sentence := t.children.filterMap erasedStatement?

/-- What matters of one tree. -/
def piece? : SyntaxTree → Option Piece
  | leaf l => if l.isTrivia then none else some (.word l)
  | node kind ts => if kind.isExpr then some (.term (node kind ts).erase) else none

theorem pieces_eq_filterMap (ts : List SyntaxTree) : pieces ts = ts.filterMap piece? := by
  induction ts with
  | nil => rw [pieces, List.filterMap_nil]
  | cons t ts ih =>
    rw [List.filterMap_cons]
    cases t with
    | leaf l =>
      rw [pieces, piece?]
      split <;> simp [ih]
    | node kind us =>
      rw [pieces, piece?]
      split <;> simp [ih]

theorem term?_piece? (t : SyntaxTree) :
    t.piece?.bind Piece.term? = if t.isExpression then some t.erase else none := by
  cases t with
  | leaf l =>
    rw [piece?]
    split <;> rfl
  | node kind ts =>
    rw [piece?, isExpression]
    split <;> rfl

/-- The first expression among the pieces of trees. -/
theorem first_filterMap_piece? (ts : List SyntaxTree) :
    Piece.first (ts.filterMap piece?) = .nth ((ts.filter isExpression).map erase) 0 := by
  have hterms : (ts.filterMap piece?).filterMap Piece.term? = (ts.filter isExpression).map erase := by
    rw [List.filterMap_filterMap, ← List.filterMap_eq_map, List.filterMap_filter]
    exact List.filterMap_congr fun t _ => term?_piece? t
  rw [Piece.first, hterms, List.head?_eq_getElem?]
  rfl

end SyntaxTree

/-! ## What is left of a text is what it means -/

/-- A number of a text has a value unless it is out of range. -/
theorem Term.ofNumber_eq {text : String} {l : Lexeme} (h : l ∈ tokenize text) (hl : l.kind = intNumber) :
    ofNumber l = ((Text.Integer.parse? l.text.toList).map int).getD .missing := by
  have hrange := Lexeme.parse?_isNone_eq_false_iff h hl
  obtain ⟨d, ds, hsplit, hds⟩ := Lexeme.digits_of_intNumber h hl
  rw [ofNumber]
  cases hn : Text.Integer.parse? l.text.toList with
  | none =>
    rw [hn] at hrange
    rw [if_neg fun hle => absurd (hrange.mpr hle) (by simp)]
    rfl
  | some n =>
    have hsigned := (Option.filter_eq_some_iff.mp hn).1
    rw [hsplit, Text.Integer.signed?_of_digits hds, ← hsplit] at hsigned
    rw [hn] at hrange
    rw [if_pos (hrange.mp rfl), Lexeme.value, Option.some.inj hsigned]
    rfl

namespace Element

open SyntaxTree (pieces piece?)

variable {text : String} {e : Element}

/-- The pieces of a node are what matters of its parts. -/
theorem pieces_children (e : Element) : pieces e.tree.children = e.solid.filterMap (piece? ·.tree) := by
  rw [children_tree, SyntaxTree.pieces_eq_filterMap, List.filterMap_map, solid, List.filterMap_filter]
  refine List.filterMap_congr fun c _ => ?_
  cases hc : c.isTrivia with
  | false => rfl
  | true =>
    cases c with
    | word k start text => simp [piece?, Lexeme.isTrivia, show k.isTrivia = true from hc]
    | node => exact absurd hc (by simp)

theorem erase_tree_eq_ofPieces (h : e.isNode = true) :
    e.tree.erase = .ofPieces e.kind (pieces e.tree.children) := by
  cases e with
  | word => exact absurd h (by simp)
  | node => rw [tree_node, SyntaxTree.erase, SyntaxTree.children_node, kind]

/-- The first expression among the pieces of some elements. -/
theorem first_filterMap_piece? (es : List Element) : Piece.first (es.filterMap (piece? ·.tree)) =
    .nth ((es.filter isExpression).map (·.tree.erase)) 0 := by
  have h := SyntaxTree.first_filterMap_piece? (es.map tree)
  have hfilter : es.filter (SyntaxTree.isExpression ∘ tree) = es.filter isExpression :=
    List.filter_congr fun c _ => isExpression_tree c
  rwa [List.filterMap_map, List.filter_map, List.map_map, hfilter] at h

/-- The first expression among the pieces of a node is the first inside it. -/
theorem first_pieces_children (e : Element) :
    Piece.first (pieces e.tree.children) = .nth (e.expressions.map (·.tree.erase)) 0 := by
  rw [pieces_children, first_filterMap_piece?, expressions_eq]

theorem piece?_tree_of_isExpression (h : e.isExpression = true) :
    e.tree.piece? = some (.term e.tree.erase) := by
  cases e with
  | word => exact absurd h (by simp [isExpression])
  | node k start stop es =>
    rw [tree_node, piece?, if_pos]
    exact h

theorem piece?_tree_of_word (h : e.isNode = false) (ht : e.isTrivia = false) :
    ∃ l : Lexeme, e.tree.piece? = some (.word l) ∧ l.kind = e.kind := by
  cases e with
  | word k start word =>
    have hk : k.isTrivia = false := ht
    exact ⟨⟨k, word⟩, by simp [piece?, Lexeme.isTrivia, hk], rfl⟩
  | node => exact absurd h (by simp)

/-- A word that is the only part of a node is its only piece. -/
theorem pieces_of_solid {k : SyntaxKind} {start : Nat} {word : String}
    (h : e.solid = [.word k start word]) (hk : k.isTrivia = false) :
    pieces e.tree.children = [.word ⟨k, word⟩] := by
  rw [pieces_children, h]
  simp [piece?, Lexeme.isTrivia, hk]

/-- A literal has the value of its number. -/
theorem IsShaped.erase_of_literal (h : e.IsShaped) (hof : e.IsOf text) (hnode : e.isNode = true)
    (hk : e.kind = literal) : e.tree.erase = e.tree.term := by
  obtain ⟨start, word, hsolid, hlexemes, hvalue⟩ := h.exists_number hk
  have hmem := hof ⟨intNumber, word⟩ (by simp [hlexemes])
  rw [erase_tree_eq_ofPieces hnode, hk, pieces_of_solid hsolid rfl, h.term_of_literal hnode hk, hvalue,
    ← Term.ofNumber_eq hmem rfl]
  rfl

/-- The use of a name has the text of its identifier. -/
theorem IsShaped.erase_of_nameRef (h : e.IsShaped) (hnode : e.isNode = true) (hk : e.kind = nameRef) :
    e.tree.erase = e.tree.term := by
  obtain ⟨start, word, hsolid⟩ := h.solid_of_leaf (k := ident) (by rw [hk]; rfl)
  have htext : e.text = word := by simp [Element.text, h.lexemes_of_leaf hsolid rfl]
  rw [erase_tree_eq_ofPieces hnode, hk, pieces_of_solid hsolid rfl, h.term_of_nameRef hnode hk, htext]
  rfl

/-- A negation has a sign, whose operand is the first expression. -/
theorem IsShaped.erase_of_prefixExpr (h : e.IsShaped) (hnode : e.isNode = true)
    (hk : e.kind = prefixExpr) :
    e.tree.erase = .unary .negate (.nth (e.expressions.map (·.tree.erase)) 0) := by
  obtain ⟨w, cs, hsolid, hw⟩ := h.solid_of_prefixExpr hk
  have hsign : Piece.sign? (pieces e.tree.children) = some .negate := by
    cases w with
    | word k start word =>
      obtain rfl := Part.word.inj hw
      rw [pieces_children, hsolid]
      rfl
    | node => exact absurd hw (by simp [part])
  rw [erase_tree_eq_ofPieces hnode, hk, ← first_pieces_children, Term.ofPieces, hsign]
  rfl

/-- **The operands of a binary operation stand on either side of its operator.** -/
theorem IsShaped.erase_of_binExpr (h : e.IsShaped) (hnode : e.isNode = true) (hk : e.kind = binExpr) :
    ∃ op, e.operator? = some op ∧ e.tree.erase =
      .binary (some op) (.nth (e.expressions.map (·.tree.erase)) 0)
        (.nth (e.expressions.map (·.tree.erase)) 1) := by
  obtain ⟨l, w, cs, hsolid, hl, hw, hop, -, -⟩ := h.solid_of_binExpr hk
  obtain ⟨op, hop⟩ := Option.isSome_iff_exists.mp hop
  have hleft := (Bool.and_eq_true_iff.mp hl).1
  refine ⟨op, by rw [operator?, operatorWord?_of_solid hsolid hleft hw hop, Option.map_some], ?_⟩
  have hmem : w ∈ e.solid := by simp [hsolid]
  have ht : w.isTrivia = false := by simpa using (List.mem_filter.mp hmem).2
  obtain ⟨m, hword, hm⟩ := piece?_tree_of_word hw ht
  have hpieces : pieces e.tree.children =
      .term l.tree.erase :: .word m :: cs.filterMap (piece? ·.tree) := by
    rw [pieces_children, hsolid, List.filterMap_cons, piece?_tree_of_isExpression hl,
      List.filterMap_cons, hword]
  rw [erase_tree_eq_ofPieces hnode, hk, hpieces, Term.ofPieces_binExpr _ (hm ▸ hop),
    first_filterMap_piece?, expressions_of_solid hsolid hl hw]
  rfl

/-- The expressions inside a node leave behind what they mean if each of them does. -/
theorem map_erase_expressions (ih : ∀ c ∈ e.children, c.isExpression = true →
    c.tree.erase = c.tree.term) :
    e.expressions.map (·.tree.erase) = e.expressions.map (·.tree.term) := by
  refine List.map_congr_left fun c hc => ih c (mem_children_of_mem_expressions hc) ?_
  rw [expressions_eq] at hc
  exact (List.mem_filter.mp hc).2

/-- **What is left of an expression of a text is what it means.** -/
theorem erase_tree (e : Element) (h : e.IsTidy) (hof : e.IsOf text) (hexpr : e.isExpression = true) :
    e.tree.erase = e.tree.term := by
  obtain ⟨hnode, hkind⟩ := Bool.and_eq_true_iff.mp hexpr
  obtain ⟨shaped, -⟩ := h.self hnode
  have inner := map_erase_expressions fun c hc hexpr =>
    have := sizeOf_lt_of_mem_children hc
    erase_tree c (h.of_mem_children hc) (hof.of_mem_children hc) hexpr
  cases hk : e.kind with
  | literal => exact shaped.erase_of_literal hof hnode hk
  | nameRef => exact shaped.erase_of_nameRef hnode hk
  | prefixExpr =>
    rw [shaped.erase_of_prefixExpr hnode hk, inner, term_tree hnode, hk, Term.ofNode_prefixExpr]
  | binExpr =>
    obtain ⟨op, hop, herase⟩ := shaped.erase_of_binExpr hnode hk
    obtain ⟨op', hop', hterm⟩ := shaped.term_of_binExpr hnode hk
    obtain rfl := Option.some.inj (hop.symm.trans hop')
    rw [herase, hterm, inner]
  | parenExpr =>
    rw [term_tree hnode, hk, Term.ofNode_parenExpr, ← inner, ← first_pieces_children,
      erase_tree_eq_ofPieces hnode, hk]
    rfl
  | _ => exact absurd hkind (by simp [hk, isExpr])
termination_by sizeOf e

/-- A name has the text of its identifier. -/
theorem erasedName?_tree (h : e.IsTidy) : e.tree.erasedName? = e.tree.name? := by
  rw [Lowering.name?_tree h]
  cases e with
  | word => rfl
  | node k start stop es =>
    rw [tree_node, SyntaxTree.erasedName?, isNode_node, Bool.true_and, kind]
    by_cases hk : k = name
    · obtain ⟨shaped, -⟩ := h.self rfl
      obtain ⟨place, word, hsolid⟩ := shaped.solid_of_leaf (k := ident) (by rw [kind, hk]; rfl)
      have hpieces := pieces_of_solid hsolid rfl
      rw [tree_node, SyntaxTree.children_node] at hpieces
      rw [if_pos hk, if_pos (beq_iff_eq.mpr hk), hpieces, text, shaped.lexemes_of_leaf hsolid rfl]
      simp [Piece.wordOf?, Piece.word?]
    · rw [if_neg hk, if_neg (by simpa using hk)]

/-- **What is left of a statement of a text is what it means.** -/
theorem erasedStatement?_tree (h : e.IsTidy) (hof : e.IsOf text) :
    e.tree.erasedStatement? = e.tree.sentence? := by
  have inner := map_erase_expressions fun c hc =>
    erase_tree c (h.of_mem_children hc) (hof.of_mem_children hc)
  have names : e.tree.children.findSome? SyntaxTree.erasedName? =
      (e.tree.children.filterMap SyntaxTree.name?).head? := by
    rw [← List.head?_filterMap, children_tree, List.filterMap_map, List.filterMap_map]
    exact congrArg _ (List.filterMap_congr fun c hc => erasedName?_tree (h.of_mem_children hc))
  have value := first_pieces_children e
  rw [inner, ← terms_children] at value
  cases hnode : e.isNode with
  | false =>
    rw [sentence?_tree_of_not_stmt (by simp [hnode])]
    cases e with
    | word => rfl
    | node => exact absurd hnode (by simp)
  | true =>
    rw [sentence?_tree hnode, ← names, ← value]
    cases e with
    | word => exact absurd hnode (by simp)
    | node k start stop es =>
      rw [tree_node, SyntaxTree.erasedStatement?, SyntaxTree.children_node, kind]
      split
      · rfl
      · split
        · next hk =>
          have herase := erase_tree (node k start stop es) h hof hk
          rw [tree_node] at herase
          rw [herase]
        · rfl

end Element

/-- **What is left of a file is what it means.** -/
theorem Element.erasure_tree {text : String} {r : Element} (h : ∀ c ∈ r.children, c.IsTidy)
    (hof : ∀ c ∈ r.children, c.IsOf text) : r.tree.erasure = r.tree.sentences := by
  rw [SyntaxTree.erasure, SyntaxTree.sentences, Element.children_tree, List.filterMap_map,
    List.filterMap_map]
  exact List.filterMap_congr fun c hc => Element.erasedStatement?_tree (h c hc) (hof c hc)

end LosslessSyntax
