import LosslessSyntax.Proofs.Tree.Placement

/-!
# Proofs/Tree/Bare — trees without trivia, and trees without places

What a tree says does not depend on the white space and the comments in it, nor on where it stands.  A
bare tree has no trivia (`SyntaxTree.bare`); planting an outline in any text and taking the trivia out
again leaves the same bare tree (`Outline.bareAll_plantAll`).  An element without its places is the tree
that was laid out (`Element.tree`).
-/

namespace LosslessSyntax

open Lexeme (margin behindMargin significant significant_behindMargin behindMargin_eq_cons
  isTrivia_of_mem_margin)

/-! ## Trees without trivia -/

namespace SyntaxTree

/-- Whether a tree is a word that the grammar passes over. -/
def isTrivia : SyntaxTree → Bool
  | leaf l => l.isTrivia
  | node .. => false

@[simp] theorem isTrivia_leaf (l : Lexeme) : (leaf l).isTrivia = l.isTrivia := rfl

@[simp] theorem isTrivia_node (kind : SyntaxKind) (ts : List SyntaxTree) :
    (node kind ts).isTrivia = false := rfl

mutual

/-- **A tree without the trivia inside it.** -/
def bare : SyntaxTree → SyntaxTree
  | leaf l => leaf l
  | node kind ts => node kind (bareAll ts)

/-- Trees without the trivia among them and inside them. -/
def bareAll : List SyntaxTree → List SyntaxTree
  | [] => []
  | t :: ts => if t.isTrivia then bareAll ts else t.bare :: bareAll ts

end

@[simp] theorem bare_leaf (l : Lexeme) : (leaf l).bare = leaf l := by rw [bare]

@[simp] theorem bare_node (kind : SyntaxKind) (ts : List SyntaxTree) :
    (node kind ts).bare = node kind (bareAll ts) := by rw [bare]

@[simp] theorem bareAll_nil : bareAll [] = [] := by rw [bareAll]

theorem bareAll_cons (t : SyntaxTree) (ts : List SyntaxTree) :
    bareAll (t :: ts) = if t.isTrivia then bareAll ts else t.bare :: bareAll ts := by rw [bareAll]

theorem bareAll_eq_map (ts : List SyntaxTree) :
    bareAll ts = (ts.filter fun t => !t.isTrivia).map bare := by
  induction ts with
  | nil => simp
  | cons t ts ih =>
    rw [bareAll_cons]
    by_cases ht : t.isTrivia = true <;> simp [ht, ih]

@[simp] theorem bareAll_append (ts us : List SyntaxTree) :
    bareAll (ts ++ us) = bareAll ts ++ bareAll us := by
  simp [bareAll_eq_map]

theorem bareAll_map_leaf {ls : List Lexeme} (h : ∀ l ∈ ls, l.isTrivia = true) :
    bareAll (ls.map leaf) = [] := by
  rw [bareAll_eq_map, List.map_eq_nil_iff, List.filter_eq_nil_iff]
  intro t ht
  obtain ⟨l, hl, rfl⟩ := List.mem_map.mp ht
  simp [h l hl]

end SyntaxTree

open SyntaxTree (leaf leavesAll)

/-! ## Outlines without complaints -/

namespace Outline

mutual

/-- The tree of an outline, without trivia; a complaint is not in the tree. -/
def bare : Outline → List SyntaxTree
  | word l => [leaf l]
  | error _ => []
  | node kind os => [.node kind (bareAll os)]

/-- The trees of outlines, without trivia. -/
def bareAll : List Outline → List SyntaxTree
  | [] => []
  | o :: os => o.bare ++ bareAll os

end

@[simp] theorem bare_word (l : Lexeme) : (word l).bare = [leaf l] := by rw [bare]

@[simp] theorem bare_error (c : Complaint) : (error c).bare = [] := by rw [bare]

@[simp] theorem bare_node (kind : SyntaxKind) (os : List Outline) :
    (node kind os).bare = [.node kind (bareAll os)] := by rw [bare]

@[simp] theorem bareAll_nil : bareAll [] = [] := by rw [bareAll]

@[simp] theorem bareAll_cons (o : Outline) (os : List Outline) :
    bareAll (o :: os) = o.bare ++ bareAll os := by rw [bareAll]

@[simp] theorem bareAll_append (os ps : List Outline) :
    bareAll (os ++ ps) = bareAll os ++ bareAll ps := by
  induction os with
  | nil => simp
  | cons o os ih => simp [ih]

mutual

/-- **A planted outline without its trivia is the tree of the outline**, whatever the text. -/
theorem bareAll_plant : ∀ (o : Outline) (offset : Nat) {ls ws : List Lexeme},
    significant ls = o.words ++ ws → SyntaxTree.bareAll (o.plant offset ls).trees = o.bare
  | word l, offset, ls, ws, h => by
      rw [words_word, List.singleton_append] at h
      have ht := Lexeme.isTrivia_of_significant_eq_cons h
      rw [plant_word, List.map_append, SyntaxTree.bareAll_append,
        SyntaxTree.bareAll_map_leaf fun _ => isTrivia_of_mem_margin]
      simp [SyntaxTree.bareAll_cons, ht]
  | error c, offset, ls, ws, _ => by simp [plant_error]
  | node kind os, offset, ls, ws, h => by
      rw [words_node, ← significant_behindMargin] at h
      rw [plant_node, SyntaxTree.bareAll_append,
        SyntaxTree.bareAll_map_leaf fun _ => isTrivia_of_mem_margin]
      simp [SyntaxTree.bareAll_cons, bareAll_plantAll os _ h]

theorem bareAll_plantAll : ∀ (os : List Outline) (offset : Nat) {ls ws : List Lexeme},
    significant ls = wordsAll os ++ ws →
    SyntaxTree.bareAll (plantAll os offset ls).trees = bareAll os
  | [], offset, ls, ws, _ => by simp [plantAll_nil]
  | o :: os, offset, ls, ws, h => by
      rw [wordsAll_cons, List.append_assoc] at h
      rw [plantAll_cons, SyntaxTree.bareAll_append, bareAll_plant o offset h,
        bareAll_plantAll os _ (covers_plant o offset h).significant_eq, bareAll_cons]

end

/-- Without trivia, the tree of a text is the tree of the outlines under its root. -/
theorem bare_rooted (kind : SyntaxKind) {os : List Outline} {ls : List Lexeme}
    (h : significant ls = wordsAll os) : (rooted kind os ls).bare = .node kind (bareAll os) := by
  rw [← List.append_nil (wordsAll os)] at h
  have covers := covers_plantAll os 0 h
  rw [rooted, SyntaxTree.bare_node, SyntaxTree.bareAll_append, bareAll_plantAll os 0 h,
    SyntaxTree.bareAll_map_leaf fun _ => covers.isTrivia_of_mem_rest, List.append_nil]

end Outline

/-! ## Trees without places -/

namespace Element

mutual

/-- **The tree that stands in a place.** -/
def tree : Element → SyntaxTree
  | word kind _ text => leaf ⟨kind, text⟩
  | node kind _ _ es => .node kind (trees es)

/-- The trees that stand one behind the other. -/
def trees : List Element → List SyntaxTree
  | [] => []
  | e :: es => e.tree :: trees es

end

@[simp] theorem tree_word (kind : SyntaxKind) (start : Nat) (text : String) :
    (word kind start text).tree = leaf ⟨kind, text⟩ := by rw [tree]

@[simp] theorem tree_node (kind : SyntaxKind) (start stop : Nat) (es : List Element) :
    (node kind start stop es).tree = .node kind (trees es) := by rw [tree]

theorem trees_eq_map (es : List Element) : trees es = es.map tree := by
  induction es with
  | nil => rw [trees, List.map_nil]
  | cons e es ih => rw [trees, ih, List.map_cons]

@[simp] theorem children_tree (e : Element) : e.tree.children = e.children.map tree := by
  cases e <;> simp [children, trees_eq_map]

mutual

/-- The words of an element are the leaves of its tree. -/
theorem leaves_tree : ∀ e : Element, e.tree.leaves = e.lexemes
  | word .. => by rw [tree_word, SyntaxTree.leaves_leaf, lexemes_word]
  | node _ _ _ es => by rw [tree_node, SyntaxTree.leaves_node, lexemes_node, leavesAll_trees es]

theorem leavesAll_trees : ∀ es : List Element, SyntaxTree.leavesAll (trees es) = lexemesAll es
  | [] => by rw [trees, SyntaxTree.leavesAll_nil, lexemesAll_nil]
  | e :: es => by
      rw [trees, SyntaxTree.leavesAll_cons, lexemesAll_cons, leaves_tree e, leavesAll_trees es]

end

end Element

namespace SyntaxTree

mutual

/-- What was laid out is the tree that stands there. -/
theorem tree_placedAt : ∀ (t : SyntaxTree) (start : Nat), (t.placedAt start).tree = t
  | leaf l, start => by rw [placedAt_leaf, Element.tree_word]
  | node kind ts, start => by rw [placedAt_node, Element.tree_node, trees_placedAllAt ts]

theorem trees_placedAllAt : ∀ (ts : List SyntaxTree) (start : Nat),
    Element.trees (placedAllAt start ts) = ts
  | [], start => by rw [placedAllAt_nil, Element.trees]
  | t :: ts, start => by rw [placedAllAt_cons, Element.trees, tree_placedAt t, trees_placedAllAt ts]

end

end SyntaxTree

end LosslessSyntax
