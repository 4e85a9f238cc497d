import LosslessSyntax.Parse
import LosslessSyntax.Proofs.Body.Meaning
import LosslessSyntax.Proofs.Tree.Halves

/-!
# Proofs/Parse/Literals — the errors of literals, tree by tree

Whether a literal has a value is seen from its word, so the errors of the literals of a tree can be told
from the tree and the place where it begins (`SyntaxTree.literalErrorsAt`).  Moving the tree moves the
errors along, and without its trivia a tree has as many of them.
-/

namespace LosslessSyntax

open Lexeme (extent)
open SyntaxKind SyntaxTree

/-! ## Errors of trees -/

namespace SyntaxTree

/-- Whether a literal over some trees has a number too large to have a value. -/
def isTooLarge (ts : List SyntaxTree) : Bool :=
  (ownWords ts).head?.any fun w => w.kind == intNumber && (Text.Integer.parse? w.text.toList).isNone

theorem isTooLarge_bareAll (ts : List SyntaxTree) : isTooLarge (bareAll ts) = isTooLarge ts := by
  rw [isTooLarge, ownWords_bareAll, isTooLarge]

mutual

/-- **The errors of the literals of a tree** that is laid out from a place. -/
def literalErrorsAt : Nat → SyntaxTree → List SyntaxError
  | _, leaf _ => []
  | start, node kind ts =>
    (if kind == literal && isTooLarge ts then
      [⟨.literalTooLarge, .range ⟨start, start + extent (leavesAll ts)⟩⟩] else []) ++
      literalErrorsAllAt start ts

/-- The errors of the literals of trees that are laid out one behind the other. -/
def literalErrorsAllAt : Nat → List SyntaxTree → List SyntaxError
  | _, [] => []
  | start, t :: ts => literalErrorsAt start t ++ literalErrorsAllAt (start + extent t.leaves) ts

end

theorem literalErrorsAt_leaf (start : Nat) (l : Lexeme) : literalErrorsAt start (leaf l) = [] := by
  rw [literalErrorsAt]

theorem literalErrorsAt_node (start : Nat) (kind : SyntaxKind) (ts : List SyntaxTree) :
    literalErrorsAt start (node kind ts) =
      (if kind == literal && isTooLarge ts then
        [⟨.literalTooLarge, .range ⟨start, start + extent (leavesAll ts)⟩⟩] else []) ++
        literalErrorsAllAt start ts := by
  rw [literalErrorsAt]

@[simp] theorem literalErrorsAllAt_nil (start : Nat) : literalErrorsAllAt start [] = [] := by
  rw [literalErrorsAllAt]

@[simp] theorem literalErrorsAllAt_cons (start : Nat) (t : SyntaxTree) (ts : List SyntaxTree) :
    literalErrorsAllAt start (t :: ts) =
      literalErrorsAt start t ++ literalErrorsAllAt (start + extent t.leaves) ts := by
  rw [literalErrorsAllAt]

theorem literalErrorsAllAt_append (ts us : List SyntaxTree) (start : Nat) :
    literalErrorsAllAt start (ts ++ us) =
      literalErrorsAllAt start ts ++ literalErrorsAllAt (start + extent (leavesAll ts)) us := by
  induction ts generalizing start with
  | nil => simp
  | cons t ts ih => simp [ih, Nat.add_assoc]

mutual

/-- **The errors of literals move along with the tree.** -/
theorem literalErrorsAt_add : ∀ (t : SyntaxTree) (n start : Nat),
    literalErrorsAt (n + start) t = (literalErrorsAt start t).map (SyntaxError.shift n)
  | leaf l, n, start => by rw [literalErrorsAt_leaf, literalErrorsAt_leaf, List.map_nil]
  | node kind ts, n, start => by
      rw [literalErrorsAt_node, literalErrorsAt_node, List.map_append, literalErrorsAllAt_add ts]
      split
      · rw [List.map_singleton, SyntaxError.shift, Location.shift, TextRange.shift, Nat.add_assoc]
      · rw [List.map_nil]

theorem literalErrorsAllAt_add : ∀ (ts : List SyntaxTree) (n start : Nat),
    literalErrorsAllAt (n + start) ts = (literalErrorsAllAt start ts).map (SyntaxError.shift n)
  | [], n, start => by rw [literalErrorsAllAt_nil, literalErrorsAllAt_nil, List.map_nil]
  | t :: ts, n, start => by
      rw [literalErrorsAllAt_cons, literalErrorsAllAt_cons, List.map_append, literalErrorsAt_add t,
        Nat.add_assoc, literalErrorsAllAt_add ts]

end

theorem literalErrorsAt_of_isTrivia {t : SyntaxTree} (h : t.isTrivia = true) (start : Nat) :
    literalErrorsAt start t = [] := by
  cases t with
  | leaf => rw [literalErrorsAt_leaf]
  | node => exact absurd h (by simp)

mutual

/-- **Trivia has no part in the number of errors.** -/
theorem length_literalErrorsAt_bare : ∀ (t : SyntaxTree) (start place : Nat),
    (literalErrorsAt start t.bare).length = (literalErrorsAt place t).length
  | leaf l, start, place => by rw [bare_leaf, literalErrorsAt_leaf, literalErrorsAt_leaf]
  | node kind ts, start, place => by
      rw [bare_node, literalErrorsAt_node, literalErrorsAt_node, isTooLarge_bareAll,
        List.length_append, List.length_append, length_literalErrorsAllAt_bareAll ts start place]
      split <;> rfl

theorem length_literalErrorsAllAt_bareAll : ∀ (ts : List SyntaxTree) (start place : Nat),
    (literalErrorsAllAt start (bareAll ts)).length = (literalErrorsAllAt place ts).length
  | [], start, place => by rw [bareAll_nil, literalErrorsAllAt_nil, literalErrorsAllAt_nil]
  | t :: ts, start, place => by
      rw [bareAll_cons, literalErrorsAllAt_cons, List.length_append]
      split
      · next ht =>
        rw [literalErrorsAt_of_isTrivia ht, List.length_nil, Nat.zero_add]
        exact length_literalErrorsAllAt_bareAll ts _ _
      · rw [literalErrorsAllAt_cons, List.length_append, length_literalErrorsAt_bare t start place]
        rw [length_literalErrorsAllAt_bareAll ts _ (place + extent t.leaves)]

end

end SyntaxTree

/-! ## Errors of elements -/

namespace Element

theorem solidWord?_tree_word (k : SyntaxKind) (start : Nat) (text : String) :
    (word k start text).tree.solidWord? = if k.isTrivia then none else some ⟨k, text⟩ := by
  rw [tree_word, solidWord?]
  rfl

/-- The word of a literal is the first of the words of its own. -/
theorem head?_ownWords (e : Element) :
    (ownWords e.tree.children).head? = e.literalWord?.bind (solidWord? ·.tree) := by
  rw [children_tree, ownWords, literalWord?, firstWord?, childWords]
  induction e.children with
  | nil => rfl
  | cons c cs ih =>
    rw [List.map_cons, List.filterMap_cons]
    cases c with
    | word k start text =>
      rw [solidWord?_tree_word, List.filter_cons_of_pos (by simp), List.find?_cons, kind]
      cases hk : k.isTrivia with
      | true => exact ih
      | false => simp [solidWord?, Lexeme.isTrivia, hk]
    | node =>
      rw [solidWord?_tree_of_isNode rfl, List.filter_cons_of_neg (by simp)]
      exact ih

/-- A literal is an integer without a value exactly if its number is too large. -/
theorem isTooLarge_children (e : Element) :
    isTooLarge e.tree.children = (e.isInteger && e.intValue?.isNone) := by
  rw [isTooLarge, head?_ownWords, isInteger, intValue?]
  cases hw : e.literalWord? with
  | none => rfl
  | some w =>
    have hword : w.isNode = false := by
      have hmem := List.mem_of_find?_eq_some (by rwa [literalWord?, firstWord?] at hw)
      simpa using (List.mem_filter.mp hmem).2
    cases w with
    | word k start text =>
      rw [Option.bind_some, solidWord?_tree_word]
      cases k <;> rfl
    | node => exact absurd hword (by simp)

end Element

namespace Parse

/-- The errors of the literals among some nodes. -/
def literalErrorsOf (ns : List Element) : List SyntaxError :=
  (ns.filter fun n => n.kind == literal && n.isInteger && n.intValue?.isNone).map
    fun n => ⟨.literalTooLarge, .range n.range⟩

theorem literalErrorsOf_append (ns ms : List Element) :
    literalErrorsOf (ns ++ ms) = literalErrorsOf ns ++ literalErrorsOf ms := by
  simp [literalErrorsOf]

theorem literalErrorsOf_cons (n : Element) (ns : List Element) : literalErrorsOf (n :: ns) =
    (if n.kind == literal && isTooLarge n.tree.children then
      [⟨.literalTooLarge, .range n.range⟩] else []) ++ literalErrorsOf ns := by
  rw [Element.isTooLarge_children, ← Bool.and_assoc, literalErrorsOf, List.filter_cons]
  split <;> rfl

mutual

theorem literalErrorsOf_nodes_placedAt : ∀ (t : SyntaxTree) (start : Nat),
    literalErrorsOf (t.placedAt start).nodes = literalErrorsAt start t
  | leaf l, start => by
      rw [placedAt_leaf, literalErrorsAt_leaf, Element.nodes_word]
      rfl
  | node kind ts, start => by
      rw [placedAt_node, Element.nodes_node, literalErrorsOf_cons, literalErrorsAt_node,
        literalErrorsOf_nodesAll_placedAllAt ts, endOf_placedAllAt, Element.tree_node,
        trees_placedAllAt, children_node]
      rfl

theorem literalErrorsOf_nodesAll_placedAllAt : ∀ (ts : List SyntaxTree) (start : Nat),
    literalErrorsOf (Element.nodesAll (placedAllAt start ts)) = literalErrorsAllAt start ts
  | [], start => by
      rw [placedAllAt_nil, literalErrorsAllAt_nil, Element.nodesAll_nil]
      rfl
  | t :: ts, start => by
      rw [placedAllAt_cons, Element.nodesAll_cons, literalErrorsOf_append, literalErrorsAllAt_cons,
        literalErrorsOf_nodes_placedAt t, literalErrorsOf_nodesAll_placedAllAt ts, stop_placedAt]

end

/-- **The errors of the literals of a parse are those of its tree.** -/
theorem literalErrors_root (p : Parse) : literalErrors p.root = literalErrorsAt 0 p.tree :=
  literalErrorsOf_nodes_placedAt p.tree 0

end Parse

end LosslessSyntax
