import LosslessSyntax.Token

/-!
# Tree — syntax trees

A syntax tree keeps every word of the text it was read from at its leaves, white space and comments
included, so the text is the leaves laid end to end (`text`).  A tree does not know where in a text it
stands; `Tree/Element` says that.
-/

namespace LosslessSyntax

/-- A syntax tree: a word, or a node over a list of trees. -/
inductive SyntaxTree
  | leaf (lexeme : Lexeme)
  | node (kind : SyntaxKind) (children : List SyntaxTree)
  deriving Repr, Inhabited

namespace SyntaxTree

/-- The kind of the root. -/
def kind : SyntaxTree → SyntaxKind
  | leaf l => l.kind
  | node k _ => k

/-- The trees below the root. -/
def children : SyntaxTree → List SyntaxTree
  | leaf _ => []
  | node _ ts => ts

@[simp] theorem kind_leaf (l : Lexeme) : (leaf l).kind = l.kind := rfl

@[simp] theorem kind_node (k : SyntaxKind) (ts : List SyntaxTree) : (node k ts).kind = k := rfl

@[simp] theorem children_leaf (l : Lexeme) : (leaf l).children = [] := rfl

@[simp] theorem children_node (k : SyntaxKind) (ts : List SyntaxTree) :
    (node k ts).children = ts := rfl

/-! ## Leaves and text -/

mutual

/-- The words at the leaves, from left to right, in front of other words. -/
def leavesOnto : SyntaxTree → List Lexeme → List Lexeme
  | leaf l, ls => l :: ls
  | node _ ts, ls => leavesAllOnto ts ls

/-- The words at the leaves of a list of trees, in front of other words. -/
def leavesAllOnto : List SyntaxTree → List Lexeme → List Lexeme
  | [], ls => ls
  | t :: ts, ls => t.leavesOnto (leavesAllOnto ts ls)

end

mutual

theorem leavesOnto_append : ∀ (t : SyntaxTree) (ls ms : List Lexeme),
    t.leavesOnto (ls ++ ms) = t.leavesOnto ls ++ ms
  | leaf _, _, _ => by simp only [leavesOnto, List.cons_append]
  | node _ ts, ls, ms => by simp only [leavesOnto, leavesAllOnto_append ts ls ms]

theorem leavesAllOnto_append : ∀ (ts : List SyntaxTree) (ls ms : List Lexeme),
    leavesAllOnto ts (ls ++ ms) = leavesAllOnto ts ls ++ ms
  | [], _, _ => by simp only [leavesAllOnto]
  | t :: ts, ls, ms => by
      simp only [leavesAllOnto, leavesAllOnto_append ts ls ms, leavesOnto_append t]

end

/-- The words at the leaves, from left to right. -/
def leaves (t : SyntaxTree) : List Lexeme := t.leavesOnto []

/-- The words at the leaves of a list of trees, from left to right. -/
def leavesAll (ts : List SyntaxTree) : List Lexeme := leavesAllOnto ts []

theorem leavesOnto_eq (t : SyntaxTree) (ls : List Lexeme) : t.leavesOnto ls = t.leaves ++ ls :=
  leavesOnto_append t [] ls

theorem leavesAllOnto_eq (ts : List SyntaxTree) (ls : List Lexeme) :
    leavesAllOnto ts ls = leavesAll ts ++ ls :=
  leavesAllOnto_append ts [] ls

@[simp] theorem leaves_leaf (l : Lexeme) : (leaf l).leaves = [l] := by rw [leaves, leavesOnto]

@[simp] theorem leaves_node (k : SyntaxKind) (ts : List SyntaxTree) :
    (node k ts).leaves = leavesAll ts := by rw [leaves, leavesOnto, leavesAll]

@[simp] theorem leavesAll_nil : leavesAll [] = [] := by rw [leavesAll, leavesAllOnto]

@[simp] theorem leavesAll_cons (t : SyntaxTree) (ts : List SyntaxTree) :
    leavesAll (t :: ts) = t.leaves ++ leavesAll ts := by
  rw [leavesAll, leavesAllOnto, leavesOnto_eq, leavesAll]

@[simp] theorem leavesAll_append (ts us : List SyntaxTree) :
    leavesAll (ts ++ us) = leavesAll ts ++ leavesAll us := by
  induction ts with
  | nil => simp
  | cons t ts ih => simp [ih]

theorem leavesAll_eq_flatMap (ts : List SyntaxTree) : leavesAll ts = ts.flatMap leaves := by
  induction ts with
  | nil => simp
  | cons t ts ih => simp [ih]

/-- The text a tree was read from. -/
def text (t : SyntaxTree) : String := Lexeme.spell t.leaves

/-! ## Size -/

mutual

/-- The number of nodes. -/
def nodeCount : SyntaxTree → Nat
  | leaf _ => 0
  | node _ ts => nodeCountAll ts + 1

/-- The number of nodes of a list of trees. -/
def nodeCountAll : List SyntaxTree → Nat
  | [] => 0
  | t :: ts => t.nodeCount + nodeCountAll ts

end

mutual

/-- The number of levels, the root being the first. -/
def depth : SyntaxTree → Nat
  | leaf _ => 1
  | node _ ts => depthAll ts + 1

/-- The number of levels of the deepest of a list of trees. -/
def depthAll : List SyntaxTree → Nat
  | [] => 0
  | t :: ts => max t.depth (depthAll ts)

end

/-- The number of leaves. -/
def leafCount (t : SyntaxTree) : Nat := t.leaves.length

end SyntaxTree

end LosslessSyntax
