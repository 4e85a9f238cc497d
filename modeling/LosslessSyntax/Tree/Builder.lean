import LosslessSyntax.SyntaxError
import LosslessSyntax.Tree

/-!
# Tree/Builder — building a tree from left to right

A builder takes nodes and words in the order of the text.  Besides the trees of the innermost open
node it keeps, for every open node, the trees that stand before it in the node around it.  A node that
is never finished does not exist: its children count as those of the node around it, and in the end
exactly one node must be left over.
-/

namespace LosslessSyntax

/-- A node that has been started and not finished: its kind, and the trees before it, the nearest
first. -/
structure Frame where
  kind : SyntaxKind
  before : List SyntaxTree
  deriving Repr

/-- A tree under construction. -/
structure TreeBuilder where
  /-- The trees of the innermost open node so far, the last first. -/
  current : List SyntaxTree
  /-- The open nodes, the innermost first. -/
  frames : List Frame
  /-- The errors noted so far. -/
  errors : Array SyntaxError
  deriving Repr

namespace TreeBuilder

/-- What a builder cannot do. -/
inductive Failure
  /-- A node is finished where none is open. -/
  | nothingOpen
  /-- What was built is not one single node. -/
  | noSingleRoot
  deriving DecidableEq, Repr

/-- A builder that has not built anything. -/
def empty : TreeBuilder := ⟨[], [], #[]⟩

/-- Adds a tree to the current node. -/
def add (b : TreeBuilder) (t : SyntaxTree) : TreeBuilder := { b with current := t :: b.current }

/-- Adds a word to the current node. -/
def word (b : TreeBuilder) (l : Lexeme) : TreeBuilder := b.add (.leaf l)

/-- Starts a node. -/
def start (b : TreeBuilder) (kind : SyntaxKind) : TreeBuilder :=
  { b with current := [], frames := ⟨kind, b.current⟩ :: b.frames }

/-- Finishes the current node. -/
def finish (b : TreeBuilder) : Except Failure TreeBuilder :=
  match b.frames with
  | [] => .error .nothingOpen
  | f :: fs =>
    .ok { b with current := .node f.kind b.current.reverse :: f.before, frames := fs }

/-- Notes an error. -/
def error (b : TreeBuilder) (e : SyntaxError) : TreeBuilder :=
  { b with errors := b.errors.push e }

/-- The trees that are not part of a finished node, from left to right. -/
def loose (b : TreeBuilder) : List SyntaxTree :=
  b.frames.foldl (fun ts f => f.before.reverse ++ ts) b.current.reverse

/-- The tree, once everything has been added, with the errors noted on the way. -/
def build (b : TreeBuilder) : Except Failure (SyntaxTree × List SyntaxError) :=
  match b.loose with
  | [.node kind ts] => .ok (.node kind ts, b.errors.toList)
  | _ => .error .noSingleRoot

/-! ## Building by name -/

/-- One operation of a builder. -/
inductive Step
  | start (kind : SyntaxKind)
  | word (l : Lexeme)
  | finish
  | error (e : SyntaxError)
  deriving Repr

/-- Carries out a step. -/
def step (b : TreeBuilder) : Step → Except Failure TreeBuilder
  | .start kind => .ok (b.start kind)
  | .word l => .ok (b.word l)
  | .finish => b.finish
  | .error e => .ok (b.error e)

/-- Carries out a script: how many steps were carried out, and the builder after the last one or
what went wrong. -/
def run (b : TreeBuilder) : List Step → Nat × Except Failure TreeBuilder
  | [] => (0, .ok b)
  | x :: xs =>
    match b.step x with
    | .error e => (0, .error e)
    | .ok b =>
      let (n, result) := b.run xs
      (n + 1, result)

end TreeBuilder

end LosslessSyntax
