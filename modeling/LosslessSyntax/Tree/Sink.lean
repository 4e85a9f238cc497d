import LosslessSyntax.Event
import LosslessSyntax.Tree.Builder

/-!
# Tree/Sink — putting white space and comments back

Building instructions come from the grammar and so know nothing of white space and comments.  The sink
carries them out over all lexemes of the text.  Trivia goes in front of the next word or node: a
finished node is therefore held back until the next instruction, so that what separates two siblings
ends up between them and not inside the first.  The first node is the root and has the trivia at
either end of the text inside.
-/

namespace LosslessSyntax

/-- Where a sink stands with respect to the node started or finished last. -/
inductive Stage
  /-- The root has not been started. -/
  | beforeRoot
  /-- The current node is open. -/
  | inside
  /-- The current node is to be finished, but has been held back. -/
  | finishing
  deriving DecidableEq, Repr

/-- A tree under construction over the lexemes of a text. -/
structure Sink where
  /-- The lexemes not yet in the tree. -/
  rest : List Lexeme
  /-- The length in bytes of the text in the tree. -/
  offset : Nat
  /-- The number of lexemes in the tree. -/
  placed : Nat
  stage : Stage
  builder : TreeBuilder
  deriving Repr

namespace Sink

/-- What a sink cannot do. -/
inductive Failure
  /-- A word belongs to no node. -/
  | outsideRoot
  /-- A node is finished before one was started. -/
  | neverStarted
  /-- There is no word left. -/
  | outOfWords
  /-- At the end, the node started or finished last is not the root being finished. -/
  | rootNotClosed
  /-- At the end, not every lexeme is in the tree. -/
  | wordsLeft (placed all : Nat)
  /-- The instructions do not describe a tree. -/
  | malformed (e : TreeBuilder.Failure)
  deriving DecidableEq, Repr

/-- The report of a failure; there is none for instructions that do not describe a tree. -/
def Failure.message? : Failure → Option String
  | outsideRoot => some "internal error: entered unreachable code: token outside of the root node"
  | neverStarted => some <|
      "internal error: entered unreachable code: finished a node that was never started"
  | outOfWords => some <|
      "internal error: entered unreachable code: the parser consumed more tokens than were lexed"
  | rootNotClosed => some <|
      "internal error: entered unreachable code: the root node was not closed exactly once"
  | wordsLeft placed all => some <|
      "assertion \x60left == right\x60 failed: not all tokens were added to the tree\n" ++
        s!"  left: {placed}\n right: {all}"
  | malformed _ => none

/-- A sink over the lexemes of a text, before the first instruction. -/
def ofLexemes (ls : List Lexeme) : Sink := ⟨ls, 0, 0, .beforeRoot, .empty⟩

/-- Puts the next lexeme into the tree. -/
def place (s : Sink) (l : Lexeme) (rest : List Lexeme) : Sink :=
  { s with
    rest, offset := s.offset + l.length, placed := s.placed + 1, builder := s.builder.word l }

/-- Puts lexemes into the tree as long as they are trivia. -/
def placeTrivia (s : Sink) : Sink := go s.rest s
where
  go : List Lexeme → Sink → Sink
    | [], s => s
    | l :: ls, s => if l.isTrivia then go ls (s.place l ls) else s

/-- Finishes the current node. -/
def finishNode (s : Sink) : Except Failure Sink :=
  match s.builder.finish with
  | .ok builder => .ok { s with builder }
  | .error e => .error (.malformed e)

/-- Finishes the current node if it has been held back, and puts the trivia that follows into the
node around it. -/
def settle (s : Sink) : Except Failure Sink :=
  match s.stage with
  | .finishing => { s with stage := .inside }.finishNode.map placeTrivia
  | _ => .ok { s with stage := .inside }.placeTrivia

/-- Starts a node. -/
def start (s : Sink) (kind : SyntaxKind) : Except Failure Sink :=
  match s.stage with
  | .beforeRoot => .ok { s with stage := .inside, builder := s.builder.start kind }
  | _ => s.settle.map fun s => { s with builder := s.builder.start kind }

/-- Adds the next word that is not trivia. -/
def token (s : Sink) : Except Failure Sink :=
  match s.stage with
  | .beforeRoot => .error .outsideRoot
  | _ =>
    match s.settle with
    | .error e => .error e
    | .ok s =>
      match s.rest with
      | [] => .error .outOfWords
      | l :: ls => .ok (s.place l ls)

/-- Finishes the current node, and holds it back; if one was held back already, that one is finished
now. -/
def finish (s : Sink) : Except Failure Sink :=
  match s.stage with
  | .beforeRoot => .error .neverStarted
  | .inside => .ok { s with stage := .finishing }
  | .finishing => s.finishNode

/-- Notes an error behind the last word in the tree. -/
def error (s : Sink) (c : Complaint) : Sink :=
  { s with builder := s.builder.error ⟨c, .offset s.offset⟩ }

/-- Carries out an instruction. -/
def call (s : Sink) : Call → Except Failure Sink
  | .start kind => s.start kind
  | .token => s.token
  | .finish => s.finish
  | .error c => .ok (s.error c)

/-- Carries out instructions: how many were carried out, and the sink after the last one or what went
wrong. -/
def run (s : Sink) : List Call → Nat × Except Failure Sink
  | [] => (0, .ok s)
  | c :: cs =>
    match s.call c with
    | .error e => (0, .error e)
    | .ok s =>
      let (n, result) := s.run cs
      (n + 1, result)

/-- Carries out instructions one after the other. -/
def calls (s : Sink) (cs : List Call) : Except Failure Sink := cs.foldlM call s

/-- Finishes the root, with the trivia at the end of the text inside, and gives the tree and the
errors. -/
def build (s : Sink) : Except Failure (SyntaxTree × List SyntaxError) :=
  match s.stage with
  | .finishing =>
    match { s with stage := .inside }.placeTrivia.finishNode with
    | .error e => .error e
    | .ok s =>
      if s.rest.isEmpty then
        match s.builder.build with
        | .ok result => .ok result
        | .error e => .error (.malformed e)
      else .error (.wordsLeft s.placed (s.placed + s.rest.length))
  | _ => .error .rootNotClosed

end Sink

end LosslessSyntax
