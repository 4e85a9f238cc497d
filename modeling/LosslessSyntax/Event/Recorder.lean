import LosslessSyntax.Event
import LosslessSyntax.KindSet
import LosslessSyntax.TokenStream

/-!
# Event/Recorder — writing down a parse

A recorder reads a stream of tokens and writes the record of what the grammar makes of them.  A node
is opened by leaving a hole in the record and closed by filling it in; a closed node may be enclosed
by a node that is opened later, by linking the one to the other.

Two things can go wrong, and neither stops the recording.  A rule that looks ahead again and again
without reading a token or closing a node is stuck, so the recorder counts its `looks` and keeps the
longest such wait.  A handle that does not lead where it should is a `Misuse`, and the first one is
kept.  `failure?` says whether anything went wrong.
-/

namespace LosslessSyntax

/-- The handle of a node that has been opened and not yet closed: the place of its hole. -/
structure OpenNode where
  slot : Nat
  deriving DecidableEq, Repr, Inhabited

/-- The handle of a closed node: the place of its start, and its kind. -/
structure ClosedNode where
  slot : Nat
  kind : SyntaxKind
  deriving DecidableEq, Repr, Inhabited

/-- A handle, or a rule, that was used where it does not fit. -/
inductive Misuse
  /-- A node is closed at a place that holds no hole. -/
  | noHole (slot : Nat) (found : Option Event)
  /-- A node is enclosed at a place where none starts. -/
  | noStart (slot : Nat) (found : Option Event)
  /-- A rule begins at a token that is not its own. -/
  | wrongToken (wanted : SyntaxKind)
  deriving DecidableEq, Repr

/-- The record of a parse in progress. -/
structure Recorder where
  /-- The tokens that are still to be read. -/
  stream : TokenStream
  /-- What has been recorded so far. -/
  log : Array Event
  /-- How often the next token was looked at since the last progress. -/
  looks : Nat
  /-- The most that `looks` has ever been. -/
  longest : Nat
  /-- The first misuse, if there was one. -/
  misuse : Option Misuse
  deriving Repr

namespace Recorder

/-- A recorder that has not recorded anything yet. -/
def ofStream (s : TokenStream) : Recorder := ⟨s, #[], 0, 0, none⟩

/-- A recorder at the start of a text. -/
def ofTokens (ts : List Token) : Recorder := ofStream (.ofTokens ts)

/-- Adds an entry to the record. -/
def record (r : Recorder) (e : Event) : Recorder := { r with log := r.log.push e }

/-- Keeps the first misuse. -/
def blame (r : Recorder) (m : Misuse) : Recorder := { r with misuse := r.misuse <|> some m }

/-! ## Looking at the next token -/

/-- The kind of the next token, if there is one. -/
def peek (r : Recorder) : Option SyntaxKind × Recorder :=
  let looks := r.looks + 1
  (r.stream.next?, { r with looks, longest := max r.longest looks })

/-- Whether the next token is of a kind. -/
def isAt (r : Recorder) (kind : SyntaxKind) : Bool × Recorder :=
  let (k, r) := r.peek
  (k == some kind, r)

/-- Whether the next token is of a kind in the set. -/
def isAtAny (r : Recorder) (kinds : KindSet) : Bool × Recorder :=
  let (k, r) := r.peek
  (k.any kinds.contains, r)

/-- Whether every token has been read. -/
def isAtEnd (r : Recorder) : Bool × Recorder :=
  let (k, r) := r.peek
  (k.isNone, r)

/-- Insists that the next token is of a kind. -/
def insist (r : Recorder) (kind : SyntaxKind) : Recorder :=
  let (here, r) := r.isAt kind
  if here then r else r.blame (.wrongToken kind)

/-! ## Nodes -/

/-- Opens a node: what is recorded from here until it is closed belongs to it. -/
def start (r : Recorder) : OpenNode × Recorder := (⟨r.log.size⟩, r.record .hole)

/-- Closes a node and gives it a kind. -/
def close (r : Recorder) (n : OpenNode) (kind : SyntaxKind) : ClosedNode × Recorder :=
  (⟨n.slot, kind⟩,
    match r.log[n.slot]? with
    | some .hole =>
      { r with log := (r.log.setIfInBounds n.slot (.start kind none)).push .finish, looks := 0 }
    | found => r.blame (.noHole n.slot found))

/-- Opens a node that encloses a closed one and everything recorded after it. -/
def enclose (r : Recorder) (n : ClosedNode) : OpenNode × Recorder :=
  let m : OpenNode := ⟨r.log.size⟩
  (m,
    match r.log[n.slot]? with
    | some (.start kind _) =>
      { r with
        log := (r.log.setIfInBounds n.slot (.start kind (some (m.slot - n.slot)))).push .hole }
    | found => (r.record .hole).blame (.noStart n.slot found))

/-! ## Reading and complaining -/

/-- Reads the next token; at the end of the text there is nothing to do. -/
def take (r : Recorder) : Recorder :=
  match r.stream.advance? with
  | none => r
  | some (_, stream) => { r with stream, log := r.log.push .token, looks := 0 }

/-- Reads the next token if it is of a kind, and says whether it was. -/
def eat (r : Recorder) (kind : SyntaxKind) : Bool × Recorder :=
  match r.isAt kind with
  | (true, r) => (true, r.take)
  | (false, r) => (false, r)

/-- Records a complaint. -/
def complain (r : Recorder) (c : Complaint) : Recorder := r.record (.error c)

/-- Reads the next token if it is of a kind and complains otherwise. -/
def expect (r : Recorder) (kind : SyntaxKind) : Bool × Recorder :=
  match r.eat kind with
  | (true, r) => (true, r)
  | (false, r) => (false, r.complain (.expected kind))

/-- Complains, and makes an error node of the next token unless it is one at which an enclosing rule
can go on. -/
def recover (r : Recorder) (c : Complaint) (stops : KindSet) : Recorder :=
  match r.isAtEnd with
  | (true, r) => r.complain c
  | (false, r) =>
    match r.isAtAny stops with
    | (true, r) => r.complain c
    | (false, r) =>
      let (n, r) := r.start
      ((r.complain c).take.close n .error).2

/-! ## What can go wrong -/

/-- How often a rule may look at the next token without any progress. -/
def lookLimit : Nat := 10000

/-- What went wrong while recording. -/
inductive Failure
  /-- A rule kept looking ahead without any progress. -/
  | stuck
  /-- A handle or a rule was used where it does not fit. -/
  | misuse (m : Misuse)
  /-- A node was opened and never closed. -/
  | leftOpen
  /-- A handle was used twice, or was never given out. -/
  | unknownHandle
  deriving DecidableEq, Repr

/-- The report of a failure; there is none for a place outside the record. -/
def Failure.message? : Failure → Option String
  | stuck => some "the parser seems stuck"
  | misuse (.noHole slot (some e)) => some <|
      "internal error: entered unreachable code: " ++
        s!"marker at {slot} refers to {e.describe} instead of a placeholder"
  | misuse (.noStart slot (some e)) => some <|
      "internal error: entered unreachable code: " ++
        s!"completed marker at {slot} refers to {e.describe}"
  | misuse _ => none
  | leftOpen => some "Marker must be completed"
  | unknownHandle => none

/-- What went wrong so far, if anything did. -/
def failure? (r : Recorder) : Option Failure :=
  match r.misuse with
  | some m => some (.misuse m)
  | none => if lookLimit < r.longest then some .stuck else none

end Recorder

end LosslessSyntax
