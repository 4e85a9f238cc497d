import LosslessSyntax.Grammar

/-!
# Event/Script — operating a recorder by hand

A script is a list of `Step`s, each one operation of a recorder.  Nodes are referred to by number:
the open ones in the order in which they were opened, the closed ones in the order in which they were
closed.  A handle may be used once, so a `Session` keeps which are still to be used; a script that
ends while a node is open has failed.
-/

namespace LosslessSyntax.Recorder

/-- One operation of a recorder. -/
inductive Step
  | start
  | close (opened : Nat) (kind : SyntaxKind)
  | enclose (closed : Nat)
  /-- Gives an open node up. -/
  | abandon (opened : Nat)
  | take
  | complain (c : Complaint)
  | recover (c : Complaint) (stops : KindSet)
  /-- Records a whole file. -/
  | file
  | peek
  /-- Looks at the next token a number of times. -/
  | look (times : Nat)
  | isAt (kind : SyntaxKind)
  | isAtAny (kinds : KindSet)
  | isAtEnd
  | eat (kind : SyntaxKind)
  | expect (kind : SyntaxKind)
  deriving Repr

/-- What a step answers. -/
inductive Reply
  | done
  | opened (number : Nat)
  | closed (number : Nat) (kind : SyntaxKind)
  | kind (k : Option SyntaxKind)
  | truth (b : Bool)
  deriving DecidableEq, Repr

/-- A recorder and the handles that it has given out and that have not been used yet. -/
structure Session where
  recorder : Recorder
  opened : Array (Option OpenNode)
  closed : Array (Option ClosedNode)
  deriving Repr

namespace Session

/-- A session over the tokens of a text, before its first step. -/
def ofTokens (ts : List Token) : Session := ⟨.ofTokens ts, #[], #[]⟩

/-- Goes on with a recorder that answered something. -/
def go {α : Type} (s : Session) (reply : α → Reply) (p : α × Recorder) : Reply × Session :=
  (reply p.1, { s with recorder := p.2 })

/-- Hands out the handle of a node that was just opened. -/
def handOpen (s : Session) (p : OpenNode × Recorder) : Reply × Session :=
  (.opened s.opened.size, { s with recorder := p.2, opened := s.opened.push (some p.1) })

/-- Hands out the handle of a node that was just closed. -/
def handClosed (s : Session) (p : ClosedNode × Recorder) : Reply × Session :=
  (.closed s.closed.size p.1.kind, { s with recorder := p.2, closed := s.closed.push (some p.1) })

/-- Looks at the next token a number of times, all at once; the last look answers. -/
def lookTimes (n : Nat) (r : Recorder) : Option SyntaxKind × Recorder :=
  if n = 0 then (none, r)
  else (r.stream.next?, { r with looks := r.looks + n, longest := max r.longest (r.looks + n) })

@[simp] theorem lookTimes_zero (r : Recorder) : lookTimes 0 r = (none, r) := rfl

@[simp] theorem lookTimes_one (r : Recorder) : lookTimes 1 r = r.peek := rfl

/-- To look several times is to look once and then the other times. -/
theorem lookTimes_succ (n : Nat) (r : Recorder) :
    lookTimes (n + 2) r = lookTimes (n + 1) r.peek.2 := by
  have hlooks : r.looks + (n + 2) = r.looks + 1 + (n + 1) := by omega
  have hlongest : max r.longest (r.looks + 1 + (n + 1)) =
      max (max r.longest (r.looks + 1)) (r.looks + 1 + (n + 1)) := by omega
  simp [lookTimes, peek, hlooks, ← hlongest]

/-- Carries out a step, whether or not anything goes wrong on the way. -/
def perform (s : Session) : Step → Except Failure (Reply × Session)
  | .start => .ok (s.handOpen s.recorder.start)
  | .close i kind =>
    match s.opened[i]? with
    | some (some n) =>
      .ok ({ s with opened := s.opened.setIfInBounds i none }.handClosed (s.recorder.close n kind))
    | _ => .error .unknownHandle
  | .enclose i =>
    match s.closed[i]? with
    | some (some n) =>
      .ok ({ s with closed := s.closed.setIfInBounds i none }.handOpen (s.recorder.enclose n))
    | _ => .error .unknownHandle
  | .abandon _ => .error .leftOpen
  | .take => .ok (.done, { s with recorder := s.recorder.take })
  | .complain c => .ok (.done, { s with recorder := s.recorder.complain c })
  | .recover c stops => .ok (.done, { s with recorder := s.recorder.recover c stops })
  | .file => .ok (.done, { s with recorder := Grammar.file s.recorder })
  | .peek => .ok (s.go .kind s.recorder.peek)
  | .look n => .ok (s.go .kind (lookTimes n s.recorder))
  | .isAt kind => .ok (s.go .truth (s.recorder.isAt kind))
  | .isAtAny kinds => .ok (s.go .truth (s.recorder.isAtAny kinds))
  | .isAtEnd => .ok (s.go .truth s.recorder.isAtEnd)
  | .eat kind => .ok (s.go .truth (s.recorder.eat kind))
  | .expect kind => .ok (s.go .truth (s.recorder.expect kind))

/-- Carries out a step; the session goes on only if nothing went wrong. -/
def step (s : Session) (x : Step) : Except Failure (Reply × Session) :=
  match s.perform x with
  | .error e => .error e
  | .ok (reply, s) =>
    match s.recorder.failure? with
    | some e => .error e
    | none => .ok (reply, s)

/-- Ends a session: no node may be open any more. -/
def finish (s : Session) : Except Failure (Array Event) :=
  if s.opened.any (·.isSome) then .error .leftOpen else .ok s.recorder.log

/-- Carries out a script: the answers up to its end or its failure, and the record if there was
none. -/
def run (s : Session) : List Step → List Reply × Except Failure (Array Event)
  | [] => ([], s.finish)
  | x :: xs =>
    match s.step x with
    | .error e => ([], .error e)
    | .ok (reply, s) =>
      let (replies, result) := s.run xs
      (reply :: replies, result)

end Session

end LosslessSyntax.Recorder
