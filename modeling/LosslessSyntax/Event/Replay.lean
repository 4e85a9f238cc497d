import LosslessSyntax.Event

/-!
# Event/Replay — from the record of a parse to building instructions

The entries are taken in order.  A `start` may be wrapped by a later one, that one again, and so on up
the chain of wrappers; the whole chain is opened at once, the outermost node first, and each place on
it becomes a hole, so that nothing is opened twice.  A link that does not lead to a `start` that is
still there breaks the replay off.
-/

namespace LosslessSyntax

/-- A link that leads nowhere. -/
inductive BrokenLink
  /-- Entry `entry` is being replayed, and the chain of wrappers from it reaches `target`, where
  there is something else than a start. -/
  | notStart (entry target : Nat) (found : Event)
  /-- The chain leads out of the record. -/
  | outside (entry target : Nat)
  deriving DecidableEq, Repr

/-- The report of a broken link; there is none for a link that leads out of the record. -/
def BrokenLink.message? : BrokenLink → Option String
  | notStart entry target found => some <|
      "internal error: entered unreachable code: " ++
        s!"forward parent of event {entry} points at {found.describe} at {target}, " ++
        "expected a StartNode"
  | outside .. => none

/-- Building instructions, and what broke them off, if anything did. -/
structure Playback where
  calls : Array Call
  broken : Option BrokenLink
  deriving Repr

namespace Replay

/-- Follows the chain of wrappers from place `here`, where a hole is left already, on behalf of entry
`entry`.  The kinds met so far are in `kinds`, the outermost first; each place on the chain becomes a
hole. -/
def climb (entry : Nat) (log : Array Event) (here : Nat) (kinds : List SyntaxKind) :
    Option Nat → Except BrokenLink (Array Event × List SyntaxKind)
  | none => .ok (log, kinds)
  | some 0 => .error (.notStart entry here .hole)
  | some (d + 1) =>
    let next := here + (d + 1)
    if h : next < log.size then
      match log[next] with
      | .start kind wrapper =>
        climb entry (log.setIfInBounds next .hole) next (kind :: kinds) wrapper
      | found => .error (.notStart entry next found)
    else .error (.outside entry next)
termination_by log.size - here
decreasing_by
  simp only [Array.size_setIfInBounds]
  omega

/-- Replays `left` entries of a record from place `here` on. -/
def entries : (left here : Nat) → Array Event → Array Call → Playback
  | 0, _, _, calls => ⟨calls, none⟩
  | left + 1, here, log, calls =>
    match log[here]? with
    | some (.start kind wrapper) =>
      match climb here (log.setIfInBounds here .hole) here [kind] wrapper with
      | .ok (log, kinds) => entries left (here + 1) log (calls ++ kinds.map Call.start)
      | .error e => ⟨calls, some e⟩
    | some .token => entries left (here + 1) log (calls.push .token)
    | some .finish => entries left (here + 1) log (calls.push .finish)
    | some (.error c) => entries left (here + 1) log (calls.push (.error c))
    | some .hole | none => entries left (here + 1) log calls

end Replay

/-- **Replays a record**: the building instructions it stands for. -/
def Event.replay (log : Array Event) : Playback := Replay.entries log.size 0 log #[]

end LosslessSyntax
