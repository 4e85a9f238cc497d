import LosslessSyntax.View

/-!
# Tree/Pointer — naming a node by what it is and where

A pointer keeps the kind and the range of a node and nothing of its tree.  To follow it, one goes down
from the root, always to the child that covers the range, until a node of that kind and range is
reached; a word, or an element without such a child, is a dead end.  Whoever follows a pointer says what
construct they expect to find.
-/

namespace LosslessSyntax

/-- The kind and the range of a node. -/
structure SyntaxPointer where
  kind : SyntaxKind
  range : TextRange
  deriving DecidableEq, Repr, Inhabited

namespace SyntaxPointer

/-- The pointer to an element. -/
def of (e : Element) : SyntaxPointer := ⟨e.kind, e.range⟩

/-- Whether a pointer is the pointer to an element. -/
def pointsTo (p : SyntaxPointer) (e : Element) : Bool := e.isNode && SyntaxPointer.of e == p

theorem pointsTo_of {e : Element} (h : e.isNode = true) : (SyntaxPointer.of e).pointsTo e = true := by
  simp [pointsTo, h]

mutual

/-- Follows a pointer down from an element. -/
def resolve? (p : SyntaxPointer) : Element → Option Element
  | .word .. => none
  | .node k s t es =>
    if p.pointsTo (.node k s t es) then some (.node k s t es) else resolveAmong? p es

/-- Follows a pointer into the first of some elements that covers its range. -/
def resolveAmong? (p : SyntaxPointer) : List Element → Option Element
  | [] => none
  | e :: es => if e.range.contains p.range then resolve? p e else resolveAmong? p es

end

/-- A pointer leads only to what it points to. -/
theorem pointsTo_of_resolve?_eq_some {p : SyntaxPointer} :
    ∀ {e f : Element}, p.resolve? e = some f → p.pointsTo f = true
  | .word .., _, h => absurd h (by simp [resolve?])
  | .node k s t es, f, h => by
      rw [resolve?] at h
      split at h
      · next hp => exact Option.some.inj h ▸ hp
      · exact among h
where
  among {f : Element} : ∀ {es : List Element}, p.resolveAmong? es = some f → p.pointsTo f = true
    | [], h => absurd h (by simp [resolveAmong?])
    | e :: es, h => by
        rw [resolveAmong?] at h
        split at h
        · exact pointsTo_of_resolve?_eq_some h
        · exact among h

/-! ## Expecting a construct -/

/-- Why a pointer does not lead to a construct. -/
inductive Stray
  /-- There is no node of that kind and range where the pointer leads. -/
  | deadEnd
  | wrongKind
  deriving DecidableEq, Repr

/-- The report of a pointer that leads to something else than expected. -/
def Stray.message? : Stray → Option String
  | deadEnd => none
  | wrongKind => some "AstPtr points to a node of the wrong kind"

/-- The construct that a pointer leads to. -/
def toNode (p : SyntaxPointer) (v : View) (root : Element) : Except Stray Element :=
  match p.resolve? root with
  | none => .error .deadEnd
  | some n => if v.accepts n.kind then .ok n else .error .wrongKind

end SyntaxPointer

end LosslessSyntax
