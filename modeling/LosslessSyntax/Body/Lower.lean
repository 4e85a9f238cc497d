import LosslessSyntax.Body
import LosslessSyntax.Tree.Pointer
import LosslessSyntax.View

/-!
# Body/Lower — reading a body off a tree

Statements are read in order, and an expression gets its number after its operands.  Parentheses mean
what they enclose.  A definition without a name defines nothing and is dropped.  Beside the body goes
a map between its expressions and the nodes they were read off, in both directions.
-/

namespace LosslessSyntax

/-- The expressions of a body and the nodes they were read off. -/
structure SourceMap where
  /-- What the nodes mean, the latest entry first; a later entry hides an earlier one. -/
  meanings : List (SyntaxPointer × ExprId)
  /-- Where the expressions come from, in the order of their numbers. -/
  origins : Array (Option SyntaxPointer)
  deriving Repr

namespace SourceMap

/-- The expression that a node means. -/
def exprAt? (m : SourceMap) (p : SyntaxPointer) : Option ExprId :=
  (m.meanings.find? (·.1 == p)).map (·.2)

/-- The expression that an element means. -/
def exprOf? (m : SourceMap) (e : Element) : Option ExprId := m.exprAt? (.of e)

/-- The node that an expression was read off. -/
def origin? (m : SourceMap) (id : ExprId) : Option SyntaxPointer := (m.origins[id]?).join

end SourceMap

/-- What has been read off a tree so far. -/
structure Lowering where
  exprs : Array Expr
  statements : Array Stmt
  map : SourceMap
  /-- The ranges of the definitions that have no name. -/
  dropped : Array TextRange
  deriving Repr

namespace Lowering

/-- Nothing has been read yet. -/
def empty : Lowering := ⟨#[], #[], ⟨[], #[]⟩, #[]⟩

/-- Adds an expression that no node stands for. -/
def absent (s : Lowering) : ExprId × Lowering :=
  (s.exprs.size,
    { s with
      exprs := s.exprs.push .missing
      map := { s.map with origins := s.map.origins.push none } })

/-- Adds an expression that was read off an element. -/
def add (s : Lowering) (e : Element) (x : Expr) : ExprId × Lowering :=
  let p := SyntaxPointer.of e
  (s.exprs.size,
    { s with
      exprs := s.exprs.push x
      map := ⟨(p, s.exprs.size) :: s.map.meanings, s.map.origins.push (some p)⟩ })

/-- Lets an element mean an expression that is there already. -/
def mean (s : Lowering) (e : Element) (id : ExprId) : Lowering :=
  { s with map := { s.map with meanings := (.of e, id) :: s.map.meanings } }

/-- What a literal means: its value, or nothing if it has none. -/
def literal (e : Element) : Expr :=
  match e.intValue? with
  | some n => .int n
  | none => .missing

/-- Reads an expression off an element. -/
def expr (s : Lowering) (e : Element) : ExprId × Lowering :=
  match e.kind with
  | .literal => s.add e (literal e)
  | .nameRef => s.add e (.var ⟨e.text⟩)
  | .prefixExpr =>
    let (operand, s) :=
      match _h : e.inner? with
      | some c => s.expr c
      | none => s.absent
    match e.sign? with
    | some op => s.add e (.unary op operand)
    | none => s.add e .missing
  | .binExpr =>
    let (lhs, s) :=
      match _h : e.lhs? with
      | some c => s.expr c
      | none => s.absent
    let (rhs, s) :=
      match _h : e.rhs? with
      | some c => s.expr c
      | none => s.absent
    s.add e (.binary e.operator? lhs rhs)
  | _ =>
    let (inner, s) :=
      match _h : e.inner? with
      | some c => s.expr c
      | none => s.absent
    (inner, s.mean e inner)
termination_by sizeOf e
decreasing_by
  · exact Element.sizeOf_lt_of_mem_children (Element.mem_children_of_inner? _h)
  · exact Element.sizeOf_lt_of_mem_children (Element.mem_children_of_lhs? _h)
  · exact Element.sizeOf_lt_of_mem_children (Element.mem_children_of_rhs? _h)
  · exact Element.sizeOf_lt_of_mem_children (Element.mem_children_of_inner? _h)

/-- Reads an expression that may be absent. -/
def expr? (s : Lowering) : Option Element → ExprId × Lowering
  | some e => s.expr e
  | none => s.absent

theorem expr_literal (s : Lowering) {e : Element} (h : e.kind = .literal) :
    s.expr e = s.add e (literal e) := by
  rw [expr]
  simp only [h]

theorem expr_nameRef (s : Lowering) {e : Element} (h : e.kind = .nameRef) :
    s.expr e = s.add e (.var ⟨e.text⟩) := by
  rw [expr]
  simp only [h]

theorem expr_prefixExpr (s : Lowering) {e : Element} (h : e.kind = .prefixExpr) :
    s.expr e =
      let p := s.expr? e.inner?
      p.2.add e (match e.sign? with
        | some op => .unary op p.1
        | none => .missing) := by
  rw [expr]
  simp only [h]
  cases e.inner? <;> cases e.sign? <;> rfl

theorem expr_binExpr (s : Lowering) {e : Element} (h : e.kind = .binExpr) :
    s.expr e =
      let l := s.expr? e.lhs?
      let r := l.2.expr? e.rhs?
      r.2.add e (.binary e.operator? l.1 r.1) := by
  rw [expr]
  simp only [h]
  cases e.lhs? <;> cases e.rhs? <;> rfl

theorem expr_parenExpr (s : Lowering) {e : Element} (h : e.kind = .parenExpr) :
    s.expr e =
      let p := s.expr? e.inner?
      (p.1, p.2.mean e p.1) := by
  rw [expr]
  simp only [h]
  cases e.inner? <;> rfl

/-- Reads a statement off an element. -/
def statement (s : Lowering) (e : Element) : Lowering :=
  if e.kind = .variableDef then
    match e.definedName? with
    | none => { s with dropped := s.dropped.push e.range }
    | some n =>
      let (value, s) := s.expr? e.inner?
      { s with statements := s.statements.push (.define ⟨n.text⟩ value) }
  else
    let (value, s) := s.expr e
    { s with statements := s.statements.push (.expr value) }

/-- Reads a whole file. -/
def ofFile (root : Element) : Lowering := root.statements.foldl statement empty

/-- The body that was read. -/
def body (s : Lowering) : Body := ⟨s.exprs, s.statements⟩

end Lowering

/-- **The body of a file.** -/
def Body.ofFile (root : Element) : Body := (Lowering.ofFile root).body

end LosslessSyntax
