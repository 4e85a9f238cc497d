import LosslessSyntax.Operator
import LosslessSyntax.Text.Integer
import LosslessSyntax.Tree.Element

/-!
# View — reading elements as the constructs they stand for

Each construct of the language is a kind of node, and each has parts: the name of a definition, the
operands of an operation.  A part is found by its kind, or, for the operands of a binary operation,
by its place relative to the operator.  Any part may be absent, since the text may be incomplete or
the tree put together by hand.
-/

namespace LosslessSyntax

/-! ## Constructs -/

/-- What an element can be read as. -/
inductive View
  | sourceFile | variableDef | name | nameRef | literal | prefixExpr | binExpr | parenExpr
  /-- Any expression. -/
  | expr
  /-- Any definition or expression. -/
  | stmt
  deriving DecidableEq, Repr

namespace View

/-- Every view. -/
def all : List View :=
  [sourceFile, variableDef, name, nameRef, literal, prefixExpr, binExpr, parenExpr, expr, stmt]

/-- The name of a view. -/
def label : View → String
  | sourceFile => "SourceFile" | variableDef => "VariableDef" | name => "Name"
  | nameRef => "NameRef" | literal => "Literal" | prefixExpr => "PrefixExpr"
  | binExpr => "BinExpr" | parenExpr => "ParenExpr" | expr => "Expr" | stmt => "Stmt"

/-- Whether nodes of a kind can be read this way. -/
def accepts : View → SyntaxKind → Bool
  | sourceFile, k => k == .sourceFile
  | variableDef, k => k == .variableDef
  | name, k => k == .name
  | nameRef, k => k == .nameRef
  | literal, k => k == .literal
  | prefixExpr, k => k == .prefixExpr
  | binExpr, k => k == .binExpr
  | parenExpr, k => k == .parenExpr
  | expr, k => k.isExpr
  | stmt, k => k.isStmt

/-- The views that a kind of node allows. -/
def ofKind (k : SyntaxKind) : List View := all.filter (·.accepts k)

/-- The form an expression has. -/
def form? (k : SyntaxKind) : Option View := if k.isExpr then (ofKind k).head? else none

/-- Whether a statement is a definition or an expression. -/
def statementForm? (k : SyntaxKind) : Option View :=
  if k = .variableDef then some variableDef else if k.isExpr then some expr else none

end View

/-! ## Parts -/

namespace Element

/-- The first child node whose kind is of a class. -/
def firstNode? (p : SyntaxKind → Bool) (e : Element) : Option Element :=
  e.childNodes.find? (p ·.kind)

/-- The first child word whose kind is of a class. -/
def firstWord? (p : SyntaxKind → Bool) (e : Element) : Option Element :=
  e.childWords.find? (p ·.kind)

theorem mem_children_of_firstNode? {p : SyntaxKind → Bool} {c e : Element}
    (h : e.firstNode? p = some c) : c ∈ e.children :=
  (List.mem_filter.mp (List.mem_of_find?_eq_some h)).1

theorem kind_of_firstNode? {p : SyntaxKind → Bool} {c e : Element}
    (h : e.firstNode? p = some c) : p c.kind = true := by
  simpa using List.find?_some (show e.childNodes.find? (p ·.kind) = some c from h)

/-- The child nodes that are expressions. -/
def expressions (e : Element) : List Element := e.childNodes.filter (·.kind.isExpr)

/-- The expression that an element consists of, or is about: the value of a definition, what a
negation negates, what parentheses enclose. -/
def inner? (e : Element) : Option Element := e.firstNode? SyntaxKind.isExpr

/-- The statements of a file. -/
def statements (e : Element) : List Element := e.childNodes.filter (·.kind.isStmt)

/-- The keyword of a definition. -/
def keyword? (e : Element) : Option Element := e.firstWord? (· == .letKw)

/-- The name that a definition introduces. -/
def definedName? (e : Element) : Option Element := e.firstNode? (· == .name)

/-- The identifier that a name consists of. -/
def identifier? (e : Element) : Option Element := e.firstWord? (· == .ident)

/-! ### Literals -/

/-- The word that a literal consists of. -/
def literalWord? (e : Element) : Option Element := e.firstWord? fun k => !k.isTrivia

/-- Whether a literal is an integer. -/
def isInteger (e : Element) : Bool := e.literalWord?.any (·.kind == .intNumber)

/-- The value of an integer literal, if it is one and in range. -/
def intValue? (e : Element) : Option Int :=
  match e.literalWord? with
  | some (.word .intNumber _ text) => Text.Integer.parse? text.toList
  | _ => none

/-! ### Operations -/

/-- The operator in front of an operand: the first child, if it is a word. -/
def signWord? (e : Element) : Option Element :=
  match e.children with
  | c :: _ => if c.isNode then none else some c
  | [] => none

/-- The operator in front of an operand. -/
def sign? (e : Element) : Option UnaryOperator := e.signWord?.bind (UnaryOperator.ofKind? ·.kind)

/-- The operator between two operands, with its word: the first child word that is one. -/
def operatorWord? (e : Element) : Option (Element × BinaryOperator) :=
  e.childWords.findSome? fun c => (BinaryOperator.ofKind? c.kind).map (c, ·)

/-- The operator between two operands. -/
def operator? (e : Element) : Option BinaryOperator := e.operatorWord?.map (·.2)

/-- The left operand: the last expression that ends before the operator begins, or the first of all
if there is no operator. -/
def lhs? (e : Element) : Option Element :=
  match e.operatorWord? with
  | none => e.expressions[0]?
  | some (op, _) => (e.expressions.filter fun c => c.stop ≤ op.start).getLast?

/-- The right operand: the first expression that does not end before the operator begins, or the
second of all if there is no operator. -/
def rhs? (e : Element) : Option Element :=
  match e.operatorWord? with
  | none => e.expressions[1]?
  | some (op, _) => e.expressions.find? fun c => !decide (c.stop ≤ op.start)

theorem mem_children_of_mem_expressions {c e : Element} (h : c ∈ e.expressions) :
    c ∈ e.children :=
  (List.mem_filter.mp (List.mem_filter.mp h).1).1

theorem mem_children_of_inner? {c e : Element} (h : e.inner? = some c) : c ∈ e.children :=
  mem_children_of_firstNode? h

theorem mem_children_of_lhs? {c e : Element} (h : e.lhs? = some c) : c ∈ e.children := by
  unfold lhs? at h
  split at h
  · exact mem_children_of_mem_expressions (List.mem_of_getElem? h)
  · exact mem_children_of_mem_expressions (List.mem_filter.mp (List.mem_of_getLast? h)).1

theorem mem_children_of_rhs? {c e : Element} (h : e.rhs? = some c) : c ∈ e.children := by
  unfold rhs? at h
  split at h
  · exact mem_children_of_mem_expressions (List.mem_of_getElem? h)
  · exact mem_children_of_mem_expressions (List.mem_of_find?_eq_some h)

end Element

end LosslessSyntax
