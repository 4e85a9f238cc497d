/-!
# Kind — the kinds of tokens and nodes a syntax tree is made of

One enumeration serves both the leaves and the inner nodes of a tree: the lexer hands out the token
kinds, the grammar the node kinds.  The numbering (`code`, `ofCode?`) and the written names (`label`,
`ofLabel?`) are two bijections onto their images, and `all` lists the kinds in numbering order.
-/

namespace LosslessSyntax

/-- The kind of a token or of a node of the syntax tree. -/
inductive SyntaxKind
  -- punctuation
  | plus | minus | star | slash | eq | lParen | rParen | semi
  -- keywords
  | letKw
  -- the other tokens
  | intNumber | ident | whitespace | comment | error
  -- nodes
  | sourceFile | variableDef | name | nameRef | literal | prefixExpr | binExpr | parenExpr
  /-- Closes the numbering: neither a token nor a node has this kind. -/
  | last
  deriving DecidableEq, Repr, Inhabited

namespace SyntaxKind

/-! ## Numbers and names -/

/-- Every kind, in the order of the numbering. -/
def all : List SyntaxKind :=
  [plus, minus, star, slash, eq, lParen, rParen, semi, letKw, intNumber, ident, whitespace,
    comment, error, sourceFile, variableDef, name, nameRef, literal, prefixExpr, binExpr, parenExpr,
    last]

/-- The number of a kind. -/
def code : SyntaxKind → Nat
  | plus => 0 | minus => 1 | star => 2 | slash => 3 | eq => 4 | lParen => 5 | rParen => 6
  | semi => 7 | letKw => 8 | intNumber => 9 | ident => 10 | whitespace => 11 | comment => 12
  | error => 13 | sourceFile => 14 | variableDef => 15 | name => 16 | nameRef => 17 | literal => 18
  | prefixExpr => 19 | binExpr => 20 | parenExpr => 21 | last => 22

/-- The kind with a given number, if there is one. -/
def ofCode? (n : Nat) : Option SyntaxKind := all[n]?

@[simp] theorem ofCode?_code (k : SyntaxKind) : ofCode? k.code = some k := by cases k <;> rfl

theorem code_injective {k l : SyntaxKind} (h : k.code = l.code) : k = l :=
  Option.some.inj (by rw [← ofCode?_code k, h, ofCode?_code l])

@[simp] theorem mem_all (k : SyntaxKind) : k ∈ all := by cases k <;> decide

/-- The written name of a kind, as trees and messages show it. -/
def label : SyntaxKind → String
  | plus => "PLUS" | minus => "MINUS" | star => "STAR" | slash => "SLASH" | eq => "EQ"
  | lParen => "L_PAREN" | rParen => "R_PAREN" | semi => "SEMI" | letKw => "LET_KW"
  | intNumber => "INT_NUMBER" | ident => "IDENT" | whitespace => "WHITESPACE"
  | comment => "COMMENT" | error => "ERROR" | sourceFile => "SOURCE_FILE"
  | variableDef => "VARIABLE_DEF" | name => "NAME" | nameRef => "NAME_REF" | literal => "LITERAL"
  | prefixExpr => "PREFIX_EXPR" | binExpr => "BIN_EXPR" | parenExpr => "PAREN_EXPR"
  | last => "__LAST"

/-- The kind with a given name, if there is one. -/
def ofLabel? (s : String) : Option SyntaxKind := all.find? (·.label == s)

@[simp] theorem ofLabel?_label (k : SyntaxKind) : ofLabel? k.label = some k := by
  cases k <;> decide

theorem label_injective {k l : SyntaxKind} (h : k.label = l.label) : k = l :=
  Option.some.inj (by rw [← ofLabel?_label k, h, ofLabel?_label l])

/-- A number beyond the last kind names nothing. -/
structure UnknownCode where
  code : Nat

/-- The report of a number that names no kind. -/
def UnknownCode.message (e : UnknownCode) : String := s!"invalid syntax kind: {e.code}"

/-- The kind with a given number, or the report that there is none. -/
def ofCode (n : Nat) : Except UnknownCode SyntaxKind :=
  match ofCode? n with
  | some k => .ok k
  | none => .error ⟨n⟩

/-! ## Classes -/

/-- Whitespace and comments: the kinds the grammar never sees. -/
def isTrivia : SyntaxKind → Bool
  | whitespace | comment => true
  | _ => false

/-- The reserved words. -/
def isKeyword : SyntaxKind → Bool
  | letKw => true
  | _ => false

/-- The one-character tokens. -/
def isPunct : SyntaxKind → Bool
  | plus | minus | star | slash | eq | lParen | rParen | semi => true
  | _ => false

/-- The node kinds that are expressions. -/
def isExpr : SyntaxKind → Bool
  | literal | nameRef | prefixExpr | binExpr | parenExpr => true
  | _ => false

/-- The node kinds that are statements: definitions and expressions. -/
def isStmt : SyntaxKind → Bool
  | variableDef => true
  | k => k.isExpr

/-! ## Spellings -/

/-- The punctuation a character stands for. -/
def ofChar? : Char → Option SyntaxKind
  | '+' => some plus
  | '-' => some minus
  | '*' => some star
  | '/' => some slash
  | '=' => some eq
  | '(' => some lParen
  | ')' => some rParen
  | ';' => some semi
  | _ => none

/-- The keyword a word stands for. -/
def ofKeyword? (word : String) : Option SyntaxKind :=
  if word = "let" then some letKw else none

end SyntaxKind

end LosslessSyntax
