import LosslessSyntax.Text.Range
import LosslessSyntax.Tree

/-!
# Tree/Element — trees in their place

An element is a tree together with where it stands in the text: every word and every node knows the
range of text that it covers.  `SyntaxTree.placed` lays a tree out from a place in the text; siblings
follow one another without gaps.
-/

namespace LosslessSyntax

/-- A tree and the place where it stands. -/
inductive Element
  | word (kind : SyntaxKind) (start : Nat) (text : String)
  | node (kind : SyntaxKind) (start stop : Nat) (children : List Element)
  deriving Repr, Inhabited

namespace Element

/-- The kind of an element. -/
def kind : Element → SyntaxKind
  | word k _ _ => k
  | node k _ _ _ => k

/-- The place where an element begins. -/
def start : Element → Nat
  | word _ s _ => s
  | node _ s _ _ => s

/-- The place where an element ends. -/
def stop : Element → Nat
  | word _ s t => s + t.utf8ByteSize
  | node _ _ e _ => e

/-- The elements that an element consists of. -/
def children : Element → List Element
  | word .. => []
  | node _ _ _ es => es

/-- The range of text that an element covers. -/
def range (e : Element) : TextRange := ⟨e.start, e.stop⟩

/-- Whether an element is a node. -/
def isNode : Element → Bool
  | word .. => false
  | node .. => true

@[simp] theorem isNode_word (k : SyntaxKind) (s : Nat) (t : String) : (word k s t).isNode = false :=
  rfl

@[simp] theorem isNode_node (k : SyntaxKind) (s e : Nat) (es : List Element) :
    (node k s e es).isNode = true := rfl

/-- The children that are nodes. -/
def childNodes (e : Element) : List Element := e.children.filter isNode

/-- The children that are words. -/
def childWords (e : Element) : List Element := e.children.filter fun c => !c.isNode

/-- A child is smaller than the element it belongs to. -/
theorem sizeOf_lt_of_mem_children {c e : Element} (h : c ∈ e.children) : sizeOf c < sizeOf e := by
  cases e with
  | word k s t => exact absurd h (by simp [children])
  | node k s t es =>
    have := List.sizeOf_lt_of_mem h
    simp only [children, node.sizeOf_spec] at *
    omega

/-! ## Everything below -/

mutual

/-- The words of an element, from left to right, in front of other words. -/
def lexemesOnto : Element → List Lexeme → List Lexeme
  | word k _ t, ls => ⟨k, t⟩ :: ls
  | node _ _ _ es, ls => lexemesAllOnto es ls

/-- The words of a list of elements, in front of other words. -/
def lexemesAllOnto : List Element → List Lexeme → List Lexeme
  | [], ls => ls
  | e :: es, ls => e.lexemesOnto (lexemesAllOnto es ls)

end

mutual

theorem lexemesOnto_append : ∀ (e : Element) (ls ms : List Lexeme),
    e.lexemesOnto (ls ++ ms) = e.lexemesOnto ls ++ ms
  | word .., _, _ => by simp only [lexemesOnto, List.cons_append]
  | node _ _ _ es, ls, ms => by simp only [lexemesOnto, lexemesAllOnto_append es ls ms]

theorem lexemesAllOnto_append : ∀ (es : List Element) (ls ms : List Lexeme),
    lexemesAllOnto es (ls ++ ms) = lexemesAllOnto es ls ++ ms
  | [], _, _ => by simp only [lexemesAllOnto]
  | e :: es, ls, ms => by
      simp only [lexemesAllOnto, lexemesAllOnto_append es ls ms, lexemesOnto_append e]

end

/-- The words of an element, from left to right. -/
def lexemes (e : Element) : List Lexeme := e.lexemesOnto []

/-- The words of a list of elements, from left to right. -/
def lexemesAll (es : List Element) : List Lexeme := lexemesAllOnto es []

@[simp] theorem lexemes_word (k : SyntaxKind) (s : Nat) (t : String) :
    (word k s t).lexemes = [⟨k, t⟩] := by rw [lexemes, lexemesOnto]

@[simp] theorem lexemes_node (k : SyntaxKind) (s t : Nat) (es : List Element) :
    (node k s t es).lexemes = lexemesAll es := by rw [lexemes, lexemesOnto, lexemesAll]

@[simp] theorem lexemesAll_nil : lexemesAll [] = [] := by rw [lexemesAll, lexemesAllOnto]

@[simp] theorem lexemesAll_cons (e : Element) (es : List Element) :
    lexemesAll (e :: es) = e.lexemes ++ lexemesAll es := by
  rw [lexemesAll, lexemesAllOnto, ← List.nil_append (lexemesAllOnto es []), lexemesOnto_append,
    lexemes, lexemesAll]

/-- The text that an element covers. -/
def text (e : Element) : String := Lexeme.spell e.lexemes

mutual

/-- The nodes of an element, itself included, each before those inside it, in front of others. -/
def nodesOnto : Element → List Element → List Element
  | word .., ns => ns
  | node k s t es, ns => node k s t es :: nodesAllOnto es ns

/-- The nodes of a list of elements, in front of others. -/
def nodesAllOnto : List Element → List Element → List Element
  | [], ns => ns
  | e :: es, ns => e.nodesOnto (nodesAllOnto es ns)

end

mutual

theorem nodesOnto_append : ∀ (e : Element) (ns ms : List Element),
    e.nodesOnto (ns ++ ms) = e.nodesOnto ns ++ ms
  | word .., _, _ => by simp only [nodesOnto]
  | node _ _ _ es, ns, ms => by
      simp only [nodesOnto, nodesAllOnto_append es ns ms, List.cons_append]

theorem nodesAllOnto_append : ∀ (es : List Element) (ns ms : List Element),
    nodesAllOnto es (ns ++ ms) = nodesAllOnto es ns ++ ms
  | [], _, _ => by simp only [nodesAllOnto]
  | e :: es, ns, ms => by
      simp only [nodesAllOnto, nodesAllOnto_append es ns ms, nodesOnto_append e]

end

/-- The nodes of an element, itself included, each before those inside it. -/
def nodes (e : Element) : List Element := e.nodesOnto []

/-- The nodes of a list of elements, each before those inside it. -/
def nodesAll (es : List Element) : List Element := nodesAllOnto es []

@[simp] theorem nodes_word (k : SyntaxKind) (s : Nat) (t : String) : (word k s t).nodes = [] := by
  rw [nodes, nodesOnto]

@[simp] theorem nodes_node (k : SyntaxKind) (s t : Nat) (es : List Element) :
    (node k s t es).nodes = node k s t es :: nodesAll es := by rw [nodes, nodesOnto, nodesAll]

@[simp] theorem nodesAll_nil : nodesAll [] = [] := by rw [nodesAll, nodesAllOnto]

@[simp] theorem nodesAll_cons (e : Element) (es : List Element) :
    nodesAll (e :: es) = e.nodes ++ nodesAll es := by
  rw [nodesAll, nodesAllOnto, ← List.nil_append (nodesAllOnto es []), nodesOnto_append, nodes,
    nodesAll]

end Element

namespace SyntaxTree

/-- Where a list of elements ends that begins at a place. -/
def endOf (start : Nat) (es : List Element) : Nat := (es.getLast?.map Element.stop).getD start

mutual

/-- A tree laid out from a place in the text. -/
def placedAt : Nat → SyntaxTree → Element
  | start, leaf l => .word l.kind start l.text
  | start, node kind ts =>
    let es := placedAllAt start ts
    .node kind start (endOf start es) es

/-- Trees laid out one behind the other from a place in the text. -/
def placedAllAt : Nat → List SyntaxTree → List Element
  | _, [] => []
  | start, t :: ts =>
    let e := t.placedAt start
    e :: placedAllAt e.stop ts

end

/-- A tree laid out from the start of the text. -/
def placed (t : SyntaxTree) : Element := t.placedAt 0

end SyntaxTree

end LosslessSyntax
