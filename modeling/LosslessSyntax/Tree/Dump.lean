import LosslessSyntax.SyntaxError
import LosslessSyntax.Text.Quoted
import LosslessSyntax.Tree.Element

/-!
# Tree/Dump — trees in writing

A dump has a line for every element, indented by its level: kind and range, and for a word its text in
quotes.  Long words are cut.  Behind the tree come the errors, a line each.
-/

namespace LosslessSyntax

/-! ## Cutting long words -/

/-- Words of this many bytes and more are cut. -/
def Element.cutLength : Nat := 25

/-- The fewest bytes that are kept of a word that is cut. -/
def Element.keptLength : Nat := 21

/-- The characters of a text up to the first place that is at least `least` bytes behind its
start. -/
def Element.keep : (least : Nat) → List Char → List Char
  | 0, _ => []
  | _ + 1, [] => []
  | n + 1, c :: cs => c :: keep (n + 1 - c.utf8Size) cs

/-- What a dump shows of a word: all of it, or its beginning and an ellipsis. -/
def Element.excerpt (s : String) : String :=
  if s.utf8ByteSize < Element.cutLength then s
  else String.ofList (Element.keep Element.keptLength s.toList) ++ " ..."

/-! ## Lines -/

namespace Element

/-- The indentation of a level. -/
def indent (level : Nat) : String := "".pushn ' ' (2 * level)

/-- The line of an element. -/
def line (level : Nat) : Element → String
  | word k s t =>
    indent level ++ k.label ++ "@" ++ (TextRange.mk s (s + t.utf8ByteSize)).render ++ " " ++
      Text.Quoted.quote (excerpt t)
  | node k s e _ => indent level ++ k.label ++ "@" ++ (TextRange.mk s e).render

mutual

/-- The lines of an element that stands at a level. -/
def lines : Nat → Element → List String
  | level, word k s t => [(word k s t).line level]
  | level, node k s e es => (node k s e es).line level :: linesAll (level + 1) es

/-- The lines of elements that stand at a level. -/
def linesAll : Nat → List Element → List String
  | _, [] => []
  | level, e :: es => lines level e ++ linesAll level es

end

end Element

/-- Lines put together to a text, each with a line feed at its end. -/
def Text.ofLines (ls : List String) : String := String.join (ls.map (· ++ "\n"))

/-- **The dump** of a tree and the errors that belong to it. -/
def SyntaxTree.dump (t : SyntaxTree) (errors : List SyntaxError) : String :=
  Text.ofLines (t.placed.lines 0 ++ errors.map SyntaxError.line)

end LosslessSyntax
