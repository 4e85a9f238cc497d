/-!
# Lexeme/Comment — how far a comment reaches

After a slash, a second slash opens a comment that ends before the next line break, and a star opens
one that ends with the star and slash that match it; block comments nest, and one that is never closed
reaches to the end of the text.  A carriage return ends a line only in front of a line feed.  Each
function splits a text into the part that belongs to the comment and the rest, and loses nothing.
-/

namespace LosslessSyntax.Lexeme

/-- A text cut in two: what was taken, and the rest. -/
abbrev Split := List Char × List Char

/-- The same cut with one more character taken in front. -/
def Split.cons (c : Char) (p : Split) : Split := (c :: p.1, p.2)

@[simp] theorem Split.cons_fst (c : Char) (p : Split) : (p.cons c).1 = c :: p.1 := rfl

@[simp] theorem Split.cons_snd (c : Char) (p : Split) : (p.cons c).2 = p.2 := rfl

/-- Whether a line break begins the text. -/
def startsLineBreak : List Char → Bool
  | '\n' :: _ => true
  | '\r' :: '\n' :: _ => true
  | _ => false

/-- The text up to the next line break, and the rest. -/
def splitLine : List Char → Split
  | [] => ([], [])
  | c :: cs => if startsLineBreak (c :: cs) then ([], c :: cs) else (splitLine cs).cons c

/-- The text up to where `depth` open block comments are all closed, and the rest. -/
def splitBlock : Nat → List Char → Split
  | 0, cs => ([], cs)
  | _ + 1, [] => ([], [])
  | depth + 1, '*' :: '/' :: cs => ((splitBlock depth cs).cons '/').cons '*'
  | depth + 1, '/' :: '*' :: cs => ((splitBlock (depth + 2) cs).cons '*').cons '/'
  | depth + 1, c :: cs => (splitBlock (depth + 1) cs).cons c

/-- What a comment takes of the text after its first slash, and the rest; nothing if the slash opens
no comment. -/
def splitComment? : List Char → Option Split
  | '/' :: cs => some (splitLine ('/' :: cs))
  | '*' :: cs => some ((splitBlock 1 cs).cons '*')
  | _ => none

/-! ## Nothing is lost -/

theorem splitLine_append : ∀ cs : List Char, (splitLine cs).1 ++ (splitLine cs).2 = cs
  | [] => rfl
  | c :: cs => by
      rw [splitLine]
      split
      · rfl
      · simp [splitLine_append cs]

theorem splitBlock_append (depth : Nat) (cs : List Char) :
    (splitBlock depth cs).1 ++ (splitBlock depth cs).2 = cs := by
  fun_induction splitBlock depth cs <;> simp_all

theorem splitComment?_append {cs : List Char} {p : Split} (h : splitComment? cs = some p) :
    p.1 ++ p.2 = cs := by
  unfold splitComment? at h
  split at h
  · obtain rfl := Option.some.inj h
    exact splitLine_append _
  · obtain rfl := Option.some.inj h
    simp [splitBlock_append]
  · exact absurd h (by simp)

end LosslessSyntax.Lexeme
