/-!
# Text/Edit — replacing a stretch of text

An edit puts a text in the place of a stretch of another.  The stretch is given in bytes, and it must
begin and end between two characters of the text that is edited.
-/

namespace LosslessSyntax.Text

/-- The characters of a text up to a place given in bytes, and those behind it; nothing if the place
is inside a character or beyond the end. -/
def splitAt? : (place : Nat) → List Char → Option (List Char × List Char)
  | 0, cs => some ([], cs)
  | _ + 1, [] => none
  | n + 1, c :: cs =>
    if c.utf8Size ≤ n + 1 then
      (splitAt? (n + 1 - c.utf8Size) cs).map fun p => (c :: p.1, p.2)
    else none

/-- Nothing is lost by splitting. -/
theorem append_of_splitAt? {place : Nat} {cs : List Char} {p : List Char × List Char}
    (h : splitAt? place cs = some p) : p.1 ++ p.2 = cs := by
  fun_induction splitAt? place cs generalizing p with
  | case1 => obtain rfl := Option.some.inj h; rfl
  | case2 => exact absurd h (by simp)
  | case3 n c cs _ ih =>
    obtain ⟨q, hq, rfl⟩ := Option.map_eq_some_iff.mp h
    simp [ih hq]
  | case4 => exact absurd h (by simp)

/-- The stretch of text from `start` up to `stop` is to become `replacement`. -/
structure Edit where
  start : Nat
  stop : Nat
  replacement : String
  deriving DecidableEq, Repr

namespace Edit

/-- The edit that puts a text at a place. -/
def insert (place : Nat) (s : String) : Edit := ⟨place, place, s⟩

/-- The edit that removes a stretch of text. -/
def delete (start stop : Nat) : Edit := ⟨start, stop, ""⟩

/-- The stretch of an edit is not one of the text. -/
structure OutOfPlace where

/-- The text after an edit. -/
def apply (e : Edit) (text : String) : Except OutOfPlace String :=
  if e.stop < e.start then .error {}
  else
    match splitAt? e.start text.toList with
    | none => .error {}
    | some (before, cs) =>
      match splitAt? (e.stop - e.start) cs with
      | none => .error {}
      | some (_, after) =>
        .ok (String.ofList before ++ e.replacement ++ String.ofList after)

end Edit

end LosslessSyntax.Text
