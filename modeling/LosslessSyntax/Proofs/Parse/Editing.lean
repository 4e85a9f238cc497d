import LosslessSyntax.Proofs.Parse.Lossless
import LosslessSyntax.Proofs.Text.Edit

/-!
# Proofs/Parse/Editing — edits of a parsed text

To edit a parse, its text is read off the tree.  Since a tree has every word of its text, nothing gets
lost on the way, and after any number of edits the parse is the same as if the last text had been parsed
at once, whatever errors there were in between.
-/

namespace LosslessSyntax.Parse

open Text (Edit)

variable {text text' : String} {p : Parse}

/-- The text of a parse is the text that was parsed. -/
theorem text_of_ofText (h : ofText text = .ok p) : p.text = text := by
  obtain ⟨-, q, -, -, -, hq, -, -, htext⟩ := lossless text
  obtain rfl := Except.ok.inj (h.symm.trans hq)
  exact htext

/-- **An edit in place parses the text that it makes.** -/
theorem exists_edit (hp : ofText text = .ok p) {e : Edit} (he : e.IsInPlace text) :
    ∃ text' q, e.Makes text text' ∧ p.edit e = .ok q ∧ ofText text' = .ok q := by
  obtain ⟨text', happly, hmakes⟩ := he.exists_apply
  obtain ⟨-, q, -, -, -, hq, -⟩ := lossless text'
  refine ⟨text', q, hmakes, ?_, hq⟩
  rw [edit, text_of_ofText hp]
  simp only [happly, hq]

/-- So do edits one after the other. -/
theorem exists_edits {es : List Edit} (hp : ofText text = .ok p) (hes : Edit.AllInPlace text es) :
    ∃ text' ps q, Edit.MakeAll es text text' ∧ p.edits es = (ps, none) ∧
      (p :: ps).getLast? = some q ∧ ofText text' = .ok q := by
  induction es generalizing text p with
  | nil => exact ⟨text, [], p, .nil, rfl, rfl, hp⟩
  | cons e es ih =>
    obtain ⟨he, hothers⟩ := hes
    obtain ⟨mid, q, hmakes, hedit, hq⟩ := exists_edit hp he
    obtain ⟨text', ps, r, hmakeAll, hedits, hlast, hr⟩ := ih hq (hothers mid hmakes)
    refine ⟨text', q :: ps, r, .cons hmakes hmakeAll, ?_, ?_, hr⟩
    · simp only [edits, hedit, hedits]
    · rw [List.getLast?_cons_cons]
      exact hlast

/-- **Parsing again after edits is parsing from scratch**: if each of some edits is in place in the text
that the others have made, none fails, and the last parse, with its tree and its errors, is that of the
text that they make in the end. -/
theorem edits_afresh (text : String) (es : List Edit) (hes : Edit.AllInPlace text es) :
    ∃ p text' ps q, ofText text = .ok p ∧ Edit.MakeAll es text text' ∧ p.edits es = (ps, none) ∧
      (p :: ps).getLast? = some q ∧ ofText text' = .ok q := by
  obtain ⟨-, p, -, -, -, hp, -⟩ := lossless text
  obtain ⟨text', hrest⟩ := exists_edits hp hes
  exact ⟨p, text', hrest.imp fun _ ⟨q, hq⟩ => ⟨q, hp, hq⟩⟩

/-- Edits that leave texts with errors behind and mend them in the end. -/
def mendingEdits : List Edit := [.delete 4 6, .insert 10 " (2", ⟨4, 4, "größe"⟩, .insert 20 ")"]

theorem edits_afresh_mending : Edit.AllInPlace "let é = 1 +" mendingEdits ∧
    ∃ p text' ps q, ofText "let é = 1 +" = .ok p ∧ Edit.MakeAll mendingEdits "let é = 1 +" text' ∧
      p.edits mendingEdits = (ps, none) ∧ (p :: ps).getLast? = some q ∧ ofText text' = .ok q := by
  have h : Edit.AllInPlace "let é = 1 +" mendingEdits := by
    have makes₁ : Edit.Makes (.delete 4 6) "let é = 1 +" "let  = 1 +" := by decide +kernel
    have makes₂ : Edit.Makes (.insert 10 " (2") "let  = 1 +" "let  = 1 + (2" := by decide +kernel
    have makes₃ : Edit.Makes ⟨4, 4, "größe"⟩ "let  = 1 + (2" "let größe = 1 + (2" := by decide +kernel
    refine ⟨by decide +kernel, fun _ h => ?_⟩
    obtain rfl := h.unique makes₁
    refine ⟨by decide +kernel, fun _ h => ?_⟩
    obtain rfl := h.unique makes₂
    refine ⟨by decide +kernel, fun _ h => ?_⟩
    obtain rfl := h.unique makes₃
    exact ⟨by decide +kernel, fun _ _ => trivial⟩
  exact ⟨h, edits_afresh _ _ h⟩

end LosslessSyntax.Parse
