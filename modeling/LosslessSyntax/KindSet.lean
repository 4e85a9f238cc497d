import LosslessSyntax.Kind

/-!
# KindSet — finite sets of kinds

The grammar names the tokens at which it gives up on a construct as a set of kinds.  Membership is
the only question asked of it, so a set is the list of its members; order and repetition say nothing.
-/

namespace LosslessSyntax

/-- A finite set of kinds. -/
structure KindSet where
  members : List SyntaxKind
  deriving Repr, Inhabited

namespace KindSet

/-- The set of the listed kinds. -/
def ofList (ks : List SyntaxKind) : KindSet := ⟨ks⟩

/-- Whether a kind is in the set. -/
def contains (s : KindSet) (k : SyntaxKind) : Bool := s.members.contains k

instance : EmptyCollection KindSet := ⟨⟨[]⟩⟩

@[simp] theorem contains_ofList (ks : List SyntaxKind) (k : SyntaxKind) :
    (ofList ks).contains k = true ↔ k ∈ ks := by
  simp [contains, ofList]

@[simp] theorem contains_empty (k : SyntaxKind) : (∅ : KindSet).contains k = false := rfl

end KindSet

end LosslessSyntax
