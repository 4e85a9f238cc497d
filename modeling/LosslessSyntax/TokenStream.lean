import LosslessSyntax.Token

/-!
# TokenStream — the tokens as the grammar sees them

White space and comments mean nothing to the grammar, so the stream it reads from holds only the
other tokens: `ofTokens` drops the trivia once and for all, and looking ahead or advancing is looking
at or removing the first of what is left.
-/

namespace LosslessSyntax

/-- The tokens still to be read, trivia left out. -/
structure TokenStream where
  rest : List Token
  deriving DecidableEq, Repr, Inhabited

namespace TokenStream

/-- The stream of the tokens that are not trivia. -/
def ofTokens (ts : List Token) : TokenStream := ⟨ts.filter fun t => !t.kind.isTrivia⟩

/-- The number of tokens still to be read. -/
def length (s : TokenStream) : Nat := s.rest.length

/-- The kind of the next token, if there is one. -/
def next? (s : TokenStream) : Option SyntaxKind := s.rest.head?.map (·.kind)

/-- The next token and the stream behind it, if there is one. -/
def advance? (s : TokenStream) : Option (Token × TokenStream) :=
  match s.rest with
  | [] => none
  | t :: ts => some (t, ⟨ts⟩)

@[simp] theorem next?_nil : next? ⟨[]⟩ = none := rfl

@[simp] theorem next?_cons (t : Token) (ts : List Token) : next? ⟨t :: ts⟩ = some t.kind := rfl

@[simp] theorem advance?_nil : advance? ⟨[]⟩ = none := rfl

@[simp] theorem advance?_cons (t : Token) (ts : List Token) :
    advance? ⟨t :: ts⟩ = some (t, ⟨ts⟩) := rfl

/-- No trivia gets into the stream of a token list. -/
theorem not_isTrivia_of_mem_ofTokens {ts : List Token} {t : Token} (h : t ∈ (ofTokens ts).rest) :
    t.kind.isTrivia = false := by
  simpa using (List.mem_filter.mp h).2

/-! ## Reading by name -/

/-- One look at a stream, or one move along it. -/
inductive Step
  | nextKind
  | advance
  deriving DecidableEq, Repr

/-- What a step answers. -/
inductive Reply
  | kind (k : Option SyntaxKind)
  | token (t : Option Token)
  deriving DecidableEq, Repr

/-- The answer to a step, and the stream after it. -/
def step (s : TokenStream) : Step → Reply × TokenStream
  | .nextKind => (.kind s.next?, s)
  | .advance =>
    match s.advance? with
    | none => (.token none, s)
    | some (t, s) => (.token (some t), s)

/-- The answers to a list of steps. -/
def run (s : TokenStream) : List Step → List Reply
  | [] => []
  | x :: xs => let (r, s) := s.step x; r :: s.run xs

end TokenStream

end LosslessSyntax
