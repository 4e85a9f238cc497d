import LosslessSyntax.Proofs.Tree.Placement

/-!
# Proofs/Tree/Shape — what the nodes of a file look like

The shape of a node is said by its kind: `schema?` lists the places inside it, one after the other, and
what may stand in each.  White space and comments do not count as parts.  They may stand between the
parts of a node, but not at either end of it (`IsTrimmed`), so that a node covers nothing but what it is
made of.
-/

namespace LosslessSyntax

open SyntaxKind

/-! ## Parts and places -/

/-- What stands in a node, apart from what is inside it. -/
inductive Part
  | word (kind : SyntaxKind)
  | node (kind : SyntaxKind)
  deriving DecidableEq, Repr

/-- A place in a node, or several, for parts out of a list. -/
inductive Slot
  | one (ps : List Part)
  | optional (ps : List Part)
  | many (ps : List Part)
  deriving DecidableEq, Repr

/-- **Parts fill slots**, each in its turn. -/
inductive Fits : List Slot → List Part → Prop
  | nil : Fits [] []
  | one {p : Part} {ps qs : List Part} {ss : List Slot} (hp : p ∈ ps) (more : Fits ss qs) :
      Fits (.one ps :: ss) (p :: qs)
  | absent {ps qs : List Part} {ss : List Slot} (more : Fits ss qs) : Fits (.optional ps :: ss) qs
  | present {p : Part} {ps qs : List Part} {ss : List Slot} (hp : p ∈ ps) (more : Fits ss qs) :
      Fits (.optional ps :: ss) (p :: qs)
  | done {ps qs : List Part} {ss : List Slot} (more : Fits ss qs) : Fits (.many ps :: ss) qs
  | again {p : Part} {ps qs : List Part} {ss : List Slot} (hp : p ∈ ps)
      (more : Fits (.many ps :: ss) qs) : Fits (.many ps :: ss) (p :: qs)

/-- The nodes that are expressions. -/
def expressionParts : List Part :=
  [.node literal, .node nameRef, .node prefixExpr, .node binExpr, .node parenExpr]

theorem mem_expressionParts {k : SyntaxKind} :
    Part.node k ∈ expressionParts ↔ k.isExpr = true := by
  cases k <;> decide

/-- What may stand in the place of an operand: an expression, or what was skipped in search of one. -/
def operandParts : List Part := .node error :: expressionParts

/-- **The schema of the nodes of a file.**  No other kind of node occurs. -/
def schema? : SyntaxKind → Option (List Slot)
  | sourceFile => some [.many (.word semi :: .node variableDef :: operandParts)]
  | variableDef => some [.one [.word letKw], .optional [.node name, .node error],
      .optional [.word eq], .optional operandParts]
  | name | nameRef => some [.one [.word ident]]
  | literal => some [.one [.word intNumber]]
  | prefixExpr => some [.one [.word minus], .optional operandParts]
  | binExpr => some [.one expressionParts,
      .one [.word plus, .word minus, .word star, .word slash], .optional operandParts]
  | parenExpr => some [.one [.word lParen], .optional operandParts, .optional [.word rParen]]
  | error => some [.one ((all.filter fun k => k ≠ semi ∧ k ≠ letKw).map .word)]
  | _ => none

theorem mem_errorParts {k : SyntaxKind} :
    Part.word k ∈ (all.filter fun k => k ≠ semi ∧ k ≠ letKw).map Part.word ↔ k ≠ semi ∧ k ≠ letKw := by
  simp

/-- A place that may stay empty is filled by one part or by none. -/
theorem Fits.optional {ps qs rs : List Part} {ss : List Slot} (h : qs = [] ∨ ∃ p ∈ ps, qs = [p])
    (more : Fits ss rs) : Fits (.optional ps :: ss) (qs ++ rs) := by
  obtain rfl | ⟨p, hp, rfl⟩ := h
  · exact .absent more
  · exact .present hp more

/-! ## What may stand in a place -/

/-- The parts that may stand in a place. -/
def Slot.parts : Slot → List Part
  | one ps | optional ps | many ps => ps

section Slots

variable {ss : List Slot} {ps : List Part} {p : Part}

theorem Fits.mem_parts (h : Fits ss ps) (hp : p ∈ ps) : ∃ s ∈ ss, p ∈ s.parts := by
  induction h with
  | nil => exact absurd hp List.not_mem_nil
  | absent _ ih | done _ ih =>
    obtain ⟨s, hs, hmem⟩ := ih hp
    exact ⟨s, List.mem_cons_of_mem _ hs, hmem⟩
  | one hq _ ih | present hq _ ih =>
    obtain rfl | hp := List.mem_cons.mp hp
    · exact ⟨_, List.mem_cons_self, hq⟩
    · obtain ⟨s, hs, hmem⟩ := ih hp
      exact ⟨s, List.mem_cons_of_mem _ hs, hmem⟩
  | again hq _ ih =>
    obtain rfl | hp := List.mem_cons.mp hp
    · exact ⟨_, List.mem_cons_self, hq⟩
    · exact ih hp

/-- A place that must be filled is. -/
theorem Fits.exists_of_one (h : Fits ss ps) {qs : List Part} (hqs : .one qs ∈ ss) :
    ∃ q ∈ ps, q ∈ qs := by
  induction h with
  | nil => exact absurd hqs List.not_mem_nil
  | absent _ ih | done _ ih => exact ih ((List.mem_cons.mp hqs).resolve_left (by simp))
  | @one p _ _ _ hp _ ih =>
    rcases List.mem_cons.mp hqs with heq | hqs
    · rw [Slot.one.inj heq]
      exact ⟨p, List.mem_cons_self, hp⟩
    · obtain ⟨q, hq, hmem⟩ := ih hqs
      exact ⟨q, List.mem_cons_of_mem _ hq, hmem⟩
  | present _ _ ih | again _ _ ih =>
    obtain ⟨q, hq, hmem⟩ := ih (by simpa using hqs)
    exact ⟨q, List.mem_cons_of_mem _ hq, hmem⟩

/-- Parts of one sort are no more than there are places for them, unless a place takes many of them. -/
theorem Fits.countP_le (h : Fits ss ps) {sort : Part → Bool}
    (hmany : ∀ qs, .many qs ∈ ss → ∀ q ∈ qs, sort q = false) :
    ps.countP sort ≤ ss.countP (·.parts.any sort) := by
  have later : ∀ {s : Slot} {ss : List Slot},
      (∀ qs, .many qs ∈ s :: ss → ∀ q ∈ qs, sort q = false) →
      ∀ qs, .many qs ∈ ss → ∀ q ∈ qs, sort q = false :=
    fun h qs hqs => h qs (List.mem_cons_of_mem _ hqs)
  induction h with
  | nil => exact Nat.le_refl _
  | absent _ ih | done _ ih =>
    rw [List.countP_cons]
    exact Nat.le_add_right_of_le (ih (later hmany))
  | @one q qs _ _ hq _ ih | @present q qs _ _ hq _ ih =>
    rw [List.countP_cons, List.countP_cons]
    refine Nat.add_le_add (ih (later hmany)) ?_
    cases hsort : sort q with
    | false => exact Nat.zero_le _
    | true =>
      have hany : qs.any sort = true := List.any_eq_true.mpr ⟨q, hq, hsort⟩
      simp [Slot.parts, hany]
  | @again q qs _ _ hq _ ih =>
    rw [List.countP_cons_of_neg (by simp [hmany qs List.mem_cons_self q hq])]
    exact ih hmany

/-- What may stand inside a statement: words, expressions, names, and what was skipped. -/
def Part.isInner : Part → Bool
  | word _ => true
  | node kind => kind.isExpr || kind == name || kind == .error

theorem isInner_of_schema? {kind : SyntaxKind} (h : schema? kind = some ss) (hk : kind ≠ sourceFile) :
    ss.all (·.parts.all Part.isInner) = true := by
  cases kind <;> first | exact absurd rfl hk | cases h <;> rfl

/-- Whether a part is a word. -/
def Part.isWord : Part → Bool
  | word _ => true
  | node _ => false

/-- In every node but a file there is a place for a word that must be filled. -/
theorem exists_word_of_schema? {kind : SyntaxKind} (h : schema? kind = some ss)
    (hk : kind ≠ sourceFile) : ∃ qs, .one qs ∈ ss ∧ qs.all Part.isWord = true := by
  cases kind with
  | sourceFile => exact absurd rfl hk
  | binExpr =>
    rcases h
    exact ⟨_, List.mem_cons_of_mem _ List.mem_cons_self, rfl⟩
  | variableDef | name | nameRef | literal | prefixExpr | parenExpr | error =>
    rcases h
    exact ⟨_, List.mem_cons_self, rfl⟩
  | _ => exact absurd h (by simp [schema?])

end Slots

/-! ## Elements -/

/-- What an element is, apart from what is inside it. -/
def Element.part : Element → Part
  | .word kind .. => .word kind
  | .node kind .. => .node kind

@[simp] theorem Element.isTrivia_word (l : Lexeme) (start : Nat) :
    (word l.kind start l.text).isTrivia = l.isTrivia := rfl

@[simp] theorem Element.isTrivia_node (kind : SyntaxKind) (start stop : Nat) (es : List Element) :
    (node kind start stop es).isTrivia = false := rfl

/-- The children that are not trivia. -/
def Element.solid (e : Element) : List Element := e.children.filter fun c => !c.isTrivia

/-- **The parts of an element**: its children, white space and comments left out. -/
def Element.parts (e : Element) : List Part := e.solid.map part

/-- Neither the first nor the last of some lexemes is trivia, and there is at least one. -/
def Lexeme.IsTrimmed (ls : List Lexeme) : Prop :=
  (∃ l ∈ ls.head?, l.isTrivia = false) ∧ ∃ l ∈ ls.getLast?, l.isTrivia = false

/-- If only one lexeme is not trivia and there is no trivia at the ends, there is no other. -/
theorem Lexeme.IsTrimmed.eq_singleton {ls : List Lexeme} {l : Lexeme} (h : IsTrimmed ls)
    (hl : Lexeme.significant ls = [l]) : ls = [l] := by
  obtain ⟨⟨m, hm, hfirst⟩, n, hn, hlast⟩ := h
  obtain ⟨ms, rfl⟩ := List.head?_eq_some_iff.mp hm
  rw [significant_cons_of_word hfirst] at hl
  obtain ⟨rfl, hms⟩ := List.cons.inj hl
  cases ms with
  | nil => rfl
  | cons k ms =>
    have hmem : n ∈ k :: ms := List.mem_of_getLast? (by rwa [List.getLast?_cons_cons] at hn)
    exact absurd hlast (by simpa using List.filter_eq_nil_iff.mp hms n hmem)

/-- **A node has its shape**: its parts fill the slots of its kind, and no trivia is at its ends. -/
structure Element.IsShaped (e : Element) : Prop where
  fits : ∃ ss, schema? e.kind = some ss ∧ Fits ss e.parts
  trimmed : Lexeme.IsTrimmed e.lexemes

/-! ## Outlines -/

/-- The part that an outline becomes; a complaint becomes none. -/
def Outline.part? : Outline → Option Part
  | word l => some (.word l.kind)
  | error _ => none
  | node kind _ => some (.node kind)

section Row

variable {all : List Lexeme} {start stop : Nat} {os : List Outline} {ws : List Lexeme}
  {es : List Element}

/-- **The parts of a row are what its outlines become.** -/
theorem Row.map_part (h : Row all start os ws es stop) :
    (es.filter fun e => !e.isTrivia).map Element.part = os.filterMap Outline.part? := by
  induction h with
  | nil => rfl
  | trivia hl _ _ ih =>
    rw [List.filter_cons_of_neg (by simpa using hl)]
    exact ih
  | word _ ht _ ih =>
    rw [List.filter_cons_of_pos (by simpa using ht), List.map_cons, ih]
    rfl
  | error _ ih => exact ih
  | node _ _ _ _ ih =>
    rw [List.filter_cons_of_pos (by simp), List.map_cons, ih]
    rfl

theorem Element.Stands.parts_eq {P : SyntaxKind → List Outline → List Lexeme → Prop}
    {kind : SyntaxKind} {e : Element} (h : e.Stands P all kind os ws) :
    e.parts = os.filterMap Outline.part? := by
  obtain ⟨-, -, row, -⟩ := h
  exact row.map_part

/-- There are no words in an empty row. -/
theorem Row.wordsAll_eq_nil (h : Row all start os ws [] stop) : Outline.wordsAll os = [] := by
  generalize hes : ([] : List Element) = es at h
  induction h with
  | nil => exact Outline.wordsAll_nil
  | error _ ih => rw [Outline.wordsAll_cons, Outline.words_error, ih hes, List.nil_append]
  | _ => exact absurd hes (by simp)

/-- A row with words in it is not empty. -/
theorem Row.ne_nil (h : Row all start os ws es stop) (hos : Outline.wordsAll os ≠ []) : es ≠ [] := by
  rintro rfl
  exact hos h.wordsAll_eq_nil

variable {P : SyntaxKind → List Outline → List Lexeme → Prop}

/-- **A row does not end with trivia**, and if it does not begin with trivia it begins with a word that
is not, where there are words in every node. -/
theorem Row.ends (h : Row all start os ws es stop) (hos : Outline.EveryAll P os ws)
    (hP : ∀ kind os ws, P kind os ws → Outline.wordsAll os ≠ []) (hne : es ≠ []) :
    ((∀ e ∈ es.head?, e.isTrivia = false) →
      ∃ l ∈ (Element.lexemesAll es).head?, l.isTrivia = false) ∧
    ∃ l ∈ (Element.lexemesAll es).getLast?, l.isTrivia = false := by
  induction h with
  | nil => exact absurd rfl hne
  | trivia hl _ ne ih =>
    obtain ⟨-, m, hm, ht⟩ := ih hos ne
    refine ⟨fun htight => absurd (htight _ rfl) (by simpa using hl), m, ?_, ht⟩
    rw [Element.lexemesAll_cons, List.getLast?_append, Option.mem_def.mp hm]
    rfl
  | @word _ _ l _ _ es _ ht _ ih =>
    refine ⟨fun _ => ⟨_, rfl, ht⟩, ?_⟩
    by_cases hes : es = []
    · subst hes
      exact ⟨_, rfl, ht⟩
    · obtain ⟨-, m, hm, ht⟩ := ih (by simpa using hos) hes
      refine ⟨m, ?_, ht⟩
      rw [Element.lexemesAll_cons, List.getLast?_append, Option.mem_def.mp hm]
      rfl
  | error _ ih => exact ih (by simpa using hos) hne
  | @node _ _ _ _ _ _ _ es fs inner tight _ ih ih' =>
    simp only [Outline.everyAll_cons, Outline.every_node] at hos
    obtain ⟨hfirst, hlast⟩ := ih hos.1.2 (inner.ne_nil (hP _ _ _ hos.1.1))
    rw [Element.lexemesAll_cons, Element.lexemes_node]
    refine ⟨fun _ => ?_, ?_⟩
    · obtain ⟨m, hm, ht⟩ := hfirst tight
      refine ⟨m, ?_, ht⟩
      rw [List.head?_append, Option.mem_def.mp hm]
      rfl
    · by_cases hfs : fs = []
      · subst hfs
        rwa [Element.lexemesAll_nil, List.append_nil]
      · obtain ⟨-, m, hm, ht⟩ := ih' hos.2 hfs
        refine ⟨m, ?_, ht⟩
        rw [List.getLast?_append, Option.mem_def.mp hm]
        rfl

/-- A node in its place has no trivia at its ends. -/
theorem Element.Stands.isTrimmed {kind : SyntaxKind} {e : Element} (h : e.Stands P all kind os ws)
    (hP : ∀ kind os ws, P kind os ws → Outline.wordsAll os ≠ []) : Lexeme.IsTrimmed e.lexemes := by
  obtain ⟨holds, every, row, tight⟩ := h
  obtain ⟨hfirst, hlast⟩ := row.ends every hP (row.ne_nil (hP _ _ _ holds))
  rw [Element.lexemes_node]
  exact ⟨hfirst tight, hlast⟩

end Row

end LosslessSyntax
