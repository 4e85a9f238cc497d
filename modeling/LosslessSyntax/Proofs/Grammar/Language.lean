import LosslessSyntax.Proofs.Grammar.Reading

/-!
# Proofs/Grammar/Language — the language the rules accept

The rules read words greedily and never take a decision back, while the grammar they are made for
(`Derives`) is ambiguous: it derives a name in front of a negation both as two statements and as a
difference.  That does no harm, because whether words can go on to be a file depends only on where they
have come to (`Phase`): how many parentheses are open, and whether an operand is due.  The grammar
derives only what the phases accept, the rules have nothing to complain about there, and where they
have nothing to complain about they read what the grammar derives.
-/

namespace LosslessSyntax.Grammar

open SyntaxKind Outline

/-! ## The grammar -/

/-- The constructs of the grammar. -/
inductive Category
  | file | statement | sum | product | factor | atom
  deriving DecidableEq, Repr

/-- **The grammar**: which sequences of kinds a construct derives. -/
inductive Derives : Category → List SyntaxKind → Prop
  | nil : Derives .file []
  | separator {ks : List SyntaxKind} (more : Derives .file ks) : Derives .file (semi :: ks)
  | next {ks ls : List SyntaxKind} (first : Derives .statement ks) (more : Derives .file ls) :
      Derives .file (ks ++ ls)
  | definition {ks : List SyntaxKind} (value : Derives .sum ks) :
      Derives .statement (letKw :: ident :: eq :: ks)
  | bare {ks : List SyntaxKind} (value : Derives .sum ks) : Derives .statement ks
  | add {ks ls : List SyntaxKind} (left : Derives .sum ks) (right : Derives .product ls) :
      Derives .sum (ks ++ plus :: ls)
  | subtract {ks ls : List SyntaxKind} (left : Derives .sum ks) (right : Derives .product ls) :
      Derives .sum (ks ++ minus :: ls)
  | product {ks : List SyntaxKind} (only : Derives .product ks) : Derives .sum ks
  | multiply {ks ls : List SyntaxKind} (left : Derives .product ks) (right : Derives .factor ls) :
      Derives .product (ks ++ star :: ls)
  | divide {ks ls : List SyntaxKind} (left : Derives .product ks) (right : Derives .factor ls) :
      Derives .product (ks ++ slash :: ls)
  | factor {ks : List SyntaxKind} (only : Derives .factor ks) : Derives .product ks
  | negate {ks : List SyntaxKind} (inner : Derives .factor ks) : Derives .factor (minus :: ks)
  | atom {ks : List SyntaxKind} (only : Derives .atom ks) : Derives .factor ks
  | number : Derives .atom [intNumber]
  | name : Derives .atom [ident]
  | parens {ks : List SyntaxKind} (inner : Derives .sum ks) :
      Derives .atom (lParen :: (ks ++ [rParen]))

/-! ## Phases -/

/-- Where a file has come to after some of its words. -/
inductive Phase
  /-- A statement may begin. -/
  | boundary
  /-- The name of a definition is due. -/
  | name
  /-- The sign behind the name of a definition is due. -/
  | equals
  /-- An operand is due inside so many parentheses. -/
  | operand (depth : Nat)
  /-- An operand has ended inside so many parentheses. -/
  | behind (depth : Nat)
  deriving DecidableEq, Repr

namespace Phase

/-- Where a kind leads to when an operand is due. -/
def operandNext? (depth : Nat) (k : SyntaxKind) : Option Phase :=
  match k with
  | .intNumber | .ident => some (behind depth)
  | .minus => some (operand depth)
  | .lParen => some (operand (depth + 1))
  | _ => none

/-- Where a kind leads to when a statement may begin. -/
def boundaryNext? (k : SyntaxKind) : Option Phase :=
  match k with
  | .semi => some boundary
  | .letKw => some name
  | k => operandNext? 0 k

/-- Where a kind leads to. -/
def next? (p : Phase) (k : SyntaxKind) : Option Phase :=
  match p with
  | boundary => boundaryNext? k
  | name => if k = .ident then some equals else none
  | equals => if k = .eq then some (operand 0) else none
  | operand depth => operandNext? depth k
  | behind depth =>
    if (BinaryOperator.ofKind? k).isSome then some (operand depth)
    else
      match depth with
      | 0 => boundaryNext? k
      | depth + 1 => if k = .rParen then some (behind depth) else none

/-- Whether a file may end. -/
def isFinal : Phase → Bool
  | boundary | behind 0 => true
  | _ => false

/-- Whether kinds lead to a place where a file may end. -/
def accepts : Phase → List SyntaxKind → Bool
  | p, [] => p.isFinal
  | p, k :: ks =>
    match p.next? k with
    | some q => q.accepts ks
    | none => false

/-- Where an operand is due, there is one. -/
theorem exists_operand {depth : Nat} {ks : List SyntaxKind} (h : (operand depth).accepts ks = true) :
    ∃ k ls, ks = k :: ls ∧ startsOperand k = true := by
  rcases ks with _ | ⟨k, ks⟩
  · exact absurd h (by simp [accepts, isFinal])
  · refine ⟨k, ks, rfl, ?_⟩
    cases k <;> first | rfl | exact absurd h (by simp [accepts, next?, operandNext?])

/-- Where no operator is behind an operand in parentheses, they are closed. -/
theorem exists_closing {depth : Nat} {ks : List SyntaxKind}
    (h : (behind (depth + 1)).accepts ks = true)
    (hk : ∀ k ∈ ks.head?, BinaryOperator.ofKind? k = none) :
    ∃ ls, ks = rParen :: ls ∧ (behind depth).accepts ls = true := by
  rcases ks with _ | ⟨k, ks⟩
  · exact absurd h (by simp [accepts, isFinal])
  · have hnone := hk k rfl
    by_cases hclose : k = rParen
    · subst hclose
      exact ⟨ks, rfl, h⟩
    · exact absurd h (by simp [accepts, next?, hnone, hclose])

/-- An operator leads to its right operand. -/
theorem accepts_operator {depth : Nat} {k : SyntaxKind} {ks : List SyntaxKind} {op : BinaryOperator}
    (hk : BinaryOperator.ofKind? k = some op) :
    (behind depth).accepts (k :: ks) = (operand depth).accepts ks := by
  simp [accepts, next?, hk]

/-- A statement may begin behind an operand outside parentheses. -/
theorem accepts_behind {ks : List SyntaxKind} (h : boundary.accepts ks = true) :
    (behind 0).accepts ks = true := by
  rcases ks with _ | ⟨k, ks⟩
  · rfl
  · cases k <;> first | exact h | exact absurd h (by simp [accepts, next?, boundaryNext?, operandNext?])

/-- A statement may begin where there is no operator behind an operand. -/
theorem accepts_boundary_of_behind {ks : List SyntaxKind} (h : (behind 0).accepts ks = true)
    (hk : ∀ k ∈ ks.head?, BinaryOperator.ofKind? k = none) : boundary.accepts ks = true := by
  rcases ks with _ | ⟨k, ks⟩
  · rfl
  · simpa [accepts, next?, hk k rfl] using h

/-- A statement may be an expression. -/
theorem accepts_boundary_of_operand {ks : List SyntaxKind} (h : (operand 0).accepts ks = true) :
    boundary.accepts ks = true := by
  rcases ks with _ | ⟨k, ks⟩
  · rfl
  · cases k <;> first | exact h | exact absurd h (by simp [accepts, next?, operandNext?])

/-- A definition has its name, its sign and an operand of its value. -/
theorem exists_definition {ks : List SyntaxKind} (h : name.accepts ks = true) :
    ∃ ls, ks = .ident :: .eq :: ls ∧ (operand 0).accepts ls = true := by
  rcases ks with _ | ⟨k, ks⟩
  · exact absurd h (by simp [accepts, isFinal])
  by_cases hk : k = .ident
  · subst hk
    replace h : equals.accepts ks = true := h
    rcases ks with _ | ⟨k, ks⟩
    · exact absurd h (by simp [accepts, isFinal])
    by_cases hk : k = .eq
    · subst hk
      exact ⟨ks, rfl, h⟩
    · exact absurd h (by simp [accepts, next?, hk])
  · exact absurd h (by simp [accepts, next?, hk])

/-- A statement is an expression unless it is a definition. -/
theorem accepts_operand_of_boundary {k : SyntaxKind} {ks : List SyntaxKind}
    (h : boundary.accepts (k :: ks) = true) (hk : expressionStops.contains k = false) :
    (operand 0).accepts (k :: ks) = true := by
  cases k <;> first | exact h | exact absurd hk (by decide)

end Phase

/-! ## What the grammar derives is accepted -/

/-- What a construct contributes to a file: an expression leads from where an operand is due to where
one has ended. -/
def Category.Leads : Category → List SyntaxKind → Prop
  | file, ks => Phase.boundary.accepts ks = true
  | statement, ks => ∀ ls, (Phase.behind 0).accepts ls = true → Phase.boundary.accepts (ks ++ ls) = true
  | _, ks => ∀ depth ls, (Phase.behind depth).accepts ls = true →
      (Phase.operand depth).accepts (ks ++ ls) = true

theorem leads_operation {left right : List SyntaxKind} {k : SyntaxKind} {op : BinaryOperator}
    (hk : BinaryOperator.ofKind? k = some op) (hleft : Category.Leads .sum left)
    (hright : Category.Leads .sum right) : Category.Leads .sum (left ++ k :: right) := by
  intro depth ls hls
  rw [List.append_assoc, List.cons_append]
  refine hleft depth _ ?_
  rw [Phase.accepts_operator hk]
  exact hright depth ls hls

/-- **What the grammar derives is accepted.** -/
theorem Derives.leads {c : Category} {ks : List SyntaxKind} (h : Derives c ks) : c.Leads ks := by
  induction h with
  | nil => rfl
  | separator _ ih => exact ih
  | next _ _ ih ih' => exact ih _ (Phase.accepts_behind ih')
  | definition _ ih => exact fun ls hls => ih 0 ls hls
  | bare _ ih => exact fun ls hls => Phase.accepts_boundary_of_operand (ih 0 ls hls)
  | add _ _ ih ih' => exact leads_operation (k := plus) rfl ih ih'
  | subtract _ _ ih ih' => exact leads_operation (k := minus) rfl ih ih'
  | multiply _ _ ih ih' => exact leads_operation (k := star) rfl ih ih'
  | divide _ _ ih ih' => exact leads_operation (k := slash) rfl ih ih'
  | product _ ih | factor _ ih | atom _ ih => exact ih
  | negate _ ih => exact fun depth ls hls => ih depth ls hls
  | number | name => exact fun depth ls hls => hls
  | parens _ ih =>
    intro depth ls hls
    rw [List.cons_append, List.append_assoc]
    exact ih (depth + 1) _ hls

/-! ## What is accepted is read without a complaint -/

/-- Where a goal is read from. -/
def Goal.phase (depth : Nat) : Goal → Phase
  | operations _ _ => .behind depth
  | _ => .operand depth

theorem Reads.no_operator_kind {o : Outline} {ls rest : List Lexeme}
    (h : Reads (.expression 0) ls (.found o) rest) :
    ∀ k ∈ (rest.map Lexeme.kind).head?, BinaryOperator.ofKind? k = none := by
  intro k hk
  rw [List.head?_map] at hk
  obtain ⟨l, hl, rfl⟩ := Option.map_eq_some_iff.mp hk
  exact h.no_operator hl

/-- **An expression that is accepted is read without a complaint**, up to where an operand has ended. -/
theorem Reads.accepted {g : Goal} {ls rest : List Lexeme} {x : Outcome} (h : Reads g ls x rest)
    (hbefore : complaintsAll g.before = []) {depth : Nat}
    (ha : (g.phase depth).accepts (ls.map Lexeme.kind) = true) :
    ∃ o, x = .found o ∧ o.complaints = [] ∧
      (Phase.behind depth).accepts (rest.map Lexeme.kind) = true := by
  induction h generalizing depth with
  | number hl | reference hl =>
    rw [List.map_cons, hl] at ha
    exact ⟨_, rfl, by simp, ha⟩
  | negation hl _ ih =>
    rw [List.map_cons, hl] at ha
    obtain ⟨o, rfl, ho, hrest⟩ := ih rfl ha
    exact ⟨_, rfl, by simp [ho], hrest⟩
  | @parenthesised l ls mid rest x os hl inner close ih =>
    rw [List.map_cons, hl] at ha
    obtain ⟨o, rfl, ho, hmid⟩ := ih rfl ha
    -- the expression ends where no operator follows, so it ends at the closing parenthesis
    obtain ⟨ks, hks, hrest⟩ := Phase.exists_closing hmid inner.no_operator_kind
    obtain ⟨r, mid, rfl, hr, rfl⟩ := List.map_eq_cons_iff.mp hks
    rw [expectation, if_pos hr] at close
    obtain ⟨rfl, rfl⟩ := Prod.mk.inj close
    exact ⟨_, rfl, by simp [ho], hrest⟩
  | @missing ls rest os none recover =>
    obtain ⟨k, ks, hks, hstarts⟩ := Phase.exists_operand ha
    obtain ⟨l, ls, rfl, rfl, -⟩ := List.map_eq_cons_iff.mp hks
    exact absurd hstarts (by simp [none l rfl])
  | done => exact ⟨_, rfl, by simpa [Goal.before] using hbefore, ha⟩
  | operation hl _ _ _ ih ih' =>
    obtain ⟨o, rfl, ho, hmid⟩ := ih rfl (by
      rwa [Goal.phase, List.map_cons, Phase.accepts_operator hl] at ha)
    exact ih' (by simpa [Goal.before, ho] using hbefore) hmid
  | absent _ ih => exact ih rfl ha
  | present _ _ ih ih' =>
    obtain ⟨o, ho, hclean, hmid⟩ := ih rfl ha
    obtain rfl := Outcome.found.inj ho
    exact ih' (by simpa [Goal.before] using hclean) hmid

/-- **A file that is accepted is read without a complaint.** -/
theorem ReadsFile.accepted {ls : List Lexeme} {os : List Outline} (h : ReadsFile ls os)
    (ha : Phase.boundary.accepts (ls.map Lexeme.kind) = true) : complaintsAll os = [] := by
  induction h with
  | nil => simp
  | separator hl _ ih =>
    rw [List.map_cons, hl] at ha
    simpa using ih ha
  | unmatched hl =>
    rw [List.map_cons, hl] at ha
    exact absurd ha (by simp [Phase.accepts, Phase.next?, Phase.boundaryNext?, Phase.operandNext?])
  | @definition l ls ls₁ ls₂ rest ns es os x hl named equals value _ ih =>
    rw [List.map_cons, hl] at ha
    obtain ⟨ks, hks, hoperand⟩ := Phase.exists_definition ha
    obtain ⟨n, ls, rfl, hn, hks⟩ := List.map_eq_cons_iff.mp hks
    obtain ⟨e, ls, rfl, he, rfl⟩ := List.map_eq_cons_iff.mp hks
    rw [naming, if_pos hn] at named
    obtain ⟨rfl, rfl⟩ := Prod.mk.inj named
    rw [expectation, if_pos he] at equals
    obtain ⟨rfl, rfl⟩ := Prod.mk.inj equals
    obtain ⟨o, rfl, ho, hrest⟩ := value.accepted rfl hoperand
    simpa [ho] using ih (Phase.accepts_boundary_of_behind hrest value.no_operator_kind)
  | @expression l ls rest os x hl value _ ih =>
    obtain ⟨o, rfl, ho, hrest⟩ := value.accepted rfl (Phase.accepts_operand_of_boundary ha hl)
    simpa [ho] using ih (Phase.accepts_boundary_of_behind hrest value.no_operator_kind)

/-! ## What is read without a complaint is derived -/

/-- What goes behind a product goes behind the last product of a sum. -/
theorem Derives.extend_sum {ks ls : List SyntaxKind}
    (h : ∀ js, Derives .product js → Derives .product (js ++ ls)) (hks : Derives .sum ks) :
    Derives .sum (ks ++ ls) := by
  rcases hks with _ | _ | _ | _ | _ | ⟨left, right⟩ | ⟨left, right⟩ | only
  · rw [List.append_assoc]
    exact .add left (h _ right)
  · rw [List.append_assoc]
    exact .subtract left (h _ right)
  · exact .product (h _ only)

theorem Derives.join_factor {ks ls : List SyntaxKind} {k : SyntaxKind} {op : BinaryOperator}
    (hk : BinaryOperator.ofKind? k = some op) (hks : Derives .sum ks) (hls : Derives .factor ls) :
    Derives .sum (ks ++ k :: ls) := by
  cases k with
  | plus => exact .add hks (.factor hls)
  | minus => exact .subtract hks (.factor hls)
  | star => exact hks.extend_sum fun _ hjs => .multiply hjs hls
  | slash => exact hks.extend_sum fun _ hjs => .divide hjs hls
  | _ => exact absurd hk (by simp [BinaryOperator.ofKind?])

/-- Whether an expression is derived behind any operator. -/
def Category.Joins : Category → List SyntaxKind → Prop
  | sum, ls | product, ls | factor, ls => ∀ ks k op, BinaryOperator.ofKind? k = some op →
      Derives .sum ks → Derives .sum (ks ++ k :: ls)
  | _, _ => True

/-- **Any two expressions make one with any operator between them**, whichever way it is derived. -/
theorem Derives.joins {c : Category} {ls : List SyntaxKind} (h : Derives c ls) : c.Joins ls := by
  induction h with
  | add left right ih _ =>
    intro ks k op hk hks
    rw [← List.cons_append, ← List.append_assoc]
    exact .add (ih ks k op hk hks) right
  | subtract left right ih _ =>
    intro ks k op hk hks
    rw [← List.cons_append, ← List.append_assoc]
    exact .subtract (ih ks k op hk hks) right
  | multiply left right ih ih' =>
    intro ks k op hk hks
    rw [← List.cons_append, ← List.append_assoc]
    exact ih' _ star .multiply rfl (ih ks k op hk hks)
  | divide left right ih ih' =>
    intro ks k op hk hks
    rw [← List.cons_append, ← List.append_assoc]
    exact ih' _ slash .divide rfl (ih ks k op hk hks)
  | product _ ih | factor _ ih => exact ih
  | negate inner _ => exact fun ks k op hk hks => hks.join_factor hk (.negate inner)
  | atom only _ => exact fun ks k op hk hks => hks.join_factor hk (.atom only)
  | _ => trivial

/-- What was read for a goal, as the grammar derives it: behind an operand that is a sum, or on its
own. -/
def Goal.Derived : Goal → List SyntaxKind → Prop
  | operand, ks => Derives .factor ks
  | operations power _, ks =>
    (∀ js, Derives .sum js → Derives .sum (js ++ ks)) ∧ (3 < power → ks = [])
  | expression power, ks => Derives .sum ks ∧ (3 < power → Derives .factor ks)

theorem leftPower_le_three (op : BinaryOperator) : op.leftPower ≤ 3 := by cases op <;> decide

/-- **An expression that is read without a complaint is derived.** -/
theorem Reads.derived {g : Goal} {ls rest : List Lexeme} {x : Outcome} (h : Reads g ls x rest)
    (hx : complaintsAll x.items = []) :
    ∃ ks, ls.map Lexeme.kind = ks ++ rest.map Lexeme.kind ∧ g.Derived ks := by
  induction h with
  | number hl => exact ⟨[intNumber], by simp [hl], .atom .number⟩
  | reference hl => exact ⟨[ident], by simp [hl], .atom .name⟩
  | negation hl _ ih =>
    obtain ⟨ks, hks, -, hfactor⟩ := ih (by simpa using hx)
    exact ⟨minus :: ks, by simp [hl, hks], .negate (hfactor (by decide))⟩
  | parenthesised hl _ close ih =>
    simp only [Outcome.items_found, complaintsAll_cons, complaints_node, complaints_word,
      complaintsAll_append, complaintsAll_nil, List.nil_append, List.append_nil,
      List.append_eq_nil_iff] at hx
    obtain ⟨ks, hks, hsum, -⟩ := ih hx.1
    obtain ⟨r, rfl, hr⟩ := eq_cons_of_expectation close hx.2
    exact ⟨lParen :: (ks ++ [rParen]), by simp [hl, hks, hr], .atom (.parens hsum)⟩
  | missing _ recover => exact absurd hx (by simp [complaintsAll_recovery recover])
  | done => exact ⟨[], rfl, fun js hjs => by simpa using hjs, fun _ => rfl⟩
  | @operation l ls mid rest power left op x y hl binds inner more ih ih' =>
    have hleft := more.complaintsAll_prefix
    rw [hx, List.prefix_nil] at hleft
    simp only [Goal.before, complaintsAll_cons, complaints_node, complaints_word, complaintsAll_nil,
      List.nil_append, List.append_nil, List.append_eq_nil_iff] at hleft
    obtain ⟨ks, hks, hsum, -⟩ := ih hleft.2
    obtain ⟨ks', hks', hrest, -⟩ := ih' hx
    refine ⟨l.kind :: (ks ++ ks'), by simp [hks, hks'], fun js hjs => ?_, fun hpower => ?_⟩
    · rw [← List.cons_append, ← List.append_assoc]
      exact hrest _ (hsum.joins js l.kind op hl hjs)
    · have := leftPower_le_three op
      omega
  | absent first ih =>
    obtain ⟨ks, hks, hfactor⟩ := ih hx
    exact ⟨ks, hks, .product (.factor hfactor), fun _ => hfactor⟩
  | present first more ih ih' =>
    have hleft := more.complaintsAll_prefix
    rw [hx, List.prefix_nil] at hleft
    obtain ⟨ks, hks, hfactor⟩ := ih hleft
    obtain ⟨ks', hks', hrest, hpower⟩ := ih' hx
    refine ⟨ks ++ ks', by simp [hks, hks'], hrest ks (.product (.factor hfactor)), fun h => ?_⟩
    rw [hpower h, List.append_nil]
    exact hfactor

/-- **A file that is read without a complaint is derived.** -/
theorem ReadsFile.derived {ls : List Lexeme} {os : List Outline} (h : ReadsFile ls os)
    (hos : complaintsAll os = []) : Derives .file (ls.map Lexeme.kind) := by
  induction h with
  | nil => exact .nil
  | separator hl _ ih =>
    rw [List.map_cons, hl]
    exact .separator (ih (by simpa using hos))
  | unmatched => exact absurd hos (by simp)
  | definition hl named equals value _ ih =>
    simp only [complaintsAll_cons, complaints_node, complaints_word, complaintsAll_append,
      List.nil_append, List.append_eq_nil_iff] at hos
    obtain ⟨⟨hns, hes, hx⟩, hos⟩ := hos
    obtain ⟨n, rfl, hn⟩ := eq_cons_of_naming named hns
    obtain ⟨e, rfl, he⟩ := eq_cons_of_expectation equals hes
    obtain ⟨ks, hks, hsum, -⟩ := value.derived hx
    simp only [List.map_cons, hl, hn, he, hks]
    exact .next (.definition hsum) (ih hos)
  | expression _ value _ ih =>
    rw [complaintsAll_append, List.append_eq_nil_iff] at hos
    obtain ⟨ks, hks, hsum, -⟩ := value.derived hos.1
    rw [hks]
    exact .next (.bare hsum) (ih hos.2)

/-- **The rules accept exactly what the grammar derives.** -/
theorem ReadsFile.complaintsAll_eq_nil_iff {ls : List Lexeme} {os : List Outline}
    (h : ReadsFile ls os) : complaintsAll os = [] ↔ Derives .file (ls.map Lexeme.kind) :=
  ⟨h.derived, fun hd => h.accepted hd.leads⟩

end LosslessSyntax.Grammar
