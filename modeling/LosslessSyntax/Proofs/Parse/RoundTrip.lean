import LosslessSyntax.Proofs.Parse.Acceptance
import LosslessSyntax.Proofs.Parse.Meaning

/-!
# Proofs/Parse/RoundTrip — what is written can be read again

A body in which nothing is missing is written as a text without errors, and that text has the same body.
The grammar reads every written term as one operand, since operations are in parentheses
(`Term.Readable.exists_readsAs`), and no line goes on with the one behind it, since none begins with an
operator.  What is left is that a text has no terms but those that can be read again
(`Parse.readable_of_mem_sentences`).
-/

namespace LosslessSyntax

open Lexeme
open Grammar (Reads ReadsFile)
open SyntaxKind (literal nameRef prefixExpr binExpr parenExpr variableDef name)
open SyntaxTree (leaf)

/-! ## Words in writing -/

theorem Term.significant_writing_unary (op : UnaryOperator) (t : Term) :
    significant (unary op t).writing =
      leftParen :: (sign op :: significant t.writing ++ [rightParen]) := by
  rw [writing, significant_cons_of_word rfl, significant_cons_of_word rfl, significant_append]
  rfl

theorem Term.significant_writing_binary (op : BinaryOperator) (t u : Term) :
    significant (binary (some op) t u).writing =
      leftParen :: (significant t.writing ++ operator (some op) :: significant u.writing ++
        [rightParen]) := by
  have hop : (operator (some op)).isTrivia = false := by cases op <;> rfl
  rw [writing, significant_cons_of_word rfl, significant_append, significant_cons_of_trivia rfl,
    significant_cons_of_word hop, significant_cons_of_trivia rfl, significant_append,
    List.append_assoc, List.cons_append]
  rfl

/-! ## Terms are read as operands -/

/-- **A term in writing is read as an operand** that means the term. -/
structure Term.ReadsAs (t : Term) (o : Outline) : Prop where
  reads : ∀ rest, Reads .operand (significant t.writing ++ rest) (.found o) rest
  complaints_eq : o.complaints = []
  means : ∃ u, o.bare = [u] ∧ u.isExpression = true ∧ u.term = t

/-- No operator comes first. -/
def NoOperator (ls : List Lexeme) : Prop := ∀ l ∈ ls.head?, BinaryOperator.ofKind? l.kind = none

theorem noOperator_rightParen (ls : List Lexeme) : NoOperator (rightParen :: ls) := by
  intro l hl
  obtain rfl := Option.some.inj hl
  rfl

/-- An operand without operators behind it is an expression. -/
theorem Grammar.Reads.expression_of_operand {ls rest : List Lexeme} {o : Outline}
    (h : Reads .operand ls (.found o) rest) (hrest : NoOperator rest) (power : Nat) :
    Reads (.expression power) ls (.found o) rest :=
  .present h (.done fun l hl op hop => absurd hop (by simp [hrest l hl]))

/-! ### What is read means the term -/

namespace SyntaxTree

variable {u v : SyntaxTree}

theorem term_literal {n : Nat} (h : (n : Int) ≤ Text.Integer.greatest) :
    (node literal [leaf (ofInt n)]).term = .int n := by
  rw [term_node, Term.ofNode_literal]
  change ((Text.Integer.parse? (Text.Integer.render n).toList).map Term.int).getD .missing = _
  rw [Text.Integer.parse?_render h]
  rfl

theorem term_nameRef (name : Name) : (node nameRef [leaf (ofName name)]).term = .var name := by
  rw [term_node, Term.ofNode_nameRef]
  change Term.var ⟨spell [ofName name]⟩ = _
  simp [ofName]

theorem term_prefixExpr (op : UnaryOperator) (hu : u.isExpression = true) :
    (node prefixExpr [leaf (sign op), u]).term = .unary op u.term := by
  cases op
  rw [term_node, Term.ofNode_prefixExpr, terms_cons_of_not_isExpression rfl,
    terms_cons_of_isExpression hu]
  rfl

theorem term_binExpr (op : BinaryOperator) (hu : u.isExpression = true) (hv : v.isExpression = true) :
    (node binExpr [u, leaf (operator (some op)), v]).term = .binary (some op) u.term v.term := by
  have hword : (ownWords [u, leaf (operator (some op)), v]).head? = some (operator (some op)) := by
    cases u with
    | leaf => exact absurd hu (by simp [isExpression])
    | node => cases op <;> rfl
  rw [term_node, Term.ofNode_binExpr, hword, terms_cons_of_isExpression hu,
    terms_cons_of_not_isExpression rfl, terms_cons_of_isExpression hv]
  cases op <;> rfl

theorem term_parenExpr (hu : u.isExpression = true) :
    (node parenExpr [leaf leftParen, u, leaf rightParen]).term = u.term := by
  rw [term_node, Term.ofNode_parenExpr, terms_cons_of_not_isExpression rfl,
    terms_cons_of_isExpression hu]
  rfl

theorem sentence?_variableDef (n : Name) (hu : u.isExpression = true) :
    (node variableDef [leaf letWord, .node name [leaf (ofName n)], leaf equals, u]).sentence? =
      some (.define n u.term) := by
  have hname : name? (.node name [leaf (ofName n)]) = some n := by
    change some (Name.mk (spell [ofName n])) = _
    simp [ofName]
  have hexpr : (node name [leaf (ofName n)]).isExpression = false := rfl
  rw [sentence?, if_pos rfl, terms_cons_of_not_isExpression rfl,
    terms_cons_of_not_isExpression hexpr, terms_cons_of_not_isExpression rfl,
    terms_cons_of_isExpression hu]
  change (([leaf letWord, .node name [leaf (ofName n)], leaf equals, u].filterMap _).head?.map _) = _
  rw [List.filterMap_cons_none rfl, List.filterMap_cons_some hname]
  rfl

theorem sentence?_of_isExpression (hu : u.isExpression = true) : u.sentence? = some (.expr u.term) := by
  cases u with
  | leaf => exact absurd hu (by simp [isExpression])
  | node kind ts =>
    have hkind : kind ≠ variableDef := by
      rintro rfl
      exact absurd hu (by simp [isExpression, SyntaxKind.isExpr])
    rw [sentence?, if_neg hkind]
    exact if_pos hu

end SyntaxTree

/-! ### What is written is read -/

/-- What is read in parentheses is an operand that means the same. -/
theorem Term.ReadsAs.of_parens {t : Term} {ls : List Lexeme} {o : Outline} {u : SyntaxTree}
    (hwriting : significant t.writing = leftParen :: (ls ++ [rightParen]))
    (hreads : ∀ rest, Reads (.expression 0) (ls ++ rightParen :: rest) (.found o) (rightParen :: rest))
    (hcomplaints : o.complaints = []) (hbare : o.bare = [u]) (hexpr : u.isExpression = true)
    (hterm : u.term = t) : t.ReadsAs (.node parenExpr [.word leftParen, o, .word rightParen]) where
  reads rest := by
    rw [hwriting, List.cons_append, List.append_assoc]
    exact .parenthesised rfl (hreads rest) (Grammar.expectation_of_kind rfl rest)
  complaints_eq := by simp [hcomplaints]
  means := ⟨.node parenExpr [leaf leftParen, u, leaf rightParen], by simp [hbare], rfl,
    (SyntaxTree.term_parenExpr hexpr).trans hterm⟩

/-- **Every term that can be read again is read as an operand.** -/
theorem Term.Readable.exists_readsAs {t : Term} (h : t.Readable) : ∃ o, t.ReadsAs o := by
  induction h with
  | @int n hn =>
    exact ⟨.node literal [.word (ofInt n)], fun rest => .number rfl, by simp,
      .node literal [leaf (ofInt n)], by simp, rfl, SyntaxTree.term_literal hn⟩
  | @var name hname =>
    exact ⟨.node nameRef [.word (ofName name)], fun rest => .reference rfl, by simp,
      .node nameRef [leaf (ofName name)], by simp, rfl, SyntaxTree.term_nameRef name⟩
  | @unary t op _ ih =>
    obtain ⟨o, hreads, hcomplaints, u, hbare, hexpr, rfl⟩ := ih
    refine ⟨_, .of_parens (o := .node prefixExpr [.word (sign op), o])
      (significant_writing_unary op u.term) (fun rest => ?_) (by simp [hcomplaints]) (by simp [hbare])
      rfl (SyntaxTree.term_prefixExpr op hexpr)⟩
    have hclose := noOperator_rightParen rest
    have hinner := (hreads (rightParen :: rest)).expression_of_operand hclose
    exact (Reads.negation rfl (hinner UnaryOperator.negate.power)).expression_of_operand hclose 0
  | @binary t t' op _ _ ih ih' =>
    obtain ⟨o, hreads, hcomplaints, u, hbare, hexpr, rfl⟩ := ih
    obtain ⟨o', hreads', hcomplaints', v, hbare', hexpr', rfl⟩ := ih'
    refine ⟨_, .of_parens (o := .node binExpr [o, .word (operator (some op)), o'])
      (significant_writing_binary op u.term v.term) (fun rest => ?_)
      (by simp [hcomplaints, hcomplaints']) (by simp [hbare, hbare']) rfl
      (SyntaxTree.term_binExpr op hexpr hexpr')⟩
    rw [List.append_assoc, List.cons_append]
    have hclose := noOperator_rightParen rest
    have hright := (hreads' (rightParen :: rest)).expression_of_operand hclose op.rightPower
    exact .present (hreads _) (.operation (BinaryOperator.ofKind?_kind op) (Nat.zero_le _) hright
      (.done fun l hl op' hop => absurd hop (by simp [hclose l hl])))

/-! ## Sentences are read as statements -/

/-- The first word of a term in writing is no operator, and no word at which an expression stops. -/
theorem Term.Readable.exists_first {t : Term} (h : t.Readable) :
    ∃ l ls, significant t.writing = l :: ls ∧ BinaryOperator.ofKind? l.kind = none ∧
      Grammar.expressionStops.contains l.kind = false := by
  cases h with
  | int => exact ⟨_, _, rfl, rfl, by rfl⟩
  | var => exact ⟨_, _, rfl, rfl, by rfl⟩
  | unary => exact ⟨_, _, significant_writing_unary .., rfl, by rfl⟩
  | binary => exact ⟨_, _, significant_writing_binary .., rfl, by rfl⟩

theorem Sentence.significant_writing_define (name : Name) (t : Term) :
    significant (define name t).writing =
      letWord :: ofName name :: equals :: significant t.writing := by
  rw [writing, significant_cons_of_word rfl, significant_cons_of_trivia rfl,
    significant_cons_of_word rfl, significant_cons_of_trivia rfl, significant_cons_of_word rfl,
    significant_cons_of_trivia rfl, significant_append, significant_cons_of_trivia rfl]
  simp [significant]

theorem Sentence.significant_writing_expr (t : Term) :
    significant (expr t).writing = significant t.writing := by
  rw [writing, significant_append, significant_cons_of_trivia rfl]
  simp [significant]

/-- **Words are read as a file that means sentences**: no operator comes first, and nothing is complained
about. -/
structure ReadsFileAs (ls : List Lexeme) (os : List Outline) (ss : List Sentence) : Prop where
  first : NoOperator ls
  reads : ReadsFile ls os
  complaints_eq : Outline.complaintsAll os = []
  means : Outline.sentences os = ss

/-- **Sentences in writing are read as a file that means them.** -/
theorem exists_readsFileAs {ss : List Sentence} (h : ∀ s ∈ ss, s.Readable) :
    ∃ os, ReadsFileAs (significant (ss.flatMap Sentence.writing)) os ss := by
  induction ss with
  | nil => exact ⟨[], by simp [NoOperator, significant], .nil, by simp, rfl⟩
  | cons s ss ih =>
    -- no operator comes first in the lines behind, so the expression ends where its line does
    obtain ⟨os, first, reads, complaints, means⟩ := ih fun r hr => h r (List.mem_cons_of_mem _ hr)
    rw [List.flatMap_cons, significant_append]
    cases h s List.mem_cons_self with
    | @define n t hname value =>
      obtain ⟨o, hreads, hcomplaints, u, hbare, hexpr, rfl⟩ := value.exists_readsAs
      have hvalue := (hreads _).expression_of_operand first 0
      rw [Sentence.significant_writing_define, List.cons_append, List.cons_append, List.cons_append]
      refine ⟨_, fun l hl => ?_, .definition rfl (Grammar.naming_of_kind rfl _)
        (Grammar.expectation_of_kind rfl _) hvalue reads, by simp [hcomplaints, complaints], ?_⟩
      · obtain rfl := Option.some.inj hl
        rfl
      · rw [Outline.sentences_cons (by simp [hbare]) (SyntaxTree.sentence?_variableDef n hexpr), means]
    | @expr t value =>
      obtain ⟨o, hreads, hcomplaints, u, hbare, hexpr, rfl⟩ := value.exists_readsAs
      obtain ⟨l, ls, hfirst, hop, hstops⟩ := value.exists_first
      have hvalue := (hreads _).expression_of_operand first 0
      rw [Sentence.significant_writing_expr]
      rw [hfirst, List.cons_append] at hvalue ⊢
      refine ⟨_, fun m hm => ?_, .expression hstops hvalue reads, by simp [hcomplaints, complaints], ?_⟩
      · obtain rfl := Option.some.inj hm
        exact hop
      · have hs := SyntaxTree.sentence?_of_isExpression hexpr
        exact (Outline.sentences_cons hbare hs os).trans (by rw [means])

/-! ## Numbers in writing -/

/-- A lexeme has a value if it is a number. -/
def Lexeme.HasValue (l : Lexeme) : Prop :=
  l.kind = SyntaxKind.intNumber → (Text.Integer.parse? l.text.toList).isSome = true

theorem Lexeme.hasValue_of_kind {l : Lexeme} (h : (l.kind != SyntaxKind.intNumber) = true) :
    l.HasValue :=
  fun hk => absurd hk (bne_iff_ne.mp h)

/-- The numbers in the writing of a term that can be read again have values. -/
theorem Term.Readable.hasValue {t : Term} (h : t.Readable) : ∀ l ∈ t.writing, l.HasValue := by
  induction h with
  | @int n hn =>
    refine List.forall_mem_singleton.mpr fun _ => Option.isSome_iff_exists.mpr ⟨n, ?_⟩
    exact Text.Integer.parse?_render hn
  | var => exact List.forall_mem_singleton.mpr (hasValue_of_kind rfl)
  | unary op _ ih =>
    simp only [writing, List.forall_mem_cons, List.forall_mem_append]
    exact ⟨hasValue_of_kind rfl, hasValue_of_kind rfl, ih, hasValue_of_kind rfl, List.forall_mem_nil _⟩
  | binary op _ _ ih ih' =>
    have hop : (operator (some op)).HasValue := hasValue_of_kind (by cases op <;> rfl)
    simp only [writing, List.forall_mem_cons, List.forall_mem_append]
    exact ⟨hasValue_of_kind rfl, ih, hasValue_of_kind rfl, hop, hasValue_of_kind rfl, ih',
      hasValue_of_kind rfl, List.forall_mem_nil _⟩

/-- The numbers in the line of a sentence that can be read again have values. -/
theorem Sentence.Readable.hasValue {s : Sentence} (h : s.Readable) : ∀ l ∈ s.writing, l.HasValue := by
  cases h with
  | define hname value =>
    simp only [writing, List.forall_mem_cons, List.forall_mem_append]
    exact ⟨hasValue_of_kind rfl, hasValue_of_kind rfl, hasValue_of_kind rfl, hasValue_of_kind rfl,
      hasValue_of_kind rfl, hasValue_of_kind rfl, value.hasValue, hasValue_of_kind rfl,
      List.forall_mem_nil _⟩
  | expr value =>
    exact List.forall_mem_append.mpr
      ⟨value.hasValue, List.forall_mem_singleton.mpr (hasValue_of_kind rfl)⟩

namespace Parse

open Lexeme (tokenize)

/-- **A sentence of a text in which nothing is missing can be read again.** -/
theorem readable_of_mem_sentences {text : String} {os : List Outline}
    (hreads : ReadsFile (significant (tokenize text)) os) {s : Sentence}
    (hs : s ∈ Outline.sentences os) (hwhole : s.value.IsWhole) : s.Readable :=
  (legible_of_mem_sentences hreads hs).readable hwhole

/-- A text that is read without a complaint, and whose numbers have values, has no errors. -/
theorem errors_ofOutlines {text : String} {os : List Outline}
    (hreads : ReadsFile (significant (tokenize text)) os) (hclean : Outline.complaintsAll os = [])
    (hvalues : ∀ l ∈ tokenize text, l.HasValue) :
    (ofOutlines os (tokenize text)).errors = [] := by
  have hplanted : (Outline.plantAll os 0 (tokenize text)).errors = [] := by
    rwa [← List.map_eq_nil_iff, Outline.map_complaint_plantAll]
  have hliterals : literalErrors (ofOutlines os (tokenize text)).root = [] := by
    refine (literalErrors_eq_nil_iff hreads hclean).mpr fun l hl hk => ?_
    rw [← Lexeme.parse?_isNone_eq_false_iff hl hk, Option.isNone_eq_false_iff]
    exact hvalues l hl hk
  exact List.append_eq_nil_iff.mpr ⟨hplanted, hliterals⟩

/-- Sentences in writing that can be read again are read as they are, without an error. -/
theorem ofText_pretty {ss : List Sentence} (h : ∀ s ∈ ss, s.Readable) :
    ∃ q, ofText (Body.ofSentences ss).pretty = .ok q ∧ q.errors = [] ∧
      Body.ofFile q.root = Body.ofSentences ss := by
  obtain ⟨os, -, hreads, hclean, hmeans⟩ := exists_readsFileAs h
  have hlegible : ∀ s ∈ ss, s.Legible := fun s hs => (h s hs).legible
  rw [← tokenize_pretty hlegible] at hreads
  refine ⟨_, ofText_of_reads hreads, errors_ofOutlines hreads hclean fun l hl => ?_, ?_⟩
  · rw [tokenize_pretty hlegible] at hl
    obtain ⟨s, hs, hl⟩ := List.mem_flatMap.mp hl
    exact (h s hs).hasValue l hl
  · rw [body_ofOutlines hreads fun l => Lexeme.length_pos_of_mem_tokenize, hmeans]

/-- **A body in which nothing is missing can be written and read again.**  Every text is parsed, and if
nothing is missing in its body, the text that the body is written as is parsed without an error and has
the same body, statement by statement and number by number.  So it is written the same way again. -/
theorem roundTrip (text : String) : ∃ p, ofText text = .ok p ∧
    (Expr.missing ∉ (Body.ofFile p.root).exprs →
      ∃ q, ofText (Body.ofFile p.root).pretty = .ok q ∧ q.errors = [] ∧
        Body.ofFile q.root = Body.ofFile p.root ∧
        (Body.ofFile q.root).pretty = (Body.ofFile p.root).pretty) := by
  obtain ⟨os, hreads, htext⟩ := ofText_eq text
  refine ⟨_, htext, fun hwhole => ?_⟩
  have hbody := body_ofOutlines hreads fun l => Lexeme.length_pos_of_mem_tokenize
  rw [hbody, Body.missing_mem_ofSentences] at hwhole
  have hreadable : ∀ s ∈ Outline.sentences os, s.Readable := fun s hs =>
    readable_of_mem_sentences hreads hs (Classical.not_not.mp fun hn => hwhole ⟨s, hs, hn⟩)
  obtain ⟨q, hq, herrors, hsame⟩ := ofText_pretty hreadable
  rw [hbody]
  exact ⟨q, hq, herrors, hsame, by rw [hsame]⟩

/-- A text may have errors although nothing is missing in its body. -/
theorem roundTrip_unmatched : ∃ p, ofText "let a = 1_0 ) -a * (b)" = .ok p ∧ p.errors ≠ [] ∧
    Expr.missing ∉ (Body.ofFile p.root).exprs ∧
    ∃ q, ofText (Body.ofFile p.root).pretty = .ok q ∧ q.errors = [] ∧
      Body.ofFile q.root = Body.ofFile p.root ∧
      (Body.ofFile q.root).pretty = (Body.ofFile p.root).pretty := by
  obtain ⟨p, hp, h⟩ := roundTrip "let a = 1_0 ) -a * (b)"
  have hsome : (ofText "let a = 1_0 ) -a * (b)").toOption.any (fun p =>
      decide (p.errors ≠ [] ∧ Expr.missing ∉ (Body.ofFile p.root).exprs)) = true := by decide +kernel
  rw [hp] at hsome
  obtain ⟨herrors, hwhole⟩ := of_decide_eq_true hsome
  exact ⟨p, hp, herrors, hwhole, h hwhole⟩

end Parse

end LosslessSyntax
