import LosslessSyntax.Proofs.Body.Meaning
import LosslessSyntax.Proofs.Body.Writing

/-!
# Proofs/Body/Origin — where terms come from

What a text means is made of the words of the text.  So it is legible, and if nothing is missing in it,
it can be read again: its numbers are not negative, since a sign is not part of a number, and they are in
range, since a number without a value would be missing; and its names are identifiers of the text.
-/

namespace LosslessSyntax

open Lexeme (tokenize ofName)
open Lowering (termOf? nth_map_term)
open SyntaxKind (intNumber ident literal nameRef prefixExpr binExpr parenExpr)

namespace Element

variable {text : String} {e c : Element}

/-- **An element is of a text** if its words are lexemes of the text. -/
def IsOf (text : String) (e : Element) : Prop := ∀ l ∈ e.lexemes, l ∈ tokenize text

theorem IsOf.of_mem_children (h : e.IsOf text) (hc : c ∈ e.children) : c.IsOf text := by
  intro l hl
  refine h l ?_
  cases e with
  | word => exact absurd hc (by simp [children])
  | node =>
    rw [lexemes_node, lexemesAll_eq_flatMap]
    exact List.mem_flatMap.mpr ⟨c, hc, hl⟩

/-- A name of a text, or the use of one, is an identifier. -/
theorem IsShaped.isAlone_text (h : e.IsShaped) (hof : e.IsOf text)
    (hk : schema? e.kind = some [.one [.word ident]]) : (ofName ⟨e.text⟩).IsAlone := by
  obtain ⟨start, word, hsolid⟩ := h.solid_of_leaf hk
  have hlexemes := h.lexemes_of_leaf hsolid rfl
  have hname : ofName ⟨e.text⟩ = ⟨ident, word⟩ := by
    rw [Element.text, hlexemes, ofName]
    simp
  rw [hname]
  exact Lexeme.isAlone_of_ident (hof _ (by simp [hlexemes])) rfl

/-- A literal of a text is legible. -/
theorem IsShaped.legible_of_literal (h : e.IsShaped) (hof : e.IsOf text) (hnode : e.isNode = true)
    (hk : e.kind = literal) : e.tree.term.Legible := by
  obtain ⟨start, word, -, hlexemes, hvalue⟩ := h.exists_number hk
  rw [h.term_of_literal hnode hk, hvalue]
  cases hn : Text.Integer.parse? word.toList with
  | none => exact .missing
  | some n =>
    have hmem := hof ⟨intNumber, word⟩ (by simp [hlexemes])
    obtain ⟨d, ds, hsplit, hds⟩ := Lexeme.digits_of_intNumber hmem rfl
    obtain ⟨m, rfl⟩ := Int.eq_ofNat_of_zero_le (Text.Integer.nonneg_of_parse? hsplit hds hn)
    exact .int (Text.Integer.le_greatest_of_parse? hn).2

/-- A part is missing or an expression inside the node. -/
theorem legible_part (h : e.IsTidy) (hof : e.IsOf text)
    (ih : ∀ c ∈ e.children, c.IsTidy → c.IsOf text → c.isExpression = true → c.tree.term.Legible)
    (n : Nat) : (termOf? e.expressions[n]?).Legible := by
  cases hc : e.expressions[n]? with
  | none => exact .missing
  | some c =>
    obtain ⟨hmem, htidy, hexpr⟩ := h.of_expressions hc
    exact ih c hmem htidy (hof.of_mem_children hmem) hexpr

/-- **An expression of a text is legible.** -/
theorem legible_of_isExpression (e : Element) (h : e.IsTidy) (hof : e.IsOf text)
    (hexpr : e.isExpression = true) : e.tree.term.Legible := by
  obtain ⟨hnode, hkind⟩ := Bool.and_eq_true_iff.mp hexpr
  obtain ⟨shaped, -⟩ := h.self hnode
  have part : ∀ n : Nat, (termOf? e.expressions[n]?).Legible :=
    legible_part h hof fun c hc htidy hof hexpr =>
      have := sizeOf_lt_of_mem_children hc
      legible_of_isExpression c htidy hof hexpr
  cases hk : e.kind with
  | literal => exact shaped.legible_of_literal hof hnode hk
  | nameRef =>
    rw [shaped.term_of_nameRef hnode hk]
    exact .var (shaped.isAlone_text hof (by rw [hk]; rfl))
  | prefixExpr =>
    rw [term_tree hnode, hk, Term.ofNode_prefixExpr, nth_map_term]
    exact .unary .negate (part 0)
  | binExpr =>
    obtain ⟨op, -, hterm⟩ := shaped.term_of_binExpr hnode hk
    rw [hterm, nth_map_term, nth_map_term]
    exact .binary op (part 0) (part 1)
  | parenExpr =>
    rw [term_tree hnode, hk, Term.ofNode_parenExpr, nth_map_term]
    exact part 0
  | _ => exact absurd hkind (by simp [hk, SyntaxKind.isExpr])
termination_by sizeOf e

theorem isNode_of_firstNode? {p : SyntaxKind → Bool} (h : e.firstNode? p = some c) :
    c.isNode = true :=
  (List.mem_filter.mp (List.mem_of_find?_eq_some h)).2

/-- **A statement of a text is legible.** -/
theorem legible_of_sentence? (h : e.IsTidy) (hof : e.IsOf text) {s : Sentence}
    (hs : e.tree.sentence? = some s) : s.Legible := by
  cases hnode : e.isNode with
  | false => exact absurd hs (by simp [sentence?_tree_of_not_stmt, hnode])
  | true =>
    rw [sentence?_tree hnode] at hs
    split at hs
    · rw [Lowering.head?_filterMap_name? e h, terms_children, nth_map_term] at hs
      obtain ⟨n, hn, rfl⟩ := Option.map_eq_some_iff.mp hs
      obtain ⟨c, hc, rfl⟩ := Option.map_eq_some_iff.mp hn
      have hmem := mem_children_of_firstNode? hc
      have hk : c.kind = SyntaxKind.name := beq_iff_eq.mp (kind_of_firstNode? hc)
      obtain ⟨shaped, -⟩ := (h.of_mem_children hmem).self (isNode_of_firstNode? hc)
      exact .define (shaped.isAlone_text (hof.of_mem_children hmem) (by rw [hk]; rfl))
        (legible_part h hof (fun c _ => legible_of_isExpression c) 0)
    split at hs
    · next hkind =>
      obtain rfl := Option.some.inj hs
      exact .expr (legible_of_isExpression e h hof (Bool.and_eq_true_iff.mpr ⟨hnode, hkind⟩))
    · exact absurd hs (by simp)

end Element

end LosslessSyntax
