import LosslessSyntax.Proofs.Lexeme.Language
import LosslessSyntax.Proofs.Parse.Acceptance
import LosslessSyntax.Proofs.Parse.Locations
import Mathlib.Data.Nat.Digits.Defs

/-!
# Proofs/Parse/Values — what literals are worth

A literal is one number of the text and nothing else, and its value is what the digits of the number are
worth in base ten.  Reading the digits one after the other gives the same (`Text.Integer.ofDigits_eq`), and
only a value above the greatest integer is none: a number has a digit and no sign, so it cannot fail to be
read in any other way.  The literals without a value are the errors that are added to those of the grammar,
which never uses their wording.
-/

namespace LosslessSyntax

open Lexeme (significant tokenize)
open SyntaxKind

/-! ## Base ten -/

namespace Text.Integer

/-- **What the digits of a word are worth in base ten**, whatever stands between them. -/
def decimal (word : String) : Nat :=
  Nat.ofDigits 10 ((word.toList.filter Char.isDigit).map digit).reverse

theorem ofDigits_concat (ds : List Char) (d : Char) :
    ofDigits (ds ++ [d]) = digit d + 10 * ofDigits ds := by
  rw [ofDigits, List.foldl_append, Nat.add_comm]
  rfl

/-- **Reading digits from the left gives their value.** -/
theorem ofDigits_eq (ds : List Char) : ofDigits ds = Nat.ofDigits 10 (ds.map digit).reverse := by
  induction ds using List.reverseRecOn with
  | nil => rfl
  | append_singleton ds d ih =>
    rw [ofDigits_concat, ih, List.map_append, List.map_singleton, List.reverse_concat,
      Nat.ofDigits_cons]

/-- Zeros in front and low lines count for nothing. -/
example : decimal "00_12_" = 12 := by decide +kernel

end Text.Integer

open Text.Integer (decimal)

namespace Lexeme

variable {text : String} {l : Lexeme}

theorem value_eq_decimal (h : l ∈ tokenize text) (hl : l.kind = intNumber) :
    l.value = decimal l.text := by
  obtain ⟨d, ds, hsplit, hds⟩ := digits_of_intNumber h hl
  have hfilter : l.text.toList.filter Char.isDigit = l.text.toList.filter (· ≠ '_') := by
    refine List.filter_congr fun c hc => ?_
    by_cases hlow : c = '_'
    · simp [hlow]
    · have hmem : c ∈ l.text.toList.filter (· ≠ '_') := List.mem_filter.mpr ⟨hc, by simp [hlow]⟩
      rw [hds c (hsplit ▸ hmem), decide_eq_true hlow]
  rw [value, Text.Integer.ofDigits_eq, decimal, hfilter]

/-- **A number of a text is read as its value**, up to the greatest integer. -/
theorem parse?_eq (h : l ∈ tokenize text) (hl : l.kind = intNumber) :
    Text.Integer.parse? l.text.toList =
      if decimal l.text ≤ 2 ^ 63 - 1 then some (decimal l.text : Int) else none := by
  obtain ⟨d, ds, hsplit, hds⟩ := digits_of_intNumber h hl
  have hnone := parse?_isNone_eq_false_iff h hl
  have hvalue : Text.Integer.signed? (l.text.toList.filter (· ≠ '_')) = some (l.value : Int) := by
    rw [value, hsplit, Text.Integer.signed?_of_digits hds]
  rw [← value_eq_decimal h hl]
  split
  · next hle =>
    obtain ⟨n, hn⟩ := Option.isSome_iff_exists.mp (Option.isNone_eq_false_iff.mp (hnone.mpr hle))
    have hsome := (Option.filter_eq_some_iff.mp hn).1
    rw [hn, ← hsome, hvalue]
  · next hgt =>
    have := mt hnone.mp hgt
    simpa using this

end Lexeme

/-! ## Literals -/

/-- **A literal spells a number of a text**: it consists of the number alone, which is a digit and more
digits that low lines may group, and it is worth what the digits are worth, unless that is too much. -/
structure Element.Spells (text : String) (e : Element) (l : Lexeme) : Prop where
  mem : l ∈ tokenize text
  kind : l.kind = intNumber
  word : e.literalWord? = some (.word intNumber e.start l.text)
  stop : e.stop = e.start + l.length
  digits : ∃ c cs, l.text.toList = c :: cs ∧ c.isDigit = true ∧ ∀ d ∈ cs, d.isDigit = true ∨ d = '_'
  value : e.intValue? =
    if decimal l.text ≤ 2 ^ 63 - 1 then some (decimal l.text : Int) else none

namespace Element

variable {text : String} {e : Element} {l : Lexeme}

/-- A literal that stands for what was read is the number, where it stands. -/
theorem Stands.eq_literal {all ws : List Lexeme} {os : List Outline}
    (h : e.Stands Grammar.Made all literal os ws) : ∃ l ∈ all, l.kind = intNumber ∧ ∃ place,
      e = .node literal place (place + l.length) [.word intNumber place l.text] := by
  obtain ⟨holds, -, row, tight⟩ := h
  cases holds with
  | @number l _ hl =>
    cases row with
    | trivia ht more ne => exact absurd ht (Bool.eq_false_iff.mp (tight _ rfl))
    | word hmem ht more =>
      obtain rfl := more.eq_nil
      cases more with
      | nil => exact ⟨l, hmem, hl, _, by rw [hl]⟩

theorem spells_of_stands {ws : List Lexeme} {os : List Outline}
    (h : e.Stands Grammar.Made (tokenize text) literal os ws) : ∃ l, e.Spells text l := by
  obtain ⟨l, hmem, hl, place, rfl⟩ := h.eq_literal
  have hword := (Lexeme.legible_tokenize text).mem hmem
  refine ⟨l, hmem, hl, rfl, rfl, ?_, ?_⟩
  · rw [hl] at hword
    exact hword
  · rw [← Lexeme.parse?_eq hmem hl]
    rfl

/-- The error of a literal, if its number is too large: it is about the number. -/
def overflow? (e : Element) : Option SyntaxError :=
  e.literalWord?.bind fun w =>
    if decimal w.text ≤ 2 ^ 63 - 1 then none else some ⟨.literalTooLarge, .range w.range⟩

/-- **A literal has an error exactly if it has no value.** -/
theorem Spells.overflow?_eq (h : e.Spells text l) : e.overflow? =
    if e.isInteger && e.intValue?.isNone then some ⟨.literalTooLarge, .range e.range⟩ else none := by
  have hrange : (Element.word intNumber e.start l.text).range = e.range := by
    rw [Element.range, Element.range, h.stop]
    rfl
  have htext : (Element.word intNumber e.start l.text).text = l.text := by
    rw [Element.text, lexemes_word, Lexeme.spell_cons, Lexeme.spell_nil, String.append_empty]
  have hint : e.isInteger = true := by rw [isInteger, h.word]; rfl
  rw [overflow?, h.word, Option.bind_some, htext, hrange, h.value, hint]
  split <;> rfl

end Element

/-! ## The literals of a parse -/

namespace Parse

/-- The literals of a tree, in the order of the text. -/
def literals (r : Element) : List Element := r.nodes.filter fun e => e.kind == literal

/-- **The literals of a parse are worth what they spell**, before and after the literals that are too
large have been noted. -/
structure ValuesLiterals (text : String) (p : Parse) : Prop where
  /-- Every literal spells a number of the text. -/
  spells : ∀ e ∈ literals p.root, ∃ l, e.Spells text l
  /-- They stand one behind the other. -/
  ordered : (literals p.root).Pairwise fun e f => e.stop ≤ f.start
  /-- The errors that are added are those of the literals, one for each that is too large. -/
  added : p.validated.errors = p.errors ++ (literals p.root).filterMap Element.overflow?
  /-- The others are not about literals. -/
  others : ∀ x ∈ p.errors, x.message ≠ "integer literal is too large"

/-- The errors of the literals among some nodes are those of the literals one by one. -/
theorem literalErrorsOf_eq {text : String} {ns : List Element}
    (h : ∀ e ∈ ns, e.kind = literal → ∃ l, e.Spells text l) :
    literalErrorsOf ns = (ns.filter fun e => e.kind == literal).filterMap Element.overflow? := by
  induction ns with
  | nil => rfl
  | cons e ns ih =>
    have ih := ih fun f hf => h f (List.mem_cons_of_mem e hf)
    rw [← List.singleton_append, literalErrorsOf_append, ih, List.filter_append,
      List.filterMap_append]
    congr 1
    by_cases hkind : e.kind = literal
    · obtain ⟨l, hl⟩ := h e List.mem_cons_self hkind
      rw [List.filter_cons_of_pos (by simp [hkind]), List.filter_nil, List.filterMap_cons,
        hl.overflow?_eq, literalErrorsOf]
      simp only [List.filter_cons, hkind, beq_self_eq_true, Bool.true_and, List.filter_nil]
      split <;> rfl
    · rw [List.filter_cons_of_neg (by simp [hkind])]
      simp [literalErrorsOf, hkind]

theorem message_ne_of_mem_repertoire {c : Complaint} (h : c ∈ Grammar.repertoire) :
    c.message ≠ "integer literal is too large" := by
  have hall : ∀ c ∈ Grammar.repertoire, c.message ≠ "integer literal is too large" := by
    decide +kernel
  exact hall c h

/-- **Literal values are exact up to the limit.**  Every literal of a text has the value of its digits in
base ten if that is at most `2 ^ 63 - 1` and none otherwise; and for each of the second kind, in the order
of the text, there is one error about the range of its number, behind those of the grammar. -/
theorem literalValues (text : String) : ∃ log p, record (tokenize text) = .ok log ∧
    build (tokenize text) log = .ok p ∧ ofText text = .ok p.validated ∧ ValuesLiterals text p := by
  obtain ⟨os, log, hreads, hrecord, -, hreplay⟩ := record_eq (tokenize text)
  have hroot := isRoot_ofOutlines hreads.wordsAll_eq.symm
  have hpos : ∀ l ∈ tokenize text, 0 < l.length := fun _ => Lexeme.length_pos_of_mem_tokenize
  have hspells : ∀ e ∈ (ofOutlines os (tokenize text)).root.nodes, e.kind = literal →
      ∃ l, e.Spells text l := by
    intro e he hkind
    have hbelow := mem_nodesAll_of_ne_sourceFile hreads he (by simp [hkind])
    obtain ⟨kind, ps, vs, hstands⟩ := hroot.stands_of_mem_nodesAll hreads.every hbelow
    obtain rfl : kind = literal := hstands.kind_eq.symm.trans hkind
    exact Element.spells_of_stands hstands
  refine ⟨log, _, hrecord, build_eq hreads hreplay, ofText_of_replay hreads hrecord hreplay, ?_⟩
  refine ⟨fun e he => ?_, ?_, congrArg _ (literalErrorsOf_eq hspells), fun x hx => ?_⟩
  · obtain ⟨he, hkind⟩ := List.mem_filter.mp he
    exact hspells e he (beq_iff_eq.mp hkind)
  · rw [literals, List.pairwise_filter]
    exact (pairwise_literals hreads hpos).imp fun h hm hn => h (beq_iff_eq.mp hm) (beq_iff_eq.mp hn)
  · exact message_ne_of_mem_repertoire (Outline.complaint_mem_repertoire hreads hx)

end Parse

end LosslessSyntax
