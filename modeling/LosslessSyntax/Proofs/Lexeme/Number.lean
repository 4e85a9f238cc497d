import LosslessSyntax.Lexeme.Scan
import LosslessSyntax.Proofs.Text.Unambiguous
import LosslessSyntax.Text.Integer
import Mathlib.Algebra.Ring.Nat
import Mathlib.Data.List.TakeWhile

/-!
# Proofs/Lexeme/Number — what the lexemes of a text spell

Every lexeme of a text is the first lexeme of some rest of it, so it has at least one character.  The
first character decides in which way a lexeme is cut off (`scan_cases`), so the kind of a lexeme says
what characters it has.  A number is made of digits and of low lines that group them, and
it has a value unless it is too large.
-/

namespace LosslessSyntax

namespace Lexeme

/-! ## Lexemes of a text -/

theorem exists_scan_of_mem_words {w : SyntaxKind × List Char} :
    ∀ {cs : List Char}, w ∈ words cs → ∃ c ds, w = ((scan c ds).kind, c :: (scan c ds).tail)
  | [], h => absurd h (by simp)
  | c :: cs, h => by
      rw [words_cons] at h
      rcases List.mem_cons.mp h with rfl | h
      · exact ⟨c, cs, rfl⟩
      · exact exists_scan_of_mem_words h
termination_by cs => cs.length
decreasing_by exact Nat.lt_succ_of_le (length_rest_scan_le c cs)

theorem exists_scan_of_mem_tokenize {text : String} {l : Lexeme} (h : l ∈ tokenize text) :
    ∃ c cs, l = ofWord ((scan c cs).kind, c :: (scan c cs).tail) := by
  obtain ⟨w, hw, rfl⟩ := List.mem_map.mp h
  obtain ⟨c, cs, rfl⟩ := exists_scan_of_mem_words hw
  exact ⟨c, cs, rfl⟩

/-- No lexeme of a text is empty. -/
theorem length_pos_of_mem_tokenize {text : String} {l : Lexeme} (h : l ∈ tokenize text) :
    0 < l.length := by
  obtain ⟨c, cs, rfl⟩ := exists_scan_of_mem_tokenize h
  have hpos : 0 < c.utf8Size + (String.ofList (scan c cs).tail).utf8ByteSize :=
    Nat.add_pos_left (Char.utf8Size_pos c) _
  simpa [ofWord, length, String.ofList_cons] using hpos

/-! ## What begins a lexeme -/

/-- What is cut off behind a slash. -/
def scanSlash (cs : List Char) : Scan :=
  match splitComment? cs with
  | some (tail, rest) => ⟨.comment, tail, rest⟩
  | none => ⟨.slash, [], cs⟩

/-- What is cut off behind a letter. -/
def scanLetters (c : Char) (cs : List Char) : Scan :=
  .run (wordKind (c :: cs.takeWhile isIdentContinue)) isIdentContinue cs

/-- **The first character of a text decides in which way a lexeme is cut off.** -/
theorem scan_cases (c : Char) :
    scan c = .run .whitespace isWhitespace ∨ scan c = scanSlash ∨ scan c = scanLetters c ∨
    (c.isDigit = true ∧ scan c = .run .intNumber isNumberContinue) ∨
    scan c = fun cs => ⟨(SyntaxKind.ofChar? c).getD .error, [], cs⟩ := by
  by_cases hspace : isWhitespace c = true
  · exact .inl (funext fun cs => if_pos hspace)
  by_cases hslash : c = '/'
  · refine .inr (.inl (funext fun cs => ?_))
    rw [scan, if_neg hspace, if_pos hslash]
    rfl
  by_cases hident : isIdentStart c = true
  · refine .inr (.inr (.inl (funext fun cs => ?_)))
    rw [scan, if_neg hspace, if_neg hslash, if_pos hident, scanLetters]
  by_cases hdigit : isDecDigit c = true
  · refine .inr (.inr (.inr (.inl ⟨hdigit, funext fun cs => ?_⟩)))
    rw [scan, if_neg hspace, if_neg hslash, if_neg hident, if_pos hdigit]
  · refine .inr (.inr (.inr (.inr (funext fun cs => ?_))))
    rw [scan, if_neg hspace, if_neg hslash, if_neg hident, if_neg hdigit]

/-! ## Numbers -/

/-- The number that a lexeme spells in decimal digits, low lines left out. -/
def value (l : Lexeme) : Nat := Text.Integer.ofDigits (l.text.toList.filter (· ≠ '_'))

theorem wordKind_ne_intNumber (w : List Char) : wordKind w ≠ .intNumber := by
  unfold wordKind SyntaxKind.ofKeyword?
  split <;> simp

theorem ofChar?_ne_intNumber (c : Char) : (SyntaxKind.ofChar? c).getD .error ≠ .intNumber := by
  unfold SyntaxKind.ofChar?
  split <;> simp

/-- A number begins with a digit and goes on with digits and low lines. -/
theorem scan_of_intNumber {c : Char} {cs : List Char} (h : (scan c cs).kind = .intNumber) :
    c.isDigit = true ∧ ∀ d ∈ (scan c cs).tail, isNumberContinue d = true := by
  rcases scan_cases c with hc | hc | hc | ⟨hdigit, hc⟩ | hc
  · exact absurd h (by simp [hc, Scan.run])
  · exact absurd h (by cases hcomment : splitComment? cs <;> simp [hc, scanSlash, hcomment])
  · exact absurd h (by simp [hc, scanLetters, Scan.run, wordKind_ne_intNumber])
  · rw [hc]
    exact ⟨hdigit, fun d hd => List.mem_takeWhile_imp hd⟩
  · exact absurd h (by simp [hc, ofChar?_ne_intNumber])

/-- **Without its low lines, a number of a text is one digit or more.** -/
theorem digits_of_intNumber {text : String} {l : Lexeme} (h : l ∈ tokenize text)
    (hl : l.kind = .intNumber) : ∃ d ds, l.text.toList.filter (· ≠ '_') = d :: ds ∧
      ∀ e ∈ d :: ds, e.isDigit = true := by
  obtain ⟨c, cs, rfl⟩ := exists_scan_of_mem_tokenize h
  obtain ⟨hc, htail⟩ := scan_of_intNumber hl
  have hne : c ≠ '_' := fun he => absurd hc (by simp [he])
  refine ⟨c, (scan c cs).tail.filter (· ≠ '_'), by simp [ofWord, hne], fun e he => ?_⟩
  rcases List.mem_cons.mp he with rfl | he
  · exact hc
  · obtain ⟨he, hne⟩ := List.mem_filter.mp he
    have := htail e he
    simp only [isNumberContinue, Bool.or_eq_true, beq_iff_eq] at this
    exact this.resolve_right (by simpa using hne)

end Lexeme

namespace Text.Integer

theorem signed?_of_digits {ds : List Char} {d : Char} (hd : ∀ e ∈ d :: ds, e.isDigit = true) :
    signed? (d :: ds) = some (ofDigits (d :: ds) : Int) := by
  have hminus : d ≠ '-' := fun he => absurd (hd d List.mem_cons_self) (by simp [he])
  have hplus : d ≠ '+' := fun he => absurd (hd d List.mem_cons_self) (by simp [he])
  have hunsigned : unsigned? (d :: ds) = some (ofDigits (d :: ds)) :=
    if_pos ⟨by simp, List.all_eq_true.mpr hd⟩
  unfold signed?
  split
  · next heq => exact absurd (List.cons.inj heq).1 hminus
  · next heq => exact absurd (List.cons.inj heq).1 hplus
  · rw [hunsigned]
    rfl

/-- Digits without a sign have a value unless it is too large. -/
theorem parse?_isNone_iff {cs ds : List Char} {d : Char} (h : cs.filter (· ≠ '_') = d :: ds)
    (hd : ∀ e ∈ d :: ds, e.isDigit = true) :
    (parse? cs).isNone = true ↔ 2 ^ 63 - 1 < ofDigits (cs.filter (· ≠ '_')) := by
  have hgreatest : greatest = 2 ^ 63 - 1 := by decide
  have hrange : least ≤ (ofDigits (d :: ds) : Int) ∧ (ofDigits (d :: ds) : Int) ≤ greatest ↔
      ofDigits (d :: ds) ≤ 2 ^ 63 - 1 := by
    rw [least_eq_neg, hgreatest]
    omega
  rw [parse?, h, signed?_of_digits hd, Option.filter_some, ← Nat.not_le, ← hrange]
  split
  · next hin => exact ⟨fun hnone => absurd hnone Bool.false_ne_true,
      fun hout => absurd (of_decide_eq_true hin) hout⟩
  · next hout => exact ⟨fun _ hin => hout (decide_eq_true hin), fun _ => rfl⟩

/-- The value of digits without a sign is not negative. -/
theorem nonneg_of_parse? {cs ds : List Char} {d : Char} {n : Int}
    (h : cs.filter (· ≠ '_') = d :: ds) (hd : ∀ e ∈ d :: ds, e.isDigit = true)
    (hn : parse? cs = some n) : 0 ≤ n := by
  rw [parse?, h, signed?_of_digits hd] at hn
  obtain ⟨hsome, -⟩ := Option.filter_eq_some_iff.mp hn
  obtain rfl := Option.some.inj hsome
  exact Int.natCast_nonneg _

/-! ### Numbers in writing -/

theorem toList_render (n : Nat) : (render n).toList = Nat.toDigits 10 n := Nat.toList_repr

/-- A number is written as a digit and more digits. -/
theorem exists_digits_render (n : Nat) :
    ∃ d ds, (render n).toList = d :: ds ∧ ∀ e ∈ d :: ds, e.isDigit = true := by
  obtain ⟨d, ds, hds⟩ := List.exists_cons_of_ne_nil (Nat.toDigits_ne_nil (n := n) (b := 10))
  refine ⟨d, ds, (toList_render n).trans hds, fun e he => ?_⟩
  rw [← hds] at he
  exact isDigit_of_mem_toDigits he

/-- Numbers that are not negative are told apart by the way they are written. -/
theorem toString_inj {m n : Nat} (h : toString m = toString n) : m = n := by
  have hdigits : Nat.toDigits 10 m = Nat.toDigits 10 n := by
    rw [← Nat.toList_repr, ← Nat.toList_repr]
    exact congrArg String.toList h
  exact toDigits_inj (by decide) (by decide) hdigits

/-- **So are all numbers**: only the negative ones begin with a sign. -/
theorem render_inj {m n : Int} (h : render m = render n) : m = n := by
  have apart (k i : Nat) : toString k ≠ "-" ++ toString i := by
    intro he
    obtain ⟨d, ds, hd, hdigits⟩ := exists_digits_render k
    have hhead : d :: ds = '-' :: (toString i).toList := by
      refine hd.symm.trans ((congrArg String.toList he).trans ?_)
      rw [String.toList_append]
      rfl
    have hsign := hdigits d List.mem_cons_self
    rw [(List.cons.inj hhead).1] at hsign
    exact absurd hsign (by decide)
  rcases m with m | m <;> rcases n with n | n
  · exact congrArg Int.ofNat (toString_inj h)
  · exact absurd h (apart m (n + 1))
  · exact absurd h.symm (apart n (m + 1))
  · have htail : toString (m + 1) = toString (n + 1) := (String.append_right_inj "-").mp h
    rw [Nat.succ_injective (toString_inj htail)]

/-- **A number that is written has its value**, if it is not negative and not too large. -/
theorem parse?_render {n : Nat} (h : (n : Int) ≤ greatest) :
    parse? (render n).toList = some (n : Int) := by
  obtain ⟨d, ds, hsplit, hds⟩ := exists_digits_render n
  have hfilter : (d :: ds).filter (· ≠ '_') = d :: ds :=
    List.filter_eq_self.mpr fun e he => by
      have := hds e he
      simp only [ne_eq, decide_eq_true_eq]
      rintro rfl
      exact absurd this (by decide)
  have hvalue : ofDigits (d :: ds) = n := by
    rw [← hsplit, toList_render]
    exact Nat.ofDigitChars_ten_toDigits
  have hleast : least ≤ (n : Int) := by
    have : least ≤ 0 := by decide
    omega
  rw [parse?, hsplit, hfilter, signed?_of_digits hds, hvalue, Option.filter_some, if_pos]
  exact decide_eq_true ⟨hleast, h⟩

end Text.Integer

/-- **A number of a text has a value unless it is too large.** -/
theorem Lexeme.parse?_isNone_eq_false_iff {text : String} {l : Lexeme} (h : l ∈ tokenize text)
    (hl : l.kind = .intNumber) :
    (Text.Integer.parse? l.text.toList).isNone = false ↔ l.value ≤ 2 ^ 63 - 1 := by
  obtain ⟨d, ds, hsplit, hds⟩ := digits_of_intNumber h hl
  rw [← Bool.not_eq_true, Text.Integer.parse?_isNone_iff hsplit hds, Nat.not_lt]
  rfl

end LosslessSyntax
