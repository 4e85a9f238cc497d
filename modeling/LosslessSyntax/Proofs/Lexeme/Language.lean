import LosslessSyntax.Proofs.Lexeme.Comment
import LosslessSyntax.Proofs.Lexeme.Spelling

/-!
# Proofs/Lexeme/Language — the words of each kind, and what may follow them

Which words a kind has can be said without cutting a text (`InLanguage`), and so can what may stand
behind a word so that the two do not run together (`EndsBefore`).  The lexer cuts off exactly the words
that satisfy both (`scan_append_iff`), so a text is cut back into the words it was written with if and
only if each of them is in the language of its kind and ends before the next
(`tokens_tokenize_spell_iff`).
-/

namespace LosslessSyntax.Lexeme

open SyntaxKind

/-! ## Runs of a class -/

/-- **A run is cut off where the class ends.** -/
theorem run_append_iff {kind k : SyntaxKind} {p : Char → Bool} {w rest : List Char} :
    Scan.run kind p (w ++ rest) = ⟨k, w, rest⟩ ↔
      kind = k ∧ (∀ c ∈ w, p c = true) ∧ ∀ c ∈ rest.head?, p c = false := by
  refine ⟨fun h => ?_, fun ⟨hk, hw, hrest⟩ => hk ▸ run_append (run_of_forall hw kind) hrest⟩
  obtain ⟨hk, htake, hdrop⟩ := Scan.mk.inj h
  refine ⟨hk, fun c hc => List.mem_takeWhile_imp (htake.symm ▸ hc), fun c hc => ?_⟩
  have hstop := List.head?_dropWhile_not p (w ++ rest)
  rwa [hdrop, hc] at hstop

/-! ## Words and what follows them -/

/-- The kinds of punctuation and their characters. -/
def punctuation : List (SyntaxKind × Char) :=
  [(plus, '+'), (minus, '-'), (star, '*'), (slash, '/'), (eq, '='), (lParen, '('), (rParen, ')'),
    (semi, ';')]

/-- **The words of a kind.** -/
def InLanguage : SyntaxKind → List Char → Prop
  | whitespace, w => w ≠ [] ∧ ∀ c ∈ w, isWhitespace c = true
  | letKw, w => w = ['l', 'e', 't']
  | ident, w => w ≠ ['l', 'e', 't'] ∧ ∃ c cs, w = c :: cs ∧ isWhitespace c = false ∧
      isIdentStart c = true ∧ ∀ d ∈ cs, isIdentContinue d = true
  | intNumber, w => ∃ c cs, w = c :: cs ∧ c.isDigit = true ∧ ∀ d ∈ cs, d.isDigit = true ∨ d = '_'
  | comment, w => IsComment w
  | error, w => ∃ c, w = [c] ∧ isWhitespace c = false ∧ isIdentStart c = false ∧
      c.isDigit = false ∧ ∀ k, (k, c) ∉ punctuation
  | kind, w => ∃ c, w = [c] ∧ (kind, c) ∈ punctuation

/-- **A word of a kind does not run together with the text behind it.** -/
def EndsBefore : SyntaxKind → List Char → List Char → Prop
  | whitespace, _, rest => ∀ c ∈ rest.head?, isWhitespace c = false
  | ident, _, rest | letKw, _, rest => ∀ c ∈ rest.head?, isIdentContinue c = false
  | intNumber, _, rest => ∀ c ∈ rest.head?, c.isDigit = false ∧ c ≠ '_'
  | slash, _, rest => ∀ c ∈ rest.head?, c ≠ '/' ∧ c ≠ '*'
  | comment, w, rest => CommentEnds w rest
  | _, _, _ => True

theorem ofChar?_eq_some_iff {c : Char} {k : SyntaxKind} :
    ofChar? c = some k ↔ (k, c) ∈ punctuation := by
  unfold ofChar? punctuation
  split <;> simp_all [eq_comm]

theorem isNumberContinue_iff {c : Char} : isNumberContinue c = true ↔ c.isDigit = true ∨ c = '_' := by
  rw [isNumberContinue, isDecDigit, Bool.or_eq_true, beq_iff_eq]

theorem wordKind_eq (w : List Char) :
    wordKind w = if w = ['l', 'e', 't'] then letKw else ident := by
  have hlet : String.ofList w = "let" ↔ w = ['l', 'e', 't'] := by
    rw [← String.ofList_inj]
  rw [wordKind, ofKeyword?, if_congr hlet rfl rfl]
  split <;> rfl

/-! ## The first word of a text -/

theorem classes_of_punctuation {k : SyntaxKind} {c : Char} (h : (k, c) ∈ punctuation) :
    isWhitespace c = false ∧ isIdentStart c = false ∧ isDecDigit c = false := by
  have hall : ∀ x ∈ punctuation, isWhitespace x.2 = false ∧ isIdentStart x.2 = false ∧
      isDecDigit x.2 = false := by decide
  exact hall _ h

theorem scan_of_letter {c : Char} {w rest : List Char} (hspace : isWhitespace c = false)
    (hident : isIdentStart c = true) (hw : ∀ d ∈ w, isIdentContinue d = true)
    (hrest : ∀ d ∈ rest.head?, isIdentContinue d = false) :
    scan c (w ++ rest) = ⟨wordKind (c :: w), w, rest⟩ := by
  have hslash : c ≠ '/' := by
    rintro rfl
    exact absurd hident (by decide)
  have hrun : ∀ kind, Scan.run kind isIdentContinue (w ++ rest) = ⟨kind, w, rest⟩ :=
    fun kind => run_append_iff.mpr ⟨rfl, hw, hrest⟩
  have htake : (w ++ rest).takeWhile isIdentContinue = w := congrArg Scan.tail (hrun ident)
  rw [scan, if_neg (by simp [hspace]), if_neg hslash, if_pos hident, htake, hrun]

theorem scan_of_char {c : Char} (hspace : isWhitespace c = false) (hslash : c ≠ '/')
    (hident : isIdentStart c = false) (hdigit : isDecDigit c = false) (cs : List Char) :
    scan c cs = ⟨(ofChar? c).getD error, [], cs⟩ := by
  rw [scan, if_neg (by simp [hspace]), if_neg hslash, if_neg (by simp [hident]),
    if_neg (by simp [hdigit])]

/-- A word of punctuation is one character, and all but the slash may stand in front of anything. -/
theorem inLanguage_of_punctuation {k : SyntaxKind} {c : Char} (h : (k, c) ∈ punctuation)
    (hslash : c ≠ '/') (rest : List Char) : InLanguage k [c] ∧ EndsBefore k [c] rest := by
  simp only [punctuation, List.mem_cons, Prod.mk.injEq, List.not_mem_nil, or_false] at h
  rcases h with ⟨rfl, rfl⟩ | ⟨rfl, rfl⟩ | ⟨rfl, rfl⟩ | ⟨-, rfl⟩ | ⟨rfl, rfl⟩ | ⟨rfl, rfl⟩ |
    ⟨rfl, rfl⟩ | ⟨rfl, rfl⟩
  case inr.inr.inr.inl => exact absurd rfl hslash
  all_goals exact ⟨⟨_, rfl, by decide⟩, trivial⟩

/-- The word that is cut off first is one of its kind and ends there. -/
theorem inLanguage_of_scan {c : Char} {cs w rest : List Char} {k : SyntaxKind}
    (h : scan c cs = ⟨k, w, rest⟩) (hcs : w ++ rest = cs) :
    InLanguage k (c :: w) ∧ EndsBefore k (c :: w) rest := by
  subst hcs
  by_cases hspace : isWhitespace c = true
  · rw [scan, if_pos hspace, run_append_iff] at h
    obtain ⟨rfl, hw, hrest⟩ := h
    exact ⟨⟨List.cons_ne_nil _ _, List.forall_mem_cons.mpr ⟨hspace, hw⟩⟩, hrest⟩
  by_cases hslash : c = '/'
  · subst hslash
    rw [scan, if_neg hspace, if_pos rfl] at h
    split at h
    · next hcomment =>
      obtain ⟨rfl, rfl, rfl⟩ := Scan.mk.inj h
      exact isComment_of_splitComment? hcomment
    · next hnone =>
      obtain ⟨rfl, rfl, -⟩ := Scan.mk.inj h
      exact ⟨⟨_, rfl, by decide⟩, splitComment?_eq_none_iff.mp hnone⟩
  by_cases hident : isIdentStart c = true
  · rw [scan, if_neg hspace, if_neg hslash, if_pos hident, run_append_iff] at h
    obtain ⟨rfl, hw, hrest⟩ := h
    have htake : (w ++ rest).takeWhile isIdentContinue = w :=
      congrArg Scan.tail (run_append_iff.mpr ⟨rfl, hw, hrest⟩ :
        Scan.run ident isIdentContinue (w ++ rest) = _)
    rw [htake, wordKind_eq]
    split
    · next hlet => exact ⟨hlet, hrest⟩
    · next hlet => exact ⟨⟨hlet, c, w, rfl, (Bool.not_eq_true _).mp hspace, hident, hw⟩, hrest⟩
  by_cases hdigit : isDecDigit c = true
  · rw [scan, if_neg hspace, if_neg hslash, if_neg hident, if_pos hdigit, run_append_iff] at h
    obtain ⟨rfl, hw, hrest⟩ := h
    refine ⟨⟨c, w, rfl, hdigit, fun d hd => isNumberContinue_iff.mp (hw d hd)⟩, fun d hd => ?_⟩
    have hstop := hrest d hd
    rwa [isNumberContinue, Bool.or_eq_false_iff, beq_eq_false_iff_ne] at hstop
  · rw [scan, if_neg hspace, if_neg hslash, if_neg hident, if_neg hdigit] at h
    obtain ⟨rfl, rfl, -⟩ := Scan.mk.inj h
    cases hpunct : ofChar? c with
    | none =>
      refine ⟨⟨c, rfl, (Bool.not_eq_true _).mp hspace, (Bool.not_eq_true _).mp hident,
        (Bool.not_eq_true _).mp hdigit, fun k hk => ?_⟩, trivial⟩
      exact absurd (hpunct.symm.trans (ofChar?_eq_some_iff.mpr hk)) (by simp)
    | some k =>
      exact inLanguage_of_punctuation (ofChar?_eq_some_iff.mp hpunct) hslash _

/-- A word of a kind is cut off where it ends. -/
theorem scan_of_inLanguage {c : Char} {w rest : List Char} {k : SyntaxKind}
    (h : InLanguage k (c :: w)) (hends : EndsBefore k (c :: w) rest) :
    scan c (w ++ rest) = ⟨k, w, rest⟩ := by
  unfold InLanguage at h
  split at h
  · rw [scan, if_pos (h.2 c List.mem_cons_self)]
    exact run_append_iff.mpr ⟨rfl, fun d hd => h.2 d (List.mem_cons_of_mem _ hd), hends⟩
  · obtain ⟨rfl, rfl⟩ := List.cons.inj h
    have hletters : ∀ d ∈ ['e', 't'], isIdentContinue d = true :=
      List.forall_mem_cons.mpr ⟨rfl, List.forall_mem_singleton.mpr rfl⟩
    exact scan_of_letter (by decide) (by decide) hletters hends
  · obtain ⟨hlet, d, ds, heq, hspace, hident, hds⟩ := h
    obtain ⟨rfl, rfl⟩ := List.cons.inj heq
    have hkind := wordKind_eq (c :: w)
    rw [if_neg hlet] at hkind
    exact hkind ▸ scan_of_letter hspace hident hds hends
  · obtain ⟨d, ds, heq, hdigit, hds⟩ := h
    obtain ⟨rfl, rfl⟩ := List.cons.inj heq
    obtain ⟨hspace, hslash, hident⟩ := not_isIdentStart_of_isDigit hdigit
    rw [scan, if_neg (by simp [hspace]), if_neg hslash, if_neg (by simp [hident]),
      if_pos (by rwa [isDecDigit])]
    refine run_append_iff.mpr ⟨rfl, fun d hd => isNumberContinue_iff.mpr (hds d hd), fun d hd => ?_⟩
    rw [isNumberContinue, Bool.or_eq_false_iff, beq_eq_false_iff_ne]
    exact hends d hd
  · obtain rfl : c = '/' := by
      rcases h with ⟨_, h, -⟩ | ⟨_, h, -⟩ | ⟨_, h, -⟩ <;> exact (List.cons.inj h).1
    rw [scan, if_neg (by decide), if_pos rfl, splitComment?_of_isComment h hends]
  · obtain ⟨d, heq, hspace, hident, hdigit, hpunct⟩ := h
    obtain ⟨rfl, rfl⟩ := List.cons.inj heq
    have hslash : c ≠ '/' := by
      rintro rfl
      exact hpunct slash (by decide)
    have hnone : ofChar? c = none :=
      Option.eq_none_iff_forall_ne_some.mpr fun k hk => hpunct k (ofChar?_eq_some_iff.mp hk)
    rw [List.nil_append, scan_of_char hspace hslash hident hdigit, hnone]
    rfl
  · obtain ⟨d, heq, hpunct⟩ := h
    obtain ⟨rfl, rfl⟩ := List.cons.inj heq
    obtain ⟨hspace, hident, hdigit⟩ := classes_of_punctuation hpunct
    have hchar := ofChar?_eq_some_iff.mpr hpunct
    by_cases hslash : c = '/'
    · subst hslash
      obtain rfl := Option.some.inj hchar
      rw [scan, if_neg (by decide), if_pos rfl, List.nil_append, splitComment?_eq_none_iff.mpr hends]
    · rw [List.nil_append, scan_of_char hspace hslash hident hdigit, hchar]
      rfl

/-- **The first word of a text is the one that is of its kind and ends before the rest.** -/
theorem scan_append_iff {c : Char} {w rest : List Char} {k : SyntaxKind} :
    scan c (w ++ rest) = ⟨k, w, rest⟩ ↔ InLanguage k (c :: w) ∧ EndsBefore k (c :: w) rest :=
  ⟨fun h => inLanguage_of_scan h rfl, fun ⟨h, hends⟩ => scan_of_inLanguage h hends⟩

/-! ## All words of a text -/

/-- **Lexemes are legible**: each is a word of its kind and ends before what follows it. -/
def Legible (ls : List Lexeme) : Prop :=
  ∀ before l after, ls = before ++ l :: after →
    InLanguage l.kind l.text.toList ∧ EndsBefore l.kind l.text.toList (spell after).toList

theorem legible_nil : Legible [] := fun _ _ _ h => absurd h (by simp)

theorem legible_cons {l : Lexeme} {ls : List Lexeme} :
    Legible (l :: ls) ↔ (InLanguage l.kind l.text.toList ∧
      EndsBefore l.kind l.text.toList (spell ls).toList) ∧ Legible ls := by
  refine ⟨fun h => ⟨h [] l ls rfl, fun before m after hls => h (l :: before) m after (by rw [hls]; rfl)⟩,
    fun ⟨hl, hls⟩ before m after heq => ?_⟩
  cases before with
  | nil =>
    obtain ⟨rfl, rfl⟩ := List.cons.inj heq
    exact hl
  | cons k before => exact hls before m after (List.cons.inj heq).2

theorem Legible.mem {ls : List Lexeme} (h : Legible ls) {l : Lexeme} (hl : l ∈ ls) :
    InLanguage l.kind l.text.toList := by
  obtain ⟨before, after, rfl⟩ := List.append_of_mem hl
  exact (h before l after rfl).1

theorem ne_nil_of_inLanguage {k : SyntaxKind} {w : List Char} (h : InLanguage k w) : w ≠ [] := by
  rintro rfl
  unfold InLanguage at h
  split at h <;> simp [IsComment, IsLineComment, IsClosedComment, IsOpenComment] at h

theorem ofWord_eq_iff {k : SyntaxKind} {w : List Char} {l : Lexeme} :
    ofWord (k, w) = l ↔ k = l.kind ∧ w = l.text.toList := by
  obtain ⟨kind, text⟩ := l
  rw [ofWord, Lexeme.mk.injEq, ← String.toList_inj, String.toList_ofList]

/-- The first word of a text with the text behind it decides what is cut off first. -/
theorem scan_eq_iff {c : Char} {w rest : List Char} {k : SyntaxKind} :
    scan c (w ++ rest) = ⟨k, w, rest⟩ ↔
      (scan c (w ++ rest)).kind = k ∧ (scan c (w ++ rest)).tail = w := by
  have happ := scan_append c (w ++ rest)
  generalize scan c (w ++ rest) = cut at happ
  obtain ⟨kind, tail, rest'⟩ := cut
  refine ⟨fun h => ⟨congrArg Scan.kind h, congrArg Scan.tail h⟩, ?_⟩
  rintro ⟨rfl, rfl⟩
  obtain rfl : rest' = rest := List.append_cancel_left happ
  rfl

/-- A text begins with a word that is of its kind and ends before the rest. -/
theorem tokenize_append_iff {l : Lexeme} {ls : List Lexeme} {s : String} :
    tokenize (l.text ++ s) = l :: ls ↔ (InLanguage l.kind l.text.toList ∧
      EndsBefore l.kind l.text.toList s.toList) ∧ tokenize s = ls := by
  cases hw : l.text.toList with
  | nil =>
    refine ⟨fun h => ?_, fun h => absurd rfl (ne_nil_of_inLanguage h.1.1)⟩
    have hpos : 0 < l.length := length_pos_of_mem_tokenize (h ▸ List.mem_cons_self)
    rw [length, String.toList_eq_nil_iff.mp hw] at hpos
    exact absurd hpos (by decide)
  | cons c w =>
    rw [tokenize, String.toList_append, hw, List.cons_append, words_cons, List.map_cons,
      List.cons.injEq, ofWord_eq_iff, hw, List.cons.injEq, eq_self, true_and, ← scan_eq_iff,
      ← scan_append_iff]
    exact and_congr_right fun hcut => by rw [hcut, tokenize]

/-- Lexemes are what their spelling is cut into if and only if they are legible. -/
theorem tokenize_spell_iff {ls : List Lexeme} : tokenize (spell ls) = ls ↔ Legible ls := by
  induction ls with
  | nil => exact ⟨fun _ => legible_nil, fun _ => by simp [tokenize]⟩
  | cons l ls ih => rw [spell_cons, tokenize_append_iff, ih, legible_cons]

/-- The lexemes of a text are legible. -/
theorem legible_tokenize (text : String) : Legible (tokenize text) :=
  tokenize_spell_iff.mp (by rw [spell_tokenize])

/-- Lexemes that spell the same text with the same tokens are the same. -/
theorem eq_of_spell_eq {ls ms : List Lexeme} (hspell : spell ls = spell ms)
    (htokens : ls.map token = ms.map token) : ls = ms := by
  induction ls generalizing ms with
  | nil => exact (List.map_eq_nil_iff.mp htokens.symm).symm
  | cons l ls ih =>
    obtain ⟨m, ms, rfl, htoken, htail⟩ := List.map_eq_cons_iff.mp htokens.symm
    obtain ⟨hkind, hlength⟩ := Token.mk.inj htoken
    rw [spell_cons, spell_cons] at hspell
    -- words of the same length in front of the same text are the same
    have htext : m.text = l.text := by
      rw [← String.toByteArray_inj, String.toByteArray_append, String.toByteArray_append] at hspell
      exact String.toByteArray_inj.mp (ByteArray.append_inj_left hspell.symm hlength)
    obtain rfl : m = l := (Lexeme.mk.injEq ..).mpr ⟨hkind, htext⟩
    rw [ih ((String.append_right_inj _).mp hspell) htail.symm]

/-- **Tokenizing is the exact inverse of writing out**: the words of a text are told apart, with their
kinds and their lengths, if and only if each is in the language of its kind and does not run together
with what follows it. -/
theorem tokens_tokenize_spell_iff (ls : List Lexeme) :
    (tokenize (spell ls)).map token = ls.map token ↔
      ∀ before l after, ls = before ++ l :: after →
        InLanguage l.kind l.text.toList ∧ EndsBefore l.kind l.text.toList (spell after).toList := by
  refine Iff.trans ⟨fun h => ?_, fun h => by rw [h]⟩ tokenize_spell_iff
  exact eq_of_spell_eq (spell_tokenize _) h

end LosslessSyntax.Lexeme
