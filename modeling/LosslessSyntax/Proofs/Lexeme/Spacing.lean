import LosslessSyntax.Proofs.Lexeme.Language
import LosslessSyntax.Proofs.Tree.Planting

/-!
# Proofs/Lexeme/Spacing — white space between two lexemes

White space that is put between two lexemes of a text may run together with white space on either side
of it, and a comment in front of it may swallow it or end in it early.  The words that the grammar reads
stay the same: behind a word the next one begins as before (`reading_append_blank`), and further in front
nothing changes but what is far behind (`EndsBefore.of_append`).
-/

namespace LosslessSyntax.Lexeme

open SyntaxKind

/-- A text of white space. -/
def IsBlank (cs : List Char) : Prop := ∀ c ∈ cs, isWhitespace c = true

/-- **No word goes on with white space**, and no bracket of a comment is made of it. -/
theorem classes_of_isWhitespace {c : Char} (h : isWhitespace c = true) :
    isIdentContinue c = false ∧ c.isDigit = false ∧ c ≠ '_' ∧ c ≠ '/' ∧ c ≠ '*' := by
  have hall : ∀ r ∈ Unicode.whiteSpace, ∀ k < r.2 + 1 - r.1,
      isIdentContinue (Char.ofNat (r.1 + k)) = false ∧ (Char.ofNat (r.1 + k)).isDigit = false ∧
      Char.ofNat (r.1 + k) ≠ '_' ∧ Char.ofNat (r.1 + k) ≠ '/' ∧ Char.ofNat (r.1 + k) ≠ '*' := by
    decide +kernel
  obtain ⟨r, hr, hle, hge⟩ := Unicode.Ranges.exists_mem_of_covers h
  have hc := hall r hr (c.toNat - r.1) (by omega)
  rwa [Nat.add_sub_cancel' hle, Char.ofNat_toNat] at hc

theorem endsBefore_of_isWhitespace {k : SyntaxKind} (hk : k.isTrivia = false) (v : List Char)
    {c : Char} (hc : isWhitespace c = true) (rest : List Char) : EndsBefore k v (c :: rest) := by
  obtain ⟨hident, hdigit, hline, hslash, hstar⟩ := classes_of_isWhitespace hc
  have head : ∀ {p : Char → Prop}, p c → ∀ d ∈ (c :: rest).head?, p d := by
    intro p hp d hd
    exact Option.some.inj hd ▸ hp
  cases k with
  | whitespace | comment => exact absurd hk (by decide)
  | ident | letKw => exact head hident
  | intNumber => exact head ⟨hdigit, hline⟩
  | slash => exact head ⟨hslash, hstar⟩
  | _ => trivial

/-! ## What the grammar reads of a text -/

/-- The words of a text that the grammar reads. -/
def reading (cs : List Char) : List Lexeme := significant ((words cs).map ofWord)

theorem reading_toList (text : String) : reading text.toList = significant (tokenize text) := rfl

theorem reading_cons (c : Char) (cs : List Char) : reading (c :: cs) =
    significant [ofWord ((scan c cs).kind, c :: (scan c cs).tail)] ++ reading (scan c cs).rest := by
  rw [reading, words_cons, List.map_cons, ← List.singleton_append, significant_append, reading]

/-- White space in front of a text is passed over. -/
theorem reading_dropWhile (cs : List Char) : reading (cs.dropWhile isWhitespace) = reading cs := by
  cases cs with
  | nil => rfl
  | cons c cs =>
    rw [List.dropWhile_cons]
    split
    · next hc =>
      have hskip : significant [ofWord (whitespace, c :: cs.takeWhile isWhitespace)] = [] := rfl
      rw [reading_cons, scan, if_pos hc, Scan.run, hskip, List.nil_append]
    · rfl

theorem reading_blank_append {w : List Char} (hw : IsBlank w) (cs : List Char) :
    reading (w ++ cs) = reading cs := by
  rw [← reading_dropWhile, List.dropWhile_append_of_pos hw, reading_dropWhile]

/-- A word that ends before the rest of a text is read, and then the rest. -/
theorem reading_append {k : SyntaxKind} {v rest : List Char} (hv : InLanguage k v)
    (hends : EndsBefore k v rest) :
    reading (v ++ rest) = significant [ofWord (k, v)] ++ reading rest := by
  obtain ⟨c, v, rfl⟩ := List.exists_cons_of_ne_nil (ne_nil_of_inLanguage hv)
  rw [List.cons_append, reading_cons, scan_append_iff.mpr ⟨hv, hends⟩]

/-! ## White space behind a comment -/

variable {w y : List Char}

theorem IsBlank.of_suffix {v : List Char} (hw : IsBlank w) (h : v <:+ w) : IsBlank v :=
  fun c hc => hw c (h.subset hc)

/-- A line does not end behind a line break. -/
theorem exists_splitLine_append (hy : y = [] ∨ startsLineBreak y = true) :
    ∀ u : List Char, ∃ v, (splitLine (u ++ y)).2 = v ++ y
  | [] => by
      refine ⟨[], ?_⟩
      cases y with
      | nil => rfl
      | cons c y =>
        have hbreak : startsLineBreak (c :: y) = true := hy.resolve_left (List.cons_ne_nil _ _)
        rw [List.nil_append, splitLine, if_pos hbreak]
  | c :: u => by
      rw [List.cons_append, splitLine]
      split
      · exact ⟨c :: u, rfl⟩
      · exact exists_splitLine_append hy u

/-- Behind the rest of a line, white space goes to the line or stays white space. -/
theorem splitLine_append_blank {cs : List Char} (hcs : '\n' ∉ cs) (hw : IsBlank w)
    (hends : LineEnds cs y) : ∃ t v, IsBlank v ∧ splitLine (cs ++ (w ++ y)) = (t, v ++ y) := by
  have hy : y = [] ∨ startsLineBreak y = true := by
    rw [startsLineBreak_iff]
    exact hends.imp_right (Or.imp_right And.left)
  obtain ⟨v, hv⟩ := exists_splitLine_append hy (cs ++ w)
  rw [List.append_assoc] at hv
  have hsplit := splitLine_append (cs ++ (w ++ y))
  obtain ⟨-, hbreak⟩ := lineEnds_splitLine (cs ++ (w ++ y))
  generalize splitLine (cs ++ (w ++ y)) = cut at hv hsplit hbreak
  obtain ⟨t, rest⟩ := cut
  obtain rfl : rest = v ++ y := hv
  refine ⟨t, v, ?_, rfl⟩
  rw [← List.append_assoc, ← List.append_assoc, List.append_left_inj] at hsplit
  rcases List.append_eq_append_iff.mp hsplit with ⟨a, rfl, rfl⟩ | ⟨a, -, rfl⟩
  · -- the line ends early: of its characters only a carriage return in front of the white space
    -- is left over
    cases a with
    | nil => exact hw
    | cons d a =>
      rcases hbreak with hnil | hcrlf | ⟨hlf, -⟩
      · exact absurd hnil (by simp)
      · obtain ⟨rfl, hnext⟩ := List.cons_prefix_cons.mp hcrlf
        cases a with
        | nil => exact List.forall_mem_cons.mpr ⟨by decide, hw⟩
        | cons e a => exact absurd (List.cons_prefix_cons.mp hnext).1 (by rintro rfl; simp at hcs)
      · exact absurd (List.cons_prefix_cons.mp hlf).1 (by rintro rfl; simp at hcs)
  · exact hw.of_suffix (List.suffix_append ..)

/-- An open block comment takes all of its text, whatever it takes of the white space behind it. -/
theorem suffix_of_staysOpen {d : Nat} {cs : List Char} (h : StaysOpen d (pieces cs))
    (hw : IsBlank w) : (splitBlock d (cs ++ w)).2 <:+ w := by
  fun_induction pieces cs generalizing d with
  | case1 cs ih =>
    obtain ⟨hd, h⟩ := staysOpen_cons.mp h
    obtain ⟨d, rfl⟩ := Nat.exists_eq_add_one.mpr hd
    rw [List.cons_append, List.cons_append, splitBlock]
    exact ih h
  | case2 cs ih =>
    obtain ⟨hd, h⟩ := staysOpen_cons.mp h
    obtain ⟨d, rfl⟩ := Nat.exists_eq_add_one.mpr hd
    rw [List.cons_append, List.cons_append, splitBlock]
    exact ih h
  | case3 c cs hopen hclose ih =>
    obtain ⟨hd, h⟩ := staysOpen_cons.mp h
    obtain ⟨d, rfl⟩ := Nat.exists_eq_add_one.mpr hd
    -- no bracket is made of the last character and white space
    have hnext : ∀ {e es}, cs ++ w = e :: es → isWhitespace e = false → ∃ fs, cs = e :: fs := by
      intro e es heq he
      cases cs with
      | nil =>
        rw [List.nil_append] at heq
        subst heq
        exact absurd (hw e List.mem_cons_self) (by simp [he])
      | cons f fs => exact ⟨fs, by rw [(List.cons.inj heq).1]⟩
    rw [List.cons_append, splitBlock_cons]
    · exact ih h
    · intro ds heq
      obtain ⟨fs, hfs⟩ := hnext (List.cons.inj heq).2 (by decide)
      exact hopen fs (List.cons.inj heq).1 hfs
    · intro ds heq
      obtain ⟨fs, hfs⟩ := hnext (List.cons.inj heq).2 (by decide)
      exact hclose fs (List.cons.inj heq).1 hfs
  | case4 => exact ⟨_, splitBlock_append d w⟩

/-- **Behind a comment, white space goes to the comment or stays white space.** -/
theorem splitComment?_append_blank {t : List Char} (ht : IsComment ('/' :: t))
    (hends : CommentEnds ('/' :: t) y) (hw : IsBlank w) :
    ∃ u v, IsBlank v ∧ splitComment? (t ++ (w ++ y)) = some (u, v ++ y) := by
  rcases ht with h | h | h
  · obtain ⟨cs, hcs, hlf⟩ := id h
    obtain rfl := (List.cons.inj hcs).2
    have hline := hends.line h
    rw [lineEnds_cons fun _ => by decide, lineEnds_cons fun _ => by decide] at hline
    obtain ⟨u, v, hv, hcut⟩ := splitLine_append_blank hlf hw hline
    refine ⟨'/' :: u, v, hv, ?_⟩
    rw [List.cons_append, splitComment?_slash, hcut]
    rfl
  · obtain ⟨cs, hcs, hclosed⟩ := h
    obtain rfl := (List.cons.inj hcs).2
    refine ⟨'*' :: cs, w, hw, ?_⟩
    rw [List.cons_append, splitComment?, splitBlock_of_blockEnds (.inl hclosed)]
    rfl
  · obtain ⟨cs, hcs, hopen⟩ := id h
    obtain rfl := (List.cons.inj hcs).2
    obtain rfl := hends.block h
    refine ⟨'*' :: (splitBlock 1 (cs ++ w)).1, (splitBlock 1 (cs ++ w)).2,
      hw.of_suffix (suffix_of_staysOpen hopen hw), ?_⟩
    rw [List.cons_append, splitComment?, List.append_nil, List.append_nil]
    rfl

/-! ## White space behind a word -/

/-- **White space behind a word is passed over**: the word is read, and then what stood behind it. -/
theorem reading_append_blank {k : SyntaxKind} {v : List Char} (hv : InLanguage k v)
    (hends : EndsBefore k v y) (hw : IsBlank w) :
    reading (v ++ (w ++ y)) = significant [ofWord (k, v)] ++ reading y := by
  cases hk : k.isTrivia with
  | false =>
    have hends' : EndsBefore k v (w ++ y) := by
      cases w with
      | nil => exact hends
      | cons c w => exact endsBefore_of_isWhitespace hk v (hw c List.mem_cons_self) _
    rw [reading_append hv hends', reading_blank_append hw]
  | true =>
    have hskip : significant [ofWord (k, v)] = [] :=
      significant_of_isTrivia (List.forall_mem_singleton.mpr hk)
    rw [hskip, List.nil_append]
    cases k with
    | whitespace => rw [reading_blank_append hv.2, reading_blank_append hw]
    | comment =>
      obtain ⟨t, rfl⟩ : ∃ t, v = '/' :: t := by
        rcases hv with ⟨cs, rfl, -⟩ | ⟨cs, rfl, -⟩ | ⟨cs, rfl, -⟩ <;> exact ⟨_, rfl⟩
      obtain ⟨u, v, hblank, hcut⟩ := splitComment?_append_blank hv hends hw
      have hskip' : significant [ofWord (comment, '/' :: u)] = [] := rfl
      rw [List.cons_append, reading_cons, scan, if_neg (by decide), if_pos rfl, hcut]
      rw [hskip', List.nil_append, reading_blank_append hblank]
    | _ => exact absurd hk (by decide)

/-- **How a word ends is seen from what is right behind it**: it ends as well before another text that
begins the same way, unless a line break is cut in two. -/
theorem EndsBefore.of_append {k : SyntaxKind} {v u : List Char} (h : EndsBefore k v (u ++ y))
    (hu : u ≠ []) (hbreak : u = ['\r'] → '\n' ∉ y.head?) (z : List Char) :
    EndsBefore k v (u ++ z) := by
  obtain ⟨c, u, rfl⟩ := List.exists_cons_of_ne_nil hu
  cases k with
  | comment =>
    refine ⟨fun hline => ?_, fun hopen => absurd (h.block hopen) (List.cons_ne_nil _ _)⟩
    rcases h.line hline with hnil | hcrlf | ⟨hlf, hlast⟩
    · exact absurd hnil (List.cons_ne_nil _ _)
    · obtain ⟨rfl, hnext⟩ := List.cons_prefix_cons.mp hcrlf
      cases u with
      | nil =>
        obtain ⟨ds, rfl⟩ := hnext
        exact absurd rfl (hbreak rfl)
      | cons d u =>
        obtain ⟨rfl, -⟩ := List.cons_prefix_cons.mp hnext
        exact .inr (.inl ⟨u ++ z, rfl⟩)
    · obtain ⟨rfl, -⟩ := List.cons_prefix_cons.mp hlf
      exact .inr (.inr ⟨⟨u ++ z, rfl⟩, hlast⟩)
  | _ => exact h

/-! ## White space between two lexemes -/

theorem kind_of_isWhitespace {k : SyntaxKind} {c : Char} {v : List Char} (hv : InLanguage k (c :: v))
    (hends : EndsBefore k (c :: v) y) (hc : isWhitespace c = true) : k = whitespace := by
  have hscan := scan_append_iff.mpr ⟨hv, hends⟩
  rw [scan, if_pos hc] at hscan
  exact (congrArg Scan.kind hscan).symm

/-- A carriage return that is a lexeme of its own has no line feed behind it. -/
theorem Legible.not_lineBreak {ls ms : List Lexeme} (h : Legible (ls ++ ms))
    (hls : (spell ls).toList = ['\r']) : '\n' ∉ (spell ms).toList.head? := by
  cases ls with
  | nil => exact absurd hls (by simp)
  | cons l ls =>
    rw [List.cons_append, legible_cons, spell_append, String.toList_append] at h
    obtain ⟨hl, hends⟩ := h.1
    obtain ⟨c, v, hv⟩ := List.exists_cons_of_ne_nil (ne_nil_of_inLanguage hl)
    rw [spell_cons, String.toList_append, hv, List.cons_append] at hls
    obtain ⟨rfl, hnil⟩ := List.cons.inj hls
    obtain ⟨rfl, hrest⟩ := List.append_eq_nil_iff.mp hnil
    rw [hv] at hl
    rw [hv, hrest, List.nil_append] at hends
    rw [kind_of_isWhitespace hl hends (by decide)] at hends
    exact fun hlf => absurd (hends _ hlf) (by decide)

/-- Where lexemes are legible, white space between two of them leaves what is read as it is. -/
theorem Legible.reading_insert {ls ms : List Lexeme} (h : Legible (ls ++ ms)) (hw : IsBlank w) :
    reading ((spell ls).toList ++ (w ++ (spell ms).toList)) = significant (ls ++ ms) := by
  induction ls with
  | nil =>
    have hms := tokenize_spell_iff.mpr h
    rw [spell_nil, String.toList_empty, List.nil_append, reading_blank_append hw, reading_toList]
    exact congrArg significant hms
  | cons l ls ih =>
    rw [List.cons_append, legible_cons, spell_append, String.toList_append] at h
    obtain ⟨⟨hl, hends⟩, hrest⟩ := h
    have hword : ofWord (l.kind, l.text.toList) = l := ofWord_eq_iff.mpr ⟨rfl, rfl⟩
    rw [spell_cons, String.toList_append, List.append_assoc, List.cons_append,
      ← List.singleton_append, significant_append, ← ih hrest]
    by_cases hls : (spell ls).toList = []
    · rw [hls, List.nil_append] at hends ⊢
      rw [reading_append_blank hl hends hw, reading_blank_append hw, hword]
    · rw [reading_append hl (hends.of_append hls hrest.not_lineBreak _), hword]

/-- **White space between two lexemes is invisible to the grammar**: put at a boundary between lexemes of
a text, or at either end of it, it changes neither the kinds nor the texts of the words that are read. -/
theorem significant_tokenize_insert {text w : String} {ls ms : List Lexeme}
    (h : tokenize text = ls ++ ms) (hw : ∀ c ∈ w.toList, isWhitespace c = true) :
    spell ls ++ spell ms = text ∧
      significant (tokenize (spell ls ++ w ++ spell ms)) = significant (tokenize text) := by
  have hlegible := legible_tokenize text
  rw [h] at hlegible
  constructor
  · rw [← spell_append, ← h, spell_tokenize]
  · rw [h, ← hlegible.reading_insert hw, ← reading_toList, String.toList_append,
      String.toList_append, List.append_assoc]

/-- The carriage return of the comment becomes part of the line break that is put behind it. -/
theorem significant_tokenize_insert_lineBreak :
    let text := "// a\r\r\n1 /* b"
    let ls : List Lexeme := [⟨comment, "// a\r"⟩]
    let ms : List Lexeme :=
      [⟨whitespace, "\r\n"⟩, ⟨intNumber, "1"⟩, ⟨whitespace, " "⟩, ⟨comment, "/* b"⟩]
    let w := "\n\u2028\t"
    tokenize text = ls ++ ms ∧ (∀ c ∈ w.toList, isWhitespace c = true) ∧ spell ls ++ spell ms = text ∧
      significant (tokenize (spell ls ++ w ++ spell ms)) = significant (tokenize text) := by
  intro text ls ms w
  have h : tokenize text = ls ++ ms := by decide +kernel
  have hw : ∀ c ∈ w.toList, isWhitespace c = true := List.all_eq_true.mp (by decide +kernel)
  exact ⟨h, hw, significant_tokenize_insert h hw⟩

end LosslessSyntax.Lexeme
