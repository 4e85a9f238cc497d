import LosslessSyntax.Lexeme.Comment

/-!
# Proofs/Lexeme/Comment — where comments end

A block comment is a text of brackets and other characters, and it ends where the nesting depth reaches
zero; a line comment ends in front of a line break.  Both can be said of a word and the text behind it
without cutting the text, and the comment that is cut off is the one that ends there
(`isComment_of_splitComment?`, `splitComment?_of_isComment`).
-/

namespace LosslessSyntax.Lexeme

/-! ## Brackets of block comments -/

/-- A piece of a block comment: a bracket, or a character that belongs to none. -/
inductive Piece
  | opening | closing
  | other (c : Char)
  deriving DecidableEq, Repr

/-- The pieces of a text from left to right; a character belongs to one bracket at most. -/
def pieces : List Char → List Piece
  | '/' :: '*' :: cs => .opening :: pieces cs
  | '*' :: '/' :: cs => .closing :: pieces cs
  | c :: cs => .other c :: pieces cs
  | [] => []

-- the star of an opening bracket closes nothing
example : pieces ['/', '*', '/'] = [.opening, .other '/'] := by decide

/-- The nesting depth behind a piece that stands at a depth. -/
def Piece.depth (d : Nat) : Piece → Nat
  | .opening => d + 1
  | .closing => d - 1
  | .other _ => d

/-- The nesting depth behind pieces that begin at a depth. -/
def depthAfter (d : Nat) (ps : List Piece) : Nat := ps.foldl Piece.depth d

/-- **The nesting depth reaches zero for the first time exactly at the end.** -/
structure Closes (d : Nat) (ps : List Piece) : Prop where
  closed : depthAfter d ps = 0
  deep : ∀ qs, qs <+: ps → qs ≠ ps → 0 < depthAfter d qs

/-- **The nesting depth never reaches zero.** -/
def StaysOpen (d : Nat) (ps : List Piece) : Prop := ∀ qs, qs <+: ps → 0 < depthAfter d qs

section Depth

variable {d : Nat} {p : Piece} {ps : List Piece}

theorem closes_nil : Closes d [] ↔ d = 0 :=
  ⟨fun h => h.closed, fun h => ⟨h, fun _ hqs hne => absurd (List.prefix_nil.mp hqs) hne⟩⟩

theorem closes_cons : Closes d (p :: ps) ↔ 0 < d ∧ Closes (p.depth d) ps := by
  refine ⟨fun h => ⟨h.deep [] List.nil_prefix (List.cons_ne_nil _ _).symm, h.closed,
    fun qs hqs hne => h.deep (p :: qs) (List.cons_prefix_cons.mpr ⟨rfl, hqs⟩)
      fun heq => hne (List.cons.inj heq).2⟩, fun ⟨hd, h⟩ => ⟨h.closed, fun qs hqs hne => ?_⟩⟩
  rcases List.prefix_cons_iff.mp hqs with rfl | ⟨rs, rfl, hrs⟩
  · exact hd
  · exact h.deep rs hrs fun heq => hne (congrArg _ heq)

theorem staysOpen_nil : StaysOpen d [] ↔ 0 < d :=
  ⟨fun h => h [] List.nil_prefix, fun h _ hqs => by rwa [List.prefix_nil.mp hqs]⟩

theorem staysOpen_cons : StaysOpen d (p :: ps) ↔ 0 < d ∧ StaysOpen (p.depth d) ps := by
  refine ⟨fun h => ⟨h [] List.nil_prefix,
    fun qs hqs => h (p :: qs) (List.cons_prefix_cons.mpr ⟨rfl, hqs⟩)⟩, fun ⟨hd, h⟩ qs hqs => ?_⟩
  rcases List.prefix_cons_iff.mp hqs with rfl | ⟨rs, rfl, hrs⟩
  · exact hd
  · exact h rs hrs

end Depth

/-- What begins at a depth ends where all brackets are closed, or never. -/
def BlockEnds (d : Nat) (ps : List Piece) (rest : List Char) : Prop :=
  Closes d ps ∨ StaysOpen d ps ∧ rest = []

theorem blockEnds_cons {d : Nat} {p : Piece} {ps : List Piece} {rest : List Char} :
    BlockEnds d (p :: ps) rest ↔ 0 < d ∧ BlockEnds (p.depth d) ps rest := by
  rw [BlockEnds, BlockEnds, closes_cons, staysOpen_cons, and_assoc, ← and_or_left]

theorem pieces_cons {c : Char} {cs : List Char} (hopen : ∀ ds, c :: cs ≠ '/' :: '*' :: ds)
    (hclose : ∀ ds, c :: cs ≠ '*' :: '/' :: ds) : pieces (c :: cs) = .other c :: pieces cs := by
  rw [pieces]
  · exact fun ds hc hcs => hopen ds (by rw [hc, hcs])
  · exact fun ds hc hcs => hclose ds (by rw [hc, hcs])

theorem splitBlock_cons {d : Nat} {c : Char} {cs : List Char}
    (hopen : ∀ ds, c :: cs ≠ '/' :: '*' :: ds) (hclose : ∀ ds, c :: cs ≠ '*' :: '/' :: ds) :
    splitBlock (d + 1) (c :: cs) = (splitBlock (d + 1) cs).cons c := by
  rw [splitBlock]
  · exact fun ds hc hcs => hclose ds (by rw [hc, hcs])
  · exact fun ds hc hcs => hopen ds (by rw [hc, hcs])

/-- What is cut off as a block comment ends there. -/
theorem blockEnds_splitBlock (d : Nat) (cs : List Char) :
    BlockEnds d (pieces (splitBlock d cs).1) (splitBlock d cs).2 := by
  fun_induction splitBlock d cs with
  | case1 cs => exact .inl (closes_nil.mpr rfl)
  | case2 d => exact .inr ⟨staysOpen_nil.mpr d.succ_pos, rfl⟩
  | case3 d cs ih => exact blockEnds_cons.mpr ⟨d.succ_pos, ih⟩
  | case4 d cs ih => exact blockEnds_cons.mpr ⟨d.succ_pos, ih⟩
  | case5 d c cs hclose hopen ih =>
    -- a bracket across the first character of the comment would be one of the text
    have hcs := splitBlock_append (d + 1) cs
    rw [Split.cons_fst, Split.cons_snd, pieces_cons]
    · exact blockEnds_cons.mpr ⟨d.succ_pos, ih⟩
    · intro ds heq
      obtain ⟨rfl, hds⟩ := List.cons.inj heq
      exact hopen _ rfl (by rw [← hcs, hds, List.cons_append])
    · intro ds heq
      obtain ⟨rfl, hds⟩ := List.cons.inj heq
      exact hclose _ rfl (by rw [← hcs, hds, List.cons_append])

/-- What ends somewhere is cut off there as a block comment. -/
theorem splitBlock_of_blockEnds {d : Nat} {w rest : List Char} (h : BlockEnds d (pieces w) rest) :
    splitBlock d (w ++ rest) = (w, rest) := by
  fun_induction pieces w generalizing d with
  | case1 cs ih =>
    obtain ⟨hd, h⟩ := blockEnds_cons.mp h
    obtain ⟨d, rfl⟩ := Nat.exists_eq_add_one.mpr hd
    have hcut : splitBlock (d + 2) (cs ++ rest) = (cs, rest) := ih h
    rw [List.cons_append, List.cons_append, splitBlock, hcut]
    rfl
  | case2 cs ih =>
    obtain ⟨hd, h⟩ := blockEnds_cons.mp h
    obtain ⟨d, rfl⟩ := Nat.exists_eq_add_one.mpr hd
    have hcut : splitBlock d (cs ++ rest) = (cs, rest) := ih h
    rw [List.cons_append, List.cons_append, splitBlock, hcut]
    rfl
  | case3 c cs hopen hclose ih =>
    obtain ⟨hd, h⟩ := blockEnds_cons.mp h
    obtain ⟨d, rfl⟩ := Nat.exists_eq_add_one.mpr hd
    -- behind the last character of a comment that is still open there is no text
    have hrest : cs = [] → rest = [] := by
      rintro rfl
      exact h.elim (fun hcl => absurd (closes_nil.mp hcl) d.succ_ne_zero) And.right
    have hnext : ∀ {e es}, cs ++ rest = e :: es → ∃ fs, cs = e :: fs := by
      intro e es heq
      cases cs with
      | nil => exact absurd heq (by rw [hrest rfl]; exact List.cons_ne_nil _ _ |>.symm)
      | cons f fs => exact ⟨fs, by rw [(List.cons.inj heq).1]⟩
    have hcut : splitBlock (d + 1) (cs ++ rest) = (cs, rest) := ih h
    rw [List.cons_append, splitBlock_cons, hcut]
    · rfl
    · intro ds heq
      obtain ⟨fs, hfs⟩ := hnext (List.cons.inj heq).2
      exact hopen fs (List.cons.inj heq).1 hfs
    · intro ds heq
      obtain ⟨fs, hfs⟩ := hnext (List.cons.inj heq).2
      exact hclose fs (List.cons.inj heq).1 hfs
  | case4 =>
    rcases h with h | ⟨h, rfl⟩
    · rw [closes_nil.mp h, List.nil_append, splitBlock]
    · obtain ⟨d, rfl⟩ := Nat.exists_eq_add_one.mpr (staysOpen_nil.mp h)
      rfl

/-! ## Ends of lines -/

/-- A line may end behind a word: the text ends there or goes on with a line break, of which the word
has no part. -/
def LineEnds (w rest : List Char) : Prop :=
  rest = [] ∨ ['\r', '\n'] <+: rest ∨ ['\n'] <+: rest ∧ w.getLast? ≠ some '\r'

theorem startsLineBreak_iff {cs : List Char} :
    startsLineBreak cs = true ↔ ['\r', '\n'] <+: cs ∨ ['\n'] <+: cs := by
  fun_cases startsLineBreak cs with
  | case1 cs => simp
  | case2 cs => simp
  | case3 cs hlf hcrlf =>
    refine ⟨fun h => absurd h Bool.false_ne_true, ?_⟩
    rintro (⟨ds, rfl⟩ | ⟨ds, rfl⟩)
    · exact (hcrlf ds rfl).elim
    · exact (hlf ds rfl).elim

theorem lineEnds_cons {c : Char} {w rest : List Char} (h : w = [] → c ≠ '\r') :
    LineEnds (c :: w) rest ↔ LineEnds w rest := by
  cases w with
  | nil => simp [LineEnds, h rfl]
  | cons d w => rw [LineEnds, LineEnds, List.getLast?_cons_cons]

/-- What is cut off as the rest of a line ends there. -/
theorem lineEnds_splitLine (cs : List Char) :
    '\n' ∉ (splitLine cs).1 ∧ LineEnds (splitLine cs).1 (splitLine cs).2 := by
  fun_induction splitLine cs with
  | case1 => exact ⟨List.not_mem_nil, .inl rfl⟩
  | case2 c cs h =>
    refine ⟨List.not_mem_nil, ?_⟩
    rcases startsLineBreak_iff.mp h with h | h
    · exact .inr (.inl h)
    · exact .inr (.inr ⟨h, Option.some_ne_none _ |>.symm⟩)
  | case3 c cs h ih =>
    obtain ⟨hline, hends⟩ := ih
    have hcs := splitLine_append cs
    have hlf : c ≠ '\n' := by
      rintro rfl
      exact h rfl
    refine ⟨List.not_mem_cons_of_ne_of_not_mem hlf.symm hline, ?_⟩
    rw [Split.cons_fst, Split.cons_snd]
    by_cases hw : (splitLine cs).1 = []
    · -- a carriage return in front of a line feed would have ended the line
      rw [hw, List.nil_append] at hcs
      rw [hw, hcs] at hends ⊢
      rcases hends with hends | hends | ⟨hends, -⟩
      · exact .inl hends
      · exact .inr (.inl hends)
      · refine .inr (.inr ⟨hends, fun hc => h ?_⟩)
        obtain rfl := Option.some.inj hc
        obtain ⟨ds, rfl⟩ := hends
        rfl
    · exact (lineEnds_cons fun hnil => absurd hnil hw).mpr hends

/-- What ends somewhere is cut off there as the rest of a line. -/
theorem splitLine_of_lineEnds {w rest : List Char} (hline : '\n' ∉ w) (h : LineEnds w rest) :
    splitLine (w ++ rest) = (w, rest) := by
  induction w with
  | nil =>
    rcases h with rfl | h | ⟨h, -⟩
    · rfl
    · obtain ⟨ds, rfl⟩ := h
      rfl
    · obtain ⟨ds, rfl⟩ := h
      rfl
  | cons c w ih =>
    obtain ⟨hlf, hrest⟩ := not_or.mp (mt List.mem_cons.mpr hline)
    have hbreak : startsLineBreak (c :: (w ++ rest)) ≠ true := by
      rw [ne_eq, startsLineBreak_iff, List.cons_prefix_cons, List.cons_prefix_cons]
      rintro (⟨hc, hnext⟩ | ⟨hc, -⟩)
      · subst hc
        cases w with
        | nil =>
          obtain ⟨ds, rfl⟩ := hnext
          exact h.elim (fun h => absurd h (List.cons_ne_nil _ _)) fun h =>
            h.elim (fun h => absurd (List.cons_prefix_cons.mp h).1 (by decide)) fun h => h.2 rfl
        | cons d w =>
          exact hrest (List.mem_cons.mpr (.inl (List.cons_prefix_cons.mp hnext).1))
      · exact hlf hc
    have hends : LineEnds w rest := by
      by_cases hw : w = []
      · subst hw
        rcases h with h | h | ⟨h, -⟩
        · exact .inl h
        · exact .inr (.inl h)
        · exact .inr (.inr ⟨h, Option.some_ne_none _ |>.symm⟩)
      · exact (lineEnds_cons fun hnil => absurd hnil hw).mp h
    rw [List.cons_append, splitLine, if_neg hbreak, ih hrest hends]
    rfl

/-! ## Comments -/

/-- The rest of a line behind two slashes. -/
def IsLineComment (w : List Char) : Prop := ∃ cs, w = '/' :: '/' :: cs ∧ '\n' ∉ cs

/-- A block comment with the bracket that closes it. -/
def IsClosedComment (w : List Char) : Prop := ∃ cs, w = '/' :: '*' :: cs ∧ Closes 1 (pieces cs)

/-- A block comment that is not closed. -/
def IsOpenComment (w : List Char) : Prop := ∃ cs, w = '/' :: '*' :: cs ∧ StaysOpen 1 (pieces cs)

/-- A comment, on a line or in brackets. -/
def IsComment (w : List Char) : Prop := IsLineComment w ∨ IsClosedComment w ∨ IsOpenComment w

/-- **What stands behind a comment**: a line comment reaches to the end of its line, an open block
comment to the end of the text. -/
structure CommentEnds (w rest : List Char) : Prop where
  line : IsLineComment w → LineEnds w rest
  block : IsOpenComment w → rest = []

theorem Closes.not_staysOpen {d : Nat} {ps : List Piece} (h : Closes d ps) : ¬ StaysOpen d ps :=
  fun hopen => absurd h.closed (Nat.ne_of_gt (hopen ps List.prefix_rfl))

theorem splitComment?_slash (cs : List Char) :
    splitComment? ('/' :: cs) = some ((splitLine cs).cons '/') := by
  have hbreak : startsLineBreak ('/' :: cs) = false := by
    rw [← Bool.not_eq_true, startsLineBreak_iff, List.cons_prefix_cons, List.cons_prefix_cons]
    exact not_or.mpr ⟨fun h => absurd h.1 (by decide), fun h => absurd h.1 (by decide)⟩
  rw [splitComment?, splitLine, hbreak, if_neg Bool.false_ne_true]

/-- What is cut off as a comment is one and ends there. -/
theorem isComment_of_splitComment? {cs w rest : List Char}
    (h : splitComment? cs = some (w, rest)) :
    IsComment ('/' :: w) ∧ CommentEnds ('/' :: w) rest := by
  unfold splitComment? at h
  split at h
  · next cs =>
    rw [← splitComment?, splitComment?_slash] at h
    obtain ⟨rfl, rfl⟩ := Prod.mk.inj (Option.some.inj h)
    obtain ⟨hline, hends⟩ := lineEnds_splitLine cs
    refine ⟨.inl ⟨_, rfl, hline⟩, fun _ => ?_, ?_⟩
    · rwa [lineEnds_cons fun _ => by decide, lineEnds_cons fun _ => by decide]
    · rintro ⟨u, hu, -⟩
      exact absurd (List.cons.inj (List.cons.inj hu).2).1 (by decide)
  · next cs =>
    obtain ⟨rfl, rfl⟩ := Prod.mk.inj (Option.some.inj h)
    have hends := blockEnds_splitBlock 1 cs
    refine ⟨.inr (hends.imp (fun hcl => ⟨_, rfl, hcl⟩) fun hop => ⟨_, rfl, hop.1⟩), ?_, ?_⟩
    · rintro ⟨u, hu, -⟩
      exact absurd (List.cons.inj (List.cons.inj hu).2).1 (by decide)
    · rintro ⟨u, hu, hopen⟩
      obtain rfl := (List.cons.inj (List.cons.inj hu).2).2
      exact hends.elim (fun hcl => absurd hopen hcl.not_staysOpen) And.right
  · exact absurd h (by simp)

/-- A comment is cut off where it ends. -/
theorem splitComment?_of_isComment {w rest : List Char} (h : IsComment ('/' :: w))
    (hends : CommentEnds ('/' :: w) rest) : splitComment? (w ++ rest) = some (w, rest) := by
  obtain ⟨hline, hopen⟩ := hends
  rcases h with h | h | h
  · obtain ⟨cs, hcs, hlf⟩ := id h
    obtain rfl := (List.cons.inj hcs).2
    have hcut := hline h
    rw [lineEnds_cons fun _ => by decide, lineEnds_cons fun _ => by decide] at hcut
    rw [List.cons_append, splitComment?_slash, splitLine_of_lineEnds hlf hcut]
    rfl
  · obtain ⟨cs, hcs, hcl⟩ := h
    obtain rfl := (List.cons.inj hcs).2
    rw [List.cons_append, splitComment?, splitBlock_of_blockEnds (.inl hcl)]
    rfl
  · obtain ⟨cs, hcs, hop⟩ := id h
    obtain rfl := (List.cons.inj hcs).2
    rw [List.cons_append, splitComment?, splitBlock_of_blockEnds (.inr ⟨hop, hopen h⟩)]
    rfl

theorem splitComment?_eq_none_iff {cs : List Char} :
    splitComment? cs = none ↔ ∀ c ∈ cs.head?, c ≠ '/' ∧ c ≠ '*' := by
  unfold splitComment?
  split
  · simp
  · simp
  · next hslash hstar =>
    refine ⟨fun _ c hc => ?_, fun _ => rfl⟩
    obtain ⟨ds, rfl⟩ : ∃ ds, cs = c :: ds := List.head?_eq_some_iff.mp hc
    exact ⟨fun hcs => hslash ds (by rw [hcs]), fun hcs => hstar ds (by rw [hcs])⟩

end LosslessSyntax.Lexeme
