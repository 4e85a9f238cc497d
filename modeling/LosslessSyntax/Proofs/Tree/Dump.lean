import LosslessSyntax.Proofs.Text.Edit
import LosslessSyntax.Proofs.Text.Unambiguous
import LosslessSyntax.Tree.Dump

/-!
# Proofs/Tree/Dump — what a dump tells of a tree

The line of an element says its level, its kind, its range and what is shown of a word (`Entry.line_inj`),
and it can neither be taken for two lines nor for that of an error, which alone begins with a small letter.
The nesting follows from the levels: what belongs to a node ends where a line stands no deeper than the
node itself (`Sketch.entries_append_inj`).  So a dump determines the tree but for the rest of long words
(`SyntaxTree.dump_eq_iff`).
-/

namespace LosslessSyntax

open Text (run_append_inj)

/-! ## Long words -/

namespace Element

theorem excerpt_of_lt {s : String} (h : s.utf8ByteSize < cutLength) : excerpt s = s := if_pos h

/-- What is kept of some characters is their beginning, with at most three bytes more than asked for. -/
theorem exists_keep_append : ∀ (least : Nat) (cs : List Char),
    least ≤ (String.ofList cs).utf8ByteSize → ∃ rest, cs = keep least cs ++ rest ∧
      least ≤ (String.ofList (keep least cs)).utf8ByteSize ∧
      (String.ofList (keep least cs)).utf8ByteSize ≤ least - 1 + 4
  | 0, cs, _ => ⟨cs, by rw [keep, List.nil_append], Nat.zero_le _, by rw [keep]; decide⟩
  | n + 1, [], h => absurd h (Nat.not_succ_le_zero n)
  | n + 1, c :: cs, h => by
      have hmost := c.utf8Size_le_four
      rw [Text.utf8ByteSize_ofList_cons] at h
      rw [keep, Text.utf8ByteSize_ofList_cons]
      rcases Nat.lt_or_ge n c.utf8Size with hlast | hmore
      · rw [Nat.sub_eq_zero_of_le hlast, keep, String.ofList_nil, String.utf8ByteSize_empty]
        exact ⟨cs, rfl, hlast, by omega⟩
      · obtain ⟨rest, hsplit, hleast, hbelow⟩ := exists_keep_append (n + 1 - c.utf8Size) cs (by omega)
        exact ⟨rest, congrArg (c :: ·) hsplit, by omega, by omega⟩

/-- **A long word is cut after 21 to 24 bytes**, between two of its characters. -/
theorem exists_excerpt_of_le {s : String} (h : cutLength ≤ s.utf8ByteSize) : ∃ front rest,
    s = front ++ rest ∧ excerpt s = front ++ " ..." ∧ 21 ≤ front.utf8ByteSize ∧
      front.utf8ByteSize ≤ 24 := by
  have hcut : cutLength = 25 := rfl
  have hkept : keptLength = 21 := rfl
  obtain ⟨rest, hsplit, hleast, hmost⟩ := exists_keep_append keptLength s.toList
    (by rw [String.ofList_toList]; omega)
  refine ⟨_, String.ofList rest, ?_, if_neg (Nat.not_lt.mpr h), hkept ▸ hleast, hmost⟩
  rw [← String.ofList_append, ← hsplit, String.ofList_toList]

example : excerpt "abcdefghijklmnopqrstuvwxyz" = "abcdefghijklmnopqrstu ..." := by decide +kernel

end Element

/-! ## What is shown of an element -/

/-- **What a dump shows of an element**: everything but the rest of long words. -/
inductive Sketch
  | word (kind : SyntaxKind) (range : TextRange) (excerpt : String)
  | node (kind : SyntaxKind) (range : TextRange) (children : List Sketch)

namespace Element

mutual

/-- What is shown of an element. -/
def sketch : Element → Sketch
  | word k s t => .word k ⟨s, s + t.utf8ByteSize⟩ (excerpt t)
  | node k s e es => .node k ⟨s, e⟩ (sketchAll es)

/-- What is shown of a list of elements. -/
def sketchAll : List Element → List Sketch
  | [] => []
  | e :: es => sketch e :: sketchAll es

end

mutual

/-- **Of a tree without long words, all words are shown.** -/
theorem lexemes_eq_of_sketch_eq : ∀ {e f : Element}, (∀ l ∈ e.lexemes, l.length < cutLength) →
    e.sketch = f.sketch → e.lexemes = f.lexemes
  | word k s t, word k' s' t', hshort, h => by
      rw [sketch, sketch, Sketch.word.injEq, TextRange.mk.injEq] at h
      obtain ⟨rfl, ⟨rfl, hstop⟩, hshown⟩ := h
      have ht : t.utf8ByteSize < cutLength := hshort ⟨k, t⟩ (by simp)
      have ht' : t'.utf8ByteSize < cutLength := by omega
      rw [excerpt_of_lt ht, excerpt_of_lt ht'] at hshown
      rw [lexemes_word, lexemes_word, hshown]
  | node k s e es, node k' s' e' fs, hshort, h => by
      rw [sketch, sketch, Sketch.node.injEq] at h
      rw [lexemes_node] at hshort
      rw [lexemes_node, lexemes_node, lexemesAll_eq_of_sketchAll_eq hshort h.2.2]
  | word .., node .., _, h => by
      rw [sketch, sketch] at h
      exact absurd h (by simp)
  | node .., word .., _, h => by
      rw [sketch, sketch] at h
      exact absurd h (by simp)

theorem lexemesAll_eq_of_sketchAll_eq : ∀ {es fs : List Element},
    (∀ l ∈ lexemesAll es, l.length < cutLength) → sketchAll es = sketchAll fs →
      lexemesAll es = lexemesAll fs
  | [], [], _, _ => rfl
  | e :: es, f :: fs, hshort, h => by
      rw [sketchAll, sketchAll] at h
      obtain ⟨hfirst, hrest⟩ := List.cons.inj h
      rw [lexemesAll_cons, List.forall_mem_append] at hshort
      rw [lexemesAll_cons, lexemesAll_cons, lexemes_eq_of_sketch_eq hshort.1 hfirst,
        lexemesAll_eq_of_sketchAll_eq hshort.2 hrest]
  | [], _ :: _, _, h => by
      rw [sketchAll, sketchAll] at h
      exact absurd h (by simp)
  | _ :: _, [], _, h => by
      rw [sketchAll, sketchAll] at h
      exact absurd h (by simp)

end

end Element

/-! ## Entries -/

/-- What the line of an element says; only a word shows text. -/
@[ext] structure Entry where
  level : Nat
  kind : SyntaxKind
  range : TextRange
  excerpt? : Option String

namespace Sketch

mutual

/-- The entries of an element that stands at a level. -/
def entries : Nat → Sketch → List Entry
  | level, word k r t => [⟨level, k, r, some t⟩]
  | level, node k r ss => ⟨level, k, r, none⟩ :: entriesAll (level + 1) ss

/-- The entries of elements that stand at a level. -/
def entriesAll : Nat → List Sketch → List Entry
  | _, [] => []
  | level, s :: ss => entries level s ++ entriesAll level ss

end

/-- The first entry of an element stands at the level of the element. -/
theorem exists_entries (level : Nat) (s : Sketch) :
    ∃ x xs, s.entries level = x :: xs ∧ x.level = level := by
  cases s <;> exact ⟨_, _, by rw [entries], rfl⟩

/-- Behind an element comes another of its level, or whatever comes behind them all. -/
theorem level_le_of_head {level : Nat} (ss : List Sketch) {xs : List Entry}
    (h : ∀ x ∈ xs.head?, x.level < level) :
    ∀ x ∈ (entriesAll level ss ++ xs).head?, x.level ≤ level := by
  intro x hx
  cases ss with
  | nil =>
    rw [entriesAll, List.nil_append] at hx
    exact Nat.le_of_lt (h x hx)
  | cons s ss =>
    obtain ⟨y, ys, hs, hy⟩ := exists_entries level s
    rw [entriesAll, hs] at hx
    obtain rfl := Option.some.inj hx
    exact Nat.le_of_eq hy

/-- No element comes in front of what stands less deep. -/
theorem ne_entriesAll_cons {level : Nat} (s : Sketch) (ss : List Sketch) {xs ys : List Entry}
    (h : ∀ x ∈ xs.head?, x.level < level) : xs ≠ entriesAll level (s :: ss) ++ ys := by
  rintro rfl
  obtain ⟨y, zs, hs, hy⟩ := exists_entries level s
  rw [entriesAll, hs] at h
  exact absurd (h y rfl) (by omega)

mutual

/-- **The nesting follows from the levels**: an element is read off the front of entries in one way only,
if what comes next stands no deeper. -/
theorem entries_append_inj : ∀ {s t : Sketch} {level : Nat} {xs ys : List Entry},
    (∀ x ∈ xs.head?, x.level ≤ level) → (∀ y ∈ ys.head?, y.level ≤ level) →
    s.entries level ++ xs = t.entries level ++ ys → s = t ∧ xs = ys
  | word k r e, word k' r' e', level, xs, ys, _, _, h => by
      rw [entries, entries] at h
      simpa [and_assoc] using h
  | node k r ss, node k' r' ts, level, xs, ys, hxs, hys, h => by
      rw [entries, entries] at h
      obtain ⟨hfirst, hrest⟩ := List.cons.inj h
      rw [Entry.mk.injEq] at hfirst
      obtain ⟨-, rfl, rfl, -⟩ := hfirst
      obtain ⟨rfl, hend⟩ := entriesAll_append_inj (fun x hx => Nat.lt_succ_of_le (hxs x hx))
        (fun y hy => Nat.lt_succ_of_le (hys y hy)) hrest
      exact ⟨rfl, hend⟩
  | word .., node .., level, xs, ys, _, _, h => by
      rw [entries, entries] at h
      exact absurd h (by simp)
  | node .., word .., level, xs, ys, _, _, h => by
      rw [entries, entries] at h
      exact absurd h (by simp)

/-- **So are the elements that stand at a level**, if what comes next stands less deep. -/
theorem entriesAll_append_inj : ∀ {ss ts : List Sketch} {level : Nat} {xs ys : List Entry},
    (∀ x ∈ xs.head?, x.level < level) → (∀ y ∈ ys.head?, y.level < level) →
    entriesAll level ss ++ xs = entriesAll level ts ++ ys → ss = ts ∧ xs = ys
  | [], [], level, xs, ys, _, _, h => by
      rw [entriesAll] at h
      exact ⟨rfl, h⟩
  | s :: ss, t :: ts, level, xs, ys, hxs, hys, h => by
      rw [entriesAll, entriesAll, List.append_assoc, List.append_assoc] at h
      obtain ⟨rfl, hrest⟩ := entries_append_inj (level_le_of_head ss hxs) (level_le_of_head ts hys) h
      obtain ⟨rfl, hend⟩ := entriesAll_append_inj hxs hys hrest
      exact ⟨rfl, hend⟩
  | [], t :: ts, level, xs, ys, hxs, _, h => by
      rw [entriesAll, List.nil_append] at h
      exact absurd h (ne_entriesAll_cons t ts hxs)
  | s :: ss, [], level, xs, ys, _, hys, h => by
      rw [entriesAll.eq_1, List.nil_append] at h
      exact absurd h.symm (ne_entriesAll_cons s ss hys)

end

end Sketch

/-! ## The line of an element -/

theorem Text.toList_pushn (s : String) (c : Char) (n : Nat) :
    (s.pushn c n).toList = s.toList ++ List.replicate n c := by
  induction n with
  | zero => exact (List.append_nil _).symm
  | succ n ih =>
    have hstep : s.pushn c (n + 1) = (s.pushn c n).push c := rfl
    rw [hstep, String.toList_push, ih, List.replicate_succ', List.append_assoc]

namespace SyntaxKind

variable {k : SyntaxKind} {c d : Char}

theorem label_ne_nil (k : SyntaxKind) : k.label.toList ≠ [] := by
  cases k <;> decide

/-- The name of a kind is written in capitals and low lines. -/
theorem isUpper_of_mem_label (h : c ∈ k.label.toList) : c.isUpper = true ∨ c = '_' := by
  have hall : (k.label.toList.all fun c => c.isUpper || c == '_') = true := by
    cases k <;> decide
  simpa using List.all_eq_true.mp hall c h

theorem ne_of_mem_label (h : c ∈ k.label.toList) (hd : d.isUpper = false ∧ d ≠ '_') : c ≠ d := by
  rintro rfl
  rcases isUpper_of_mem_label h with hupper | hlow
  · exact Bool.false_ne_true (hd.1.symm.trans hupper)
  · exact hd.2 hlow

theorem mem_label_of_head {rest : List Char} (h : c ∈ (k.label.toList ++ rest).head?) :
    c ∈ k.label.toList := by
  obtain ⟨d, ds, hlabel⟩ := List.exists_cons_of_ne_nil k.label_ne_nil
  rw [hlabel] at h ⊢
  obtain rfl := Option.some.inj h
  exact List.mem_cons_self

end SyntaxKind

namespace Entry

/-- The line that says an entry. -/
def line (x : Entry) : String :=
  Element.indent x.level ++ x.kind.label ++ "@" ++ x.range.render ++
    x.excerpt?.elim "" (" " ++ Text.Quoted.quote ·)

/-- What stands behind the range. -/
def ending (x : Entry) : List Char := x.excerpt?.elim [] fun t => ' ' :: (Text.Quoted.quote t).toList

theorem toList_line (x : Entry) : x.line.toList =
    List.replicate (2 * x.level) ' ' ++
      (x.kind.label.toList ++ '@' :: (x.range.render.toList ++ x.ending)) := by
  have hending : (x.excerpt?.elim "" (" " ++ Text.Quoted.quote ·)).toList = x.ending := by
    rw [ending]
    cases x.excerpt? <;> simp
  simp [line, Element.indent, Text.toList_pushn, hending]

theorem isDigit_of_head_ending {x : Entry} {c : Char} (h : c ∈ x.ending.head?) :
    c.isDigit = false := by
  rw [ending] at h
  cases hshown : x.excerpt? with
  | none =>
    rw [hshown] at h
    exact absurd h (by simp)
  | some t =>
    rw [hshown] at h
    obtain rfl := Option.some.inj h
    rfl

theorem excerpt?_eq_of_ending_eq {x y : Entry} (h : x.ending = y.ending) :
    x.excerpt? = y.excerpt? := by
  rw [ending, ending] at h
  cases hx : x.excerpt? with
  | none =>
    cases hy : y.excerpt? with
    | none => rfl
    | some u => exact absurd h (by simp [hx, hy])
  | some t =>
    cases hy : y.excerpt? with
    | none => exact absurd h (by simp [hx, hy])
    | some u =>
      rw [hx, hy] at h
      rw [Text.Quoted.quote_inj (String.toList_inj.mp (List.cons.inj h).2)]

/-- **The line of an element says its entry.** -/
theorem line_inj {x y : Entry} (h : x.line = y.line) : x = y := by
  have h := congrArg String.toList h
  rw [toList_line, toList_line] at h
  have hspace : ∀ n, ∀ c ∈ List.replicate n ' ', (c == ' ') = true := by simp
  have hname : ∀ (k : SyntaxKind) (rest : List Char), ∀ c ∈ (k.label.toList ++ rest).head?,
      (c == ' ') = false := fun k rest c hc =>
    beq_false_of_ne (SyntaxKind.ne_of_mem_label (SyntaxKind.mem_label_of_head hc) (by decide))
  obtain ⟨hindent, h⟩ := run_append_inj (hspace _) (hspace _) (hname _ _) (hname _ _) h
  have hlabel : ∀ k : SyntaxKind, ∀ c ∈ k.label.toList, (c != '@') = true := fun k c hc =>
    bne_iff_ne.mpr (SyntaxKind.ne_of_mem_label hc (by decide))
  obtain ⟨hkind, h⟩ := run_append_inj (hlabel _) (hlabel _) (by simp) (by simp) h
  obtain ⟨hrange, h⟩ := TextRange.render_append_inj (fun _ => isDigit_of_head_ending)
    (fun _ => isDigit_of_head_ending) (List.cons.inj h).2
  have hlevel : 2 * x.level = 2 * y.level := by simpa using congrArg List.length hindent
  exact Entry.ext (by omega) (SyntaxKind.label_injective (String.toList_inj.mp hkind)) hrange
    (excerpt?_eq_of_ending_eq h)

/-- The line of an element begins with a space or a capital, if not with a low line. -/
theorem head_line_ne {x : Entry} : x.line.toList.head? ≠ some 'e' := by
  rw [toList_line]
  rcases Nat.eq_zero_or_pos x.level with hzero | hpos
  · rw [hzero]
    exact fun h => SyntaxKind.ne_of_mem_label (SyntaxKind.mem_label_of_head h) (by decide) rfl
  · obtain ⟨n, hn⟩ := Nat.exists_eq_add_one.mpr (Nat.mul_pos (by decide : 0 < 2) hpos)
    rw [hn, List.replicate_succ]
    simp

/-- **The line of an element is one line.** -/
theorem lineFeed_notMem_line (x : Entry) : '\n' ∉ x.line.toList := by
  have hlabel : '\n' ∉ x.kind.label.toList := fun h => SyntaxKind.ne_of_mem_label h (by decide) rfl
  have hrange : '\n' ∉ x.range.render.toList := fun h =>
    absurd (TextRange.isDigit_of_mem_render h) (by decide)
  have hending : '\n' ∉ x.ending := by
    rw [ending]
    cases x.excerpt? with
    | none => exact List.not_mem_nil
    | some t => simpa using Text.Quoted.lineFeed_notMem_quote t
  rw [toList_line]
  simp [hlabel, hrange, hending]

end Entry

/-! ## Dumps -/

mutual

/-- **The lines of an element say its entries.** -/
theorem Element.lines_eq : ∀ (e : Element) (level : Nat),
    lines level e = (e.sketch.entries level).map Entry.line
  | word k s t, level => by
      rw [lines, sketch, Sketch.entries, List.map_singleton, line, String.append_assoc]
      rfl
  | node k s e es, level => by
      rw [lines, sketch, Sketch.entries, List.map_cons, linesAll_eq es, line, Entry.line,
        Option.elim_none, String.append_empty]

theorem Element.linesAll_eq : ∀ (es : List Element) (level : Nat),
    linesAll level es = (Sketch.entriesAll level (sketchAll es)).map Entry.line
  | [], level => by rw [linesAll, sketchAll, Sketch.entriesAll, List.map_nil]
  | e :: es, level => by
      rw [linesAll, sketchAll, Sketch.entriesAll, List.map_append, lines_eq e, linesAll_eq es]

end

theorem Text.toList_ofLines_cons (l : String) (ls : List String) :
    (ofLines (l :: ls)).toList = l.toList ++ '\n' :: (ofLines ls).toList := by
  simp [ofLines, String.join_cons]

/-- **A text is cut into its lines in one way only**, if no line has a line feed inside. -/
theorem Text.ofLines_inj {ls ms : List String} (hls : ∀ l ∈ ls, '\n' ∉ l.toList)
    (hms : ∀ m ∈ ms, '\n' ∉ m.toList) (h : ofLines ls = ofLines ms) : ls = ms := by
  have char : ∀ l : String, '\n' ∉ l.toList → ∀ c ∈ l.toList, (c != '\n') = true :=
    fun l hl c hc => bne_iff_ne.mpr fun he => hl (he ▸ hc)
  induction ls generalizing ms with
  | nil =>
    cases ms with
    | nil => rfl
    | cons m ms =>
      have h := congrArg String.toList h
      rw [toList_ofLines_cons] at h
      exact absurd h.symm (by simp [ofLines])
  | cons l ls ih =>
    cases ms with
    | nil =>
      have h := congrArg String.toList h
      rw [toList_ofLines_cons] at h
      exact absurd h (by simp [ofLines])
    | cons m ms =>
      have h := congrArg String.toList h
      rw [List.forall_mem_cons] at hls hms
      rw [toList_ofLines_cons, toList_ofLines_cons] at h
      obtain ⟨hline, hrest⟩ :=
        run_append_inj (char l hls.1) (char m hms.1) (by simp) (by simp) h
      rw [String.toList_inj.mp hline,
        ih hls.2 hms.2 (String.toList_inj.mp (List.cons.inj hrest).2)]

namespace SyntaxTree

/-- What stands in a dump: the entries of the tree, and then the errors. -/
theorem dump_eq (t : SyntaxTree) (es : List SyntaxError) : t.dump es =
    Text.ofLines ((t.placed.sketch.entries 0).map Entry.line ++ es.map SyntaxError.line) := by
  rw [dump, Element.lines_eq]

/-- **The lines of the tree end where those of the errors begin.** -/
theorem entries_and_errors_of_dump_eq {t u : SyntaxTree} {es fs : List SyntaxError}
    (hes : ∀ e ∈ es, '\n' ∉ e.message.toList) (hfs : ∀ f ∈ fs, '\n' ∉ f.message.toList)
    (h : t.dump es = u.dump fs) : t.placed.sketch.entries 0 = u.placed.sketch.entries 0 ∧
      es.map SyntaxError.line = fs.map SyntaxError.line := by
  have single : ∀ {xs : List Entry} {es : List SyntaxError}, (∀ e ∈ es, '\n' ∉ e.message.toList) →
      ∀ l ∈ xs.map Entry.line ++ es.map SyntaxError.line, '\n' ∉ l.toList := by
    intro xs es hes l hl
    rcases List.mem_append.mp hl with hl | hl
    · obtain ⟨x, -, rfl⟩ := List.mem_map.mp hl
      exact x.lineFeed_notMem_line
    · obtain ⟨e, he, rfl⟩ := List.mem_map.mp hl
      exact SyntaxError.lineFeed_notMem_line (hes e he)
  rw [dump_eq, dump_eq] at h
  have hlines := Text.ofLines_inj (single hes) (single hfs) h
  have entry : ∀ {xs : List Entry}, ∀ l ∈ xs.map Entry.line,
      (l.toList.head? != some 'e') = true := by
    intro xs l hl
    obtain ⟨x, -, rfl⟩ := List.mem_map.mp hl
    exact bne_iff_ne.mpr x.head_line_ne
  have error : ∀ {es : List SyntaxError}, ∀ l ∈ (es.map SyntaxError.line).head?,
      (l.toList.head? != some 'e') = false := by
    intro es l hl
    obtain ⟨e, -, rfl⟩ := List.mem_map.mp (List.mem_of_mem_head? hl)
    rw [SyntaxError.toList_line]
    rfl
  obtain ⟨hentries, herrors⟩ := run_append_inj entry entry error error hlines
  exact ⟨List.map_injective_iff.mpr (fun _ _ => Entry.line_inj) hentries, herrors⟩

/-- **A dump determines the tree**, all but the rest of long words, and the errors. -/
theorem dump_eq_iff {t u : SyntaxTree} {es fs : List SyntaxError}
    (hes : ∀ e ∈ es, '\n' ∉ e.message.toList) (hfs : ∀ f ∈ fs, '\n' ∉ f.message.toList) :
    t.dump es = u.dump fs ↔ t.placed.sketch = u.placed.sketch ∧
      es.map (fun e => (e.location, e.message)) = fs.map fun f => (f.location, f.message) := by
  rw [← SyntaxError.map_line_eq_iff]
  constructor
  · intro h
    obtain ⟨hentries, herrors⟩ := entries_and_errors_of_dump_eq hes hfs h
    have htree : t.placed.sketch.entries 0 ++ [] = u.placed.sketch.entries 0 ++ [] :=
      congrArg (· ++ []) hentries
    exact ⟨(Sketch.entries_append_inj (by simp) (by simp) htree).1, herrors⟩
  · rintro ⟨htree, herrors⟩
    rw [dump_eq, dump_eq, htree, herrors]

end SyntaxTree

end LosslessSyntax
