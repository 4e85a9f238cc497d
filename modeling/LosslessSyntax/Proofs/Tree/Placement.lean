import LosslessSyntax.Proofs.Tree.Below
import LosslessSyntax.Proofs.Tree.Planting

/-!
# Proofs/Tree/Placement — an outline laid out in a text

A planted tree, laid out from a place in the text, puts an element in the place of every outline, with
trivia between them.  A `Row` is such a list of elements: it ties each node to the outline it comes from
and each place to the lexemes that stand there.  Whatever holds of every node of an outline can so be
said of every node in its place (`Row.exists_of_mem_nodes`).
-/

namespace LosslessSyntax

open Lexeme (margin behindMargin extent extent_append extent_cons significant significant_behindMargin
  margin_append_behindMargin behindMargin_eq_cons isTrivia_of_mem_margin)
open SyntaxTree (leaf leaves leavesAll placedAt placedAllAt endOf)

/-! ## Places -/

/-- Lexemes stand at a place in a text, behind others. -/
def Lexeme.StandsAt (all : List Lexeme) (offset : Nat) (ls : List Lexeme) : Prop :=
  ∃ ms, ms ++ ls = all ∧ extent ms = offset

theorem Lexeme.StandsAt.append {all ls ms : List Lexeme} {offset : Nat}
    (h : StandsAt all offset (ls ++ ms)) : StandsAt all (offset + extent ls) ms := by
  obtain ⟨front, rfl, rfl⟩ := h
  exact ⟨front ++ ls, List.append_assoc .., extent_append ..⟩

theorem Lexeme.StandsAt.mem {all ls : List Lexeme} {offset : Nat} (h : StandsAt all offset ls)
    {l : Lexeme} (hl : l ∈ ls) : l ∈ all := by
  obtain ⟨front, rfl, -⟩ := h
  exact List.mem_append_right _ hl

theorem Lexeme.StandsAt.zero (all : List Lexeme) : StandsAt all 0 all := ⟨[], rfl, rfl⟩

/-- The lexemes that begin so many bytes behind the first one, or later. -/
def Lexeme.onwards : Nat → List Lexeme → List Lexeme
  | _, [] => []
  | n, l :: ls => if n = 0 then l :: ls else onwards (n - l.length) ls

/-- **From a place on stand the lexemes that stand there**, if none is empty. -/
theorem Lexeme.StandsAt.onwards_eq {all ls : List Lexeme} {offset : Nat} (h : StandsAt all offset ls)
    (hpos : ∀ l ∈ all, 0 < l.length) : onwards offset all = ls := by
  obtain ⟨ms, rfl, rfl⟩ := h
  induction ms with
  | nil => rcases ls with _ | ⟨l, ls⟩ <;> rfl
  | cons m ms ih =>
    have hm := hpos m (by simp)
    rw [List.cons_append, onwards, if_neg (by simp; omega), extent_cons, Nat.add_sub_cancel_left]
    exact ih fun l hl => hpos l (List.mem_cons_of_mem _ hl)

namespace SyntaxTree

theorem endOf_nil (start : Nat) : endOf start [] = start := rfl

theorem endOf_cons (start : Nat) (e : Element) (es : List Element) :
    endOf start (e :: es) = endOf e.stop es := by
  rcases es with _ | ⟨f, es⟩
  · rfl
  · simp [endOf, List.getLast?_cons]

@[simp] theorem placedAllAt_nil (start : Nat) : placedAllAt start [] = [] := by rw [placedAllAt]

@[simp] theorem placedAllAt_cons (start : Nat) (t : SyntaxTree) (ts : List SyntaxTree) :
    placedAllAt start (t :: ts) = t.placedAt start :: placedAllAt (t.placedAt start).stop ts := by
  rw [placedAllAt]

theorem placedAt_leaf (start : Nat) (l : Lexeme) : (leaf l).placedAt start = .word l.kind start l.text := by
  rw [placedAt]

theorem placedAt_node (start : Nat) (k : SyntaxKind) (ts : List SyntaxTree) :
    (node k ts).placedAt start =
      .node k start (endOf start (placedAllAt start ts)) (placedAllAt start ts) := by
  rw [placedAt]

mutual

/-- A tree ends behind its words. -/
theorem stop_placedAt : ∀ (t : SyntaxTree) (start : Nat),
    (t.placedAt start).stop = start + extent t.leaves
  | leaf l, start => by
      rw [placedAt_leaf, leaves_leaf]
      rfl
  | node k ts, start => by
      rw [placedAt_node, leaves_node]
      exact endOf_placedAllAt ts start

theorem endOf_placedAllAt : ∀ (ts : List SyntaxTree) (start : Nat),
    endOf start (placedAllAt start ts) = start + extent (leavesAll ts)
  | [], start => by
      rw [placedAllAt_nil, endOf_nil, leavesAll_nil]
      rfl
  | t :: ts, start => by
      rw [placedAllAt_cons, endOf_cons, endOf_placedAllAt ts, stop_placedAt t, leavesAll_cons,
        extent_append, Nat.add_assoc]

end

theorem placedAllAt_append (ts us : List SyntaxTree) (start : Nat) : placedAllAt start (ts ++ us) =
    placedAllAt start ts ++ placedAllAt (start + extent (leavesAll ts)) us := by
  induction ts generalizing start with
  | nil => simp
  | cons t ts ih =>
    rw [List.cons_append, placedAllAt_cons, placedAllAt_cons, ih, List.cons_append, leavesAll_cons,
      extent_append, stop_placedAt, Nat.add_assoc]

end SyntaxTree

/-! ## Rows -/

/-- Whether an element is a word that the grammar passes over. -/
def Element.isTrivia : Element → Bool
  | .word kind .. => kind.isTrivia
  | .node .. => false

/-- **Elements stand for outlines** from one place in a text to another: each begins where the one
before it ends, and trivia stands only in front of others.  The outlines are followed by the words
`ws`. -/
inductive Row (all : List Lexeme) : Nat → List Outline → List Lexeme → List Element → Nat → Prop
  | nil {start : Nat} {ls ws : List Lexeme} (stands : Lexeme.StandsAt all start ls)
      (follow : significant ls = ws) : Row all start [] ws [] start
  | trivia {start stop : Nat} {l : Lexeme} {os : List Outline} {ws : List Lexeme} {es : List Element}
      (hl : l.isTrivia = true) (more : Row all (start + l.length) os ws es stop) (ne : es ≠ []) :
      Row all start os ws (.word l.kind start l.text :: es) stop
  | word {start stop : Nat} {l : Lexeme} {os : List Outline} {ws : List Lexeme} {es : List Element}
      (hl : l ∈ all) (ht : l.isTrivia = false) (more : Row all (start + l.length) os ws es stop) :
      Row all start (.word l :: os) ws (.word l.kind start l.text :: es) stop
  | error {start stop : Nat} {c : Complaint} {os : List Outline} {ws : List Lexeme} {es : List Element}
      (more : Row all start os ws es stop) : Row all start (.error c :: os) ws es stop
  | node {start mid stop : Nat} {kind : SyntaxKind} {os ps : List Outline} {ws : List Lexeme}
      {es fs : List Element} (inner : Row all start os (Outline.wordsAll ps ++ ws) es mid)
      (tight : ∀ e ∈ es.head?, e.isTrivia = false) (more : Row all mid ps ws fs stop) :
      Row all start (.node kind os :: ps) ws (.node kind start mid es :: fs) stop

variable {all : List Lexeme} {start mid stop : Nat} {os ps : List Outline} {ws : List Lexeme}
  {es fs : List Element}

theorem Row.append (h : Row all start os (Outline.wordsAll ps ++ ws) es mid)
    (h' : Row all mid ps ws fs stop) : Row all start (os ++ ps) ws (es ++ fs) stop := by
  generalize hws : Outline.wordsAll ps ++ ws = vs at h
  induction h with
  | nil => exact h'
  | trivia hl _ ne ih => exact .trivia hl (ih h' hws) (by simp [ne])
  | word hl ht _ ih => exact .word hl ht (ih h' hws)
  | error _ ih => exact .error (ih h' hws)
  | @node _ _ _ kind os qs _ es gs inner tight _ _ ih =>
    subst hws
    rw [← List.append_assoc, ← Outline.wordsAll_append] at inner
    exact .node inner tight (ih h' rfl)

/-- Trivia may be put in front of a row. -/
theorem Row.margin {ms : List Lexeme} (hm : ∀ l ∈ ms, l.isTrivia = true)
    (h : Row all (start + extent ms) os ws es stop) (ne : es ≠ []) :
    Row all start os ws (placedAllAt start (ms.map leaf) ++ es) stop := by
  induction ms generalizing start with
  | nil => simpa using h
  | cons l ms ih =>
    rw [List.map_cons, SyntaxTree.placedAllAt_cons, SyntaxTree.placedAt_leaf, List.cons_append]
    refine .trivia (hm l List.mem_cons_self) (ih (fun m hm' => hm m (List.mem_cons_of_mem _ hm')) ?_) ?_
    · rw [extent_cons, ← Nat.add_assoc] at h
      exact h
    · simp [ne]

/-! ## Planted outlines -/

theorem Planting.Covers.stands {p : Planting} {offset : Nat} {ls ws : List Lexeme}
    (h : p.Covers offset ls ws) (hs : Lexeme.StandsAt all offset ls) :
    Lexeme.StandsAt all p.offset p.rest := by
  rw [← h.leaves] at hs
  exact h.offset_eq ▸ hs.append

namespace Outline

/-- What is planted right behind the margin does not begin with trivia. -/
theorem isTrivia_head_plantAll {ls : List Lexeme} (hm : margin ls = []) (os : List Outline)
    (offset place : Nat) (h : significant ls = wordsAll os ++ ws) :
    ∀ e ∈ (placedAllAt place (plantAll os offset ls).trees).head?, e.isTrivia = false := by
  induction os generalizing offset with
  | nil => simp [plantAll_nil]
  | cons o os ih =>
    rcases o with l | c | ⟨kind, ps⟩
    · rw [wordsAll_cons, words_word, List.cons_append, List.cons_append] at h
      have ht := Lexeme.isTrivia_of_significant_eq_cons h
      simpa [plantAll_cons, plant_word, hm, SyntaxTree.placedAt_leaf, Element.isTrivia,
        Lexeme.isTrivia] using ht
    · simpa [plantAll_cons, plant_error] using ih offset (by simpa using h)
    · simp [plantAll_cons, plant_node, hm, SyntaxTree.placedAt_node, Element.isTrivia]

mutual

/-- **A planted outline is a row.** -/
theorem row_plant : ∀ (o : Outline) {offset : Nat} {ls ws : List Lexeme},
    significant ls = o.words ++ ws → Lexeme.StandsAt all offset ls →
    Row all offset [o] ws (placedAllAt offset (o.plant offset ls).trees) (o.plant offset ls).offset
  | word l, offset, ls, ws, h, hs => by
      obtain ⟨rest, hrest, hws⟩ := behindMargin_eq_cons h
      have hsplit := margin_append_behindMargin ls
      rw [hrest, ← List.singleton_append, ← List.append_assoc] at hsplit
      rw [← hsplit] at hs
      have hstands := hs.append
      rw [extent_append, ← Nat.add_assoc] at hstands
      rw [plant_word, List.map_append, SyntaxTree.placedAllAt_append, extent_append, ← Nat.add_assoc,
        SyntaxTree.leavesAll_map_leaf]
      refine Row.margin (fun _ => isTrivia_of_mem_margin) ?_ (by simp)
      rw [List.map_singleton, SyntaxTree.placedAllAt_cons, SyntaxTree.placedAt_leaf,
        SyntaxTree.placedAllAt_nil]
      exact .word (hs.mem (by simp)) (Lexeme.isTrivia_of_significant_eq_cons h)
        (.nil hstands hws)
  | error c, offset, ls, ws, h, hs => by
      rw [plant_error, SyntaxTree.placedAllAt_nil]
      exact .error (.nil hs h)
  | node kind os, offset, ls, ws, h, hs => by
      rw [words_node, ← significant_behindMargin] at h
      have hsplit := margin_append_behindMargin ls
      rw [← hsplit] at hs
      have hstands := hs.append
      have covers := covers_plantAll os (offset + extent (margin ls)) h
      have inner := row_plantAll os h hstands
      have hend := SyntaxTree.endOf_placedAllAt
        (plantAll os (offset + extent (margin ls)) (behindMargin ls)).trees
        (offset + extent (margin ls))
      rw [← covers.offset_eq] at hend
      rw [plant_node, SyntaxTree.placedAllAt_append, SyntaxTree.leavesAll_map_leaf]
      refine Row.margin (fun _ => isTrivia_of_mem_margin) ?_ (by simp)
      rw [SyntaxTree.placedAllAt_cons, SyntaxTree.placedAllAt_nil, SyntaxTree.placedAt_node, hend]
      exact .node inner (isTrivia_head_plantAll Lexeme.margin_behindMargin os _ _ h)
        (.nil (covers.stands hstands) covers.significant_eq)

/-- So are planted outlines. -/
theorem row_plantAll : ∀ (os : List Outline) {offset : Nat} {ls ws : List Lexeme},
    significant ls = wordsAll os ++ ws → Lexeme.StandsAt all offset ls →
    Row all offset os ws (placedAllAt offset (plantAll os offset ls).trees) (plantAll os offset ls).offset
  | [], offset, ls, ws, h, hs => by
      rw [plantAll_nil, SyntaxTree.placedAllAt_nil]
      exact .nil hs h
  | o :: os, offset, ls, ws, h, hs => by
      rw [wordsAll_cons, List.append_assoc] at h
      have covers := covers_plant o offset h
      have first := row_plant o h hs
      have others := row_plantAll os covers.significant_eq (covers.stands hs)
      rw [plantAll_cons, SyntaxTree.placedAllAt_append, ← covers.offset_eq]
      exact first.append others

end

end Outline

theorem SyntaxTree.isTrivia_of_mem_placedAllAt {ls : List Lexeme}
    (h : ∀ l ∈ ls, l.isTrivia = true) (start : Nat) :
    ∀ e ∈ placedAllAt start (ls.map leaf), e.isTrivia = true := by
  induction ls generalizing start with
  | nil => simp
  | cons l ls ih =>
    intro e he
    rw [List.map_cons, placedAllAt_cons, placedAt_leaf] at he
    rcases List.mem_cons.mp he with rfl | he
    · exact h l List.mem_cons_self
    · exact ih (fun m hm => h m (List.mem_cons_of_mem _ hm)) _ e he

/-- **What is planted under a root is a row**, with the trivia behind it that is left in the text. -/
theorem Outline.exists_row_rooted (kind : SyntaxKind) {os : List Outline} {ls : List Lexeme}
    (h : significant ls = wordsAll os) : ∃ es trail mid stop,
      (rooted kind os ls).placed = .node kind 0 stop (es ++ trail) ∧ Row ls 0 os [] es mid ∧
      ∀ e ∈ trail, e.isTrivia = true := by
  rw [← List.append_nil (wordsAll os)] at h
  have covers := covers_plantAll os 0 h
  rw [rooted, SyntaxTree.placed, SyntaxTree.placedAt_node, SyntaxTree.placedAllAt_append]
  exact ⟨_, _, _, _, rfl, row_plantAll os h (Lexeme.StandsAt.zero ls),
    SyntaxTree.isTrivia_of_mem_placedAllAt (fun _ => covers.isTrivia_of_mem_rest) _⟩

/-! ## Inside a row -/

theorem Element.nodesAll_of_isTrivia {es : List Element} (h : ∀ e ∈ es, e.isTrivia = true) :
    nodesAll es = [] := by
  induction es with
  | nil => simp
  | cons e es ih =>
    rcases e with ⟨k, s, t⟩ | _
    · simp [ih fun f hf => h f (List.mem_cons_of_mem _ hf)]
    · exact absurd (h _ List.mem_cons_self) (by simp [isTrivia])

theorem Element.isNode_of_isTrivia {e : Element} (h : e.isTrivia = true) : e.isNode = false := by
  rcases e with _ | _
  · rfl
  · exact absurd h (by simp [isTrivia])

namespace Row

/-- Behind a row stand the words that follow it. -/
theorem stands (h : Row all start os ws es stop) :
    ∃ ls, Lexeme.StandsAt all stop ls ∧ significant ls = ws := by
  induction h with
  | nil stands follow => exact ⟨_, stands, follow⟩
  | trivia _ _ _ ih | word _ _ _ ih | error _ ih => exact ih
  | node _ _ _ _ ih => exact ih

theorem start_le (h : Row all start os ws es stop) :
    start ≤ stop ∧ ∀ e ∈ es, start ≤ e.start ∧ e.start ≤ e.stop ∧ e.stop ≤ stop := by
  induction h with
  | nil => exact ⟨Nat.le_refl _, List.forall_mem_nil _⟩
  | @trivia start stop l _ _ _ _ _ _ ih | @word start stop l _ _ _ _ _ _ ih =>
    obtain ⟨hle, hmem⟩ := ih
    refine ⟨by omega, fun e he => ?_⟩
    rcases List.mem_cons.mp he with rfl | he
    · exact ⟨Nat.le_refl _, Nat.le_add_right _ _, hle⟩
    · have := hmem e he
      omega
  | error _ ih => exact ih
  | node _ _ _ ih ih' =>
    obtain ⟨hle, -⟩ := ih
    obtain ⟨hle', hmem⟩ := ih'
    refine ⟨by omega, fun e he => ?_⟩
    rcases List.mem_cons.mp he with rfl | he
    · exact ⟨Nat.le_refl _, hle, hle'⟩
    · have := hmem e he
      omega

theorem eq_nil (h : Row all start [] ws es stop) : es = [] := by
  generalize hos : ([] : List Outline) = os at h
  induction h with
  | nil => rfl
  | trivia _ _ ne ih => exact absurd (ih hos) ne
  | _ => exact absurd hos (by simp)

/-- The element of a word, behind trivia. -/
theorem exists_word {l : Lexeme} (h : Row all start (.word l :: os) ws es stop) :
    ∃ front place back, es = front ++ .word l.kind place l.text :: back ∧
      (∀ e ∈ front, e.isTrivia = true ∧ e.stop ≤ place) ∧ l ∈ all ∧ l.isTrivia = false ∧
      Row all (place + l.length) os ws back stop := by
  generalize hps : Outline.word l :: os = ps at h
  induction h with
  | @trivia start stop m _ _ _ hm more _ ih =>
    obtain ⟨front, place, back, rfl, hfront, hl, ht, hrow⟩ := ih hps
    have hplace := (more.start_le.2 (.word l.kind place l.text) (by simp)).1
    refine ⟨.word m.kind start m.text :: front, place, back, rfl, fun e he => ?_, hl, ht, hrow⟩
    rcases List.mem_cons.mp he with rfl | he
    · exact ⟨hm, hplace⟩
    · exact hfront e he
  | word hl ht more =>
    obtain ⟨hm, rfl⟩ := List.cons.inj hps
    obtain rfl := Outline.word.inj hm
    exact ⟨[], _, _, rfl, List.forall_mem_nil _, hl, ht, more⟩
  | _ => exact absurd hps (by simp)

/-- The element of a node, behind trivia. -/
theorem exists_node {kind : SyntaxKind} {ps : List Outline}
    (h : Row all start (.node kind ps :: os) ws es stop) :
    ∃ front place mid cs back, es = front ++ .node kind place mid cs :: back ∧
      (∀ e ∈ front, e.isTrivia = true) ∧ Row all place ps (Outline.wordsAll os ++ ws) cs mid ∧
      (∀ e ∈ cs.head?, e.isTrivia = false) ∧ Row all mid os ws back stop := by
  generalize hqs : Outline.node kind ps :: os = qs at h
  induction h with
  | trivia hm _ _ ih =>
    obtain ⟨front, place, mid, cs, back, rfl, hfront, hrow⟩ := ih hqs
    refine ⟨_ :: front, place, mid, cs, back, rfl, fun e he => ?_, hrow⟩
    rcases List.mem_cons.mp he with rfl | he
    · exact hm
    · exact hfront e he
  | node inner tight more =>
    obtain ⟨hn, rfl⟩ := List.cons.inj hqs
    obtain ⟨rfl, rfl⟩ := Outline.node.inj hn
    exact ⟨[], _, _, _, _, rfl, List.forall_mem_nil _, inner, tight, more⟩
  | _ => exact absurd hqs (by simp)

/-- A node in a row comes from one of its outlines. -/
theorem exists_of_mem (h : Row all start os ws es stop) {e : Element} (he : e ∈ es)
    (hn : e.isNode = true) :
    ∃ before kind ps after place mid cs, os = before ++ .node kind ps :: after ∧
      e = .node kind place mid cs ∧ Row all place ps (Outline.wordsAll after ++ ws) cs mid ∧
      ∀ c ∈ cs.head?, c.isTrivia = false := by
  induction h with
  | nil => exact absurd he List.not_mem_nil
  | trivia _ _ _ ih =>
    rcases List.mem_cons.mp he with rfl | he
    · exact absurd hn (by simp)
    · exact ih he
  | word _ _ _ ih =>
    rcases List.mem_cons.mp he with rfl | he
    · exact absurd hn (by simp)
    · obtain ⟨before, kind, ps, after, place, mid, cs, rfl, hrest⟩ := ih he
      exact ⟨_ :: before, kind, ps, after, place, mid, cs, rfl, hrest⟩
  | error _ ih =>
    obtain ⟨before, kind, ps, after, place, mid, cs, rfl, hrest⟩ := ih he
    exact ⟨_ :: before, kind, ps, after, place, mid, cs, rfl, hrest⟩
  | node inner tight _ _ ih =>
    rcases List.mem_cons.mp he with rfl | he
    · exact ⟨[], _, _, _, _, _, _, rfl, rfl, inner, tight⟩
    · obtain ⟨before, kind, ps, after, place, mid, cs, rfl, hrest⟩ := ih he
      exact ⟨_ :: before, kind, ps, after, place, mid, cs, rfl, hrest⟩

end Row

/-! ## Nodes in their places -/

section Nodes

variable {P : SyntaxKind → List Outline → List Lexeme → Prop}

/-- **A node in its place**: a property holds of it and of every node inside, and its children stand for
the outlines it is made of. -/
inductive Element.Stands (P : SyntaxKind → List Outline → List Lexeme → Prop) (all : List Lexeme) :
    SyntaxKind → List Outline → List Lexeme → Element → Prop
  | intro {kind : SyntaxKind} {os : List Outline} {ws : List Lexeme} {start stop : Nat}
      {es : List Element} (holds : P kind os ws) (every : Outline.EveryAll P os ws)
      (row : Row all start os ws es stop) (tight : ∀ e ∈ es.head?, e.isTrivia = false) :
      Stands P all kind os ws (.node kind start stop es)

theorem Element.Stands.holds {kind : SyntaxKind} {e : Element} (h : e.Stands P all kind os ws) :
    P kind os ws := by
  obtain ⟨holds, -, -, -⟩ := h
  exact holds

theorem Element.Stands.kind_eq {kind : SyntaxKind} {e : Element} (h : e.Stands P all kind os ws) :
    e.kind = kind := by
  obtain ⟨-, -, -, -⟩ := h
  rfl

/-- A node in a row stands for one of the outlines, in front of the words of the others. -/
theorem Row.stands_of_mem (h : Row all start os ws es stop) (hos : Outline.EveryAll P os ws)
    {e : Element} (he : e ∈ es) (hn : e.isNode = true) : ∃ before kind ps after,
      os = before ++ .node kind ps :: after ∧
      e.Stands P all kind ps (Outline.wordsAll after ++ ws) := by
  obtain ⟨before, kind, ps, after, place, mid, cs, rfl, rfl, hrow, tight⟩ := h.exists_of_mem he hn
  simp only [Outline.everyAll_append, Outline.everyAll_cons, Outline.every_node] at hos
  exact ⟨before, kind, ps, after, rfl, .intro hos.2.1.1 hos.2.1.2 hrow tight⟩

/-- **Every node below a row stands for a node of the outlines.** -/
theorem Row.exists_of_mem_nodes (h : Row all start os ws es stop) (hos : Outline.EveryAll P os ws)
    {e : Element} (he : e ∈ Element.nodesAll es) : ∃ kind ps vs, e.Stands P all kind ps vs := by
  induction h with
  | nil => exact absurd he (by simp)
  | trivia _ _ _ ih => exact ih hos (by simpa using he)
  | word _ _ _ ih => exact ih (by simpa using hos) (by simpa using he)
  | error _ ih => exact ih (by simpa using hos) he
  | node inner tight _ ih ih' =>
    simp only [Outline.everyAll_cons, Outline.every_node] at hos
    simp only [Element.nodesAll_cons, Element.nodes_node, List.cons_append, List.mem_cons,
      List.mem_append] at he
    obtain ⟨⟨holds, every⟩, hps⟩ := hos
    rcases he with rfl | he | he
    · exact ⟨_, _, _, .intro holds every inner tight⟩
    · exact ih every he
    · exact ih' hps he

/-- **Every word of the outlines belongs to one of them or to a node below.** -/
theorem Row.exists_of_mem_wordsAll (h : Row all start os ws es stop) (hos : Outline.EveryAll P os ws)
    {l : Lexeme} (hl : l ∈ Outline.wordsAll os) : .word l ∈ os ∨
      ∃ e ∈ Element.nodesAll es, ∃ kind ps vs, e.Stands P all kind ps vs ∧ .word l ∈ ps := by
  induction h with
  | nil => exact absurd hl (by simp)
  | trivia _ _ _ ih =>
    rw [Element.nodesAll_cons, Element.nodes_word, List.nil_append]
    exact ih hos hl
  | word _ _ _ ih =>
    rw [Outline.wordsAll_cons, Outline.words_word, List.singleton_append] at hl
    rw [Element.nodesAll_cons, Element.nodes_word, List.nil_append]
    rcases List.mem_cons.mp hl with rfl | hl
    · exact .inl List.mem_cons_self
    · exact (ih (by simpa using hos) hl).imp_left (List.mem_cons_of_mem _)
  | error _ ih =>
    exact (ih (by simpa using hos) (by simpa using hl)).imp_left (List.mem_cons_of_mem _)
  | node inner tight _ ih ih' =>
    simp only [Outline.everyAll_cons, Outline.every_node] at hos
    rw [Outline.wordsAll_cons, Outline.words_node] at hl
    rw [Element.nodesAll_cons, Element.nodes_node]
    obtain ⟨⟨holds, every⟩, hps⟩ := hos
    rcases List.mem_append.mp hl with hl | hl
    · refine .inr ?_
      rcases ih every hl with hmem | ⟨e, he, hstands⟩
      · exact ⟨_, by simp, _, _, _, .intro holds every inner tight, hmem⟩
      · exact ⟨e, by simp [he], hstands⟩
    · rcases ih' hps hl with hmem | ⟨e, he, hstands⟩
      · exact .inl (List.mem_cons_of_mem _ hmem)
      · exact .inr ⟨e, by simp [he], hstands⟩

end Nodes

end LosslessSyntax
