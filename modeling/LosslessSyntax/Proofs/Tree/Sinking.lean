import LosslessSyntax.Proofs.Tree.Planting
import LosslessSyntax.Tree.Sink

/-!
# Proofs/Tree/Sinking — a sink plants

A sink that is given the calls of an outline, in front of the words of that outline, plants it.  What
is in the way is that a sink holds a finished node back: its builder is one step behind, and `Settles`
says which builder it has once that step is taken.
-/

namespace LosslessSyntax

open Lexeme (margin behindMargin extent significant significant_behindMargin behindMargin_eq_cons)
open SyntaxTree (leaf)

/-! ## What a builder has been given -/

namespace TreeBuilder

/-- A builder with more trees in its current node, and more errors. -/
def grow (b : TreeBuilder) (ts : List SyntaxTree) (es : List SyntaxError) : TreeBuilder :=
  ⟨ts.reverse ++ b.current, b.frames, b.errors ++ es.toArray⟩

variable (b : TreeBuilder) (ts us : List SyntaxTree) (es fs : List SyntaxError)

@[simp] theorem grow_nil : b.grow [] [] = b := by simp [grow]

@[simp] theorem grow_grow : (b.grow ts es).grow us fs = b.grow (ts ++ us) (es ++ fs) := by
  simp [grow]

theorem word_eq_grow (l : Lexeme) : b.word l = b.grow [leaf l] [] := by simp [word, add, grow]

theorem error_eq_grow (e : SyntaxError) : b.error e = b.grow [] [e] := by simp [error, grow]

/-- What a started node is given ends up inside it. -/
theorem finish_grow_start (kind : SyntaxKind) :
    ((b.start kind).grow ts es).finish = .ok (b.grow [.node kind ts] es) := by
  simp [start, grow, finish]

/-- An error may be noted before or after a node is finished. -/
theorem finish_error {b b' : TreeBuilder} (h : b.finish = .ok b') (e : SyntaxError) :
    (b.error e).finish = .ok (b'.error e) := by
  obtain ⟨cur, frames, errors⟩ := b
  rcases frames with _ | ⟨f, frames⟩
  · exact absurd h (by simp [finish])
  · obtain rfl := Except.ok.inj h
    rfl

end TreeBuilder

/-! ## The builder behind a sink -/

namespace Sink

/-- **Once the node that it holds back is finished, a sink has this builder.** -/
inductive Settles (s : Sink) : TreeBuilder → Prop
  | inside (stage : s.stage = .inside) : Settles s s.builder
  | finishing {b : TreeBuilder} (stage : s.stage = .finishing) (finish : s.builder.finish = .ok b) :
    Settles s b

variable {s : Sink} {b : TreeBuilder}

theorem placeTrivia_go (ls : List Lexeme) (s : Sink) (h : s.rest = ls) : placeTrivia.go ls s =
    ⟨behindMargin ls, s.offset + extent (margin ls), s.placed + (margin ls).length, s.stage,
      s.builder.grow ((margin ls).map leaf) []⟩ := by
  induction ls generalizing s with
  | nil =>
    obtain ⟨rest, offset, placed, stage, builder⟩ := s
    obtain rfl : rest = [] := h
    simp [placeTrivia.go, margin, behindMargin]
  | cons l ls ih =>
    rw [placeTrivia.go]
    split
    · next hl =>
      rw [ih (s.place l ls) rfl]
      simp only [place, margin, behindMargin, List.takeWhile_cons_of_pos hl,
        List.dropWhile_cons_of_pos hl, TreeBuilder.word_eq_grow, TreeBuilder.grow_grow]
      simp [Nat.add_assoc, Nat.add_comm 1]
    · next hl =>
      obtain ⟨rest, offset, placed, stage, builder⟩ := s
      obtain rfl : rest = l :: ls := h
      simp [margin, behindMargin, hl]

/-- **Trivia is placed up to the next word that the grammar reads.** -/
theorem placeTrivia_eq (s : Sink) : s.placeTrivia =
    ⟨behindMargin s.rest, s.offset + extent (margin s.rest), s.placed + (margin s.rest).length, s.stage,
      s.builder.grow ((margin s.rest).map leaf) []⟩ :=
  placeTrivia_go s.rest s rfl

theorem Settles.settle (h : s.Settles b) : s.settle =
    .ok ⟨behindMargin s.rest, s.offset + extent (margin s.rest), s.placed + (margin s.rest).length,
      .inside, b.grow ((margin s.rest).map leaf) []⟩ := by
  rcases h with stage | ⟨stage, finish⟩
  · rw [Sink.settle, stage, placeTrivia_eq]
  · simp only [Sink.settle, stage, finishNode, finish, Except.map, placeTrivia_eq]

/-! ## The calls -/

theorem Settles.start (h : s.Settles b) (kind : SyntaxKind) : s.start kind =
    .ok ⟨behindMargin s.rest, s.offset + extent (margin s.rest), s.placed + (margin s.rest).length,
      .inside, (b.grow ((margin s.rest).map leaf) []).start kind⟩ := by
  have hsettle := h.settle
  rcases h with stage | ⟨stage, -⟩ <;> simp only [Sink.start, stage, hsettle, Except.map]

theorem Settles.finish (h : s.Settles b) :
    s.finish = .ok { s with stage := .finishing, builder := b } := by
  rcases h with stage | ⟨stage, finish⟩
  · simp only [Sink.finish, stage]
  · simp only [Sink.finish, stage, finishNode, finish]

theorem Settles.token (h : s.Settles b) {l : Lexeme} {rest : List Lexeme}
    (hrest : behindMargin s.rest = l :: rest) : ∃ s', s.token = .ok s' ∧
      s'.Settles (b.grow ((margin s.rest ++ [l]).map leaf) []) ∧ s'.rest = rest ∧
      s'.offset = s.offset + extent (margin s.rest ++ [l]) := by
  have hsettle := h.settle
  have htoken : s.token = .ok (place ⟨behindMargin s.rest, s.offset + extent (margin s.rest),
      s.placed + (margin s.rest).length, .inside, b.grow ((margin s.rest).map leaf) []⟩ l rest) := by
    rcases h with stage | ⟨stage, -⟩ <;> simp only [Sink.token, stage, hsettle, hrest]
  refine ⟨_, htoken, ?_, rfl, by simp [place, Nat.add_assoc]⟩
  have := Settles.inside (s := place ⟨behindMargin s.rest, s.offset + extent (margin s.rest),
      s.placed + (margin s.rest).length, .inside, b.grow ((margin s.rest).map leaf) []⟩ l rest) rfl
  simpa [place, TreeBuilder.word_eq_grow] using this

theorem Settles.error (h : s.Settles b) (c : Complaint) :
    (s.error c).Settles (b.grow [] [⟨c, .offset s.offset⟩]) := by
  rw [← TreeBuilder.error_eq_grow]
  rcases h with stage | ⟨stage, finish⟩
  · exact .inside stage
  · exact .finishing stage (TreeBuilder.finish_error finish _)

theorem calls_append (s : Sink) (cs ds : List Call) :
    s.calls (cs ++ ds) = (s.calls cs).bind fun s => s.calls ds :=
  List.foldlM_append

theorem calls_cons (s : Sink) (c : Call) (cs : List Call) :
    s.calls (c :: cs) = (s.call c).bind fun s => s.calls cs :=
  List.foldlM_cons

theorem Settles.calls_start (h : s.Settles b) (kind : SyntaxKind) (cs : List Call) :
    s.calls (.start kind :: cs) = calls ⟨behindMargin s.rest, s.offset + extent (margin s.rest),
      s.placed + (margin s.rest).length, .inside, (b.grow ((margin s.rest).map leaf) []).start kind⟩
        cs := by
  rw [calls_cons, call, h.start kind]
  rfl

theorem calls_finish {s s' : Sink} {b : TreeBuilder} {cs : List Call} (h : s.calls cs = .ok s')
    (hsettles : s'.Settles b) :
    s.calls (cs ++ [.finish]) = .ok { s' with stage := .finishing, builder := b } := by
  rw [calls_append, h, ← hsettles.finish]
  show s'.calls [.finish] = s'.finish
  rw [calls_cons, call, hsettles.finish]
  rfl

/-! ## Outlines -/

/-- A sink carries instructions out, and has planted something then. -/
def Plants (s : Sink) (b : TreeBuilder) (cs : List Call) (p : Planting) : Prop :=
  ∃ s', s.calls cs = .ok s' ∧ s'.Settles (b.grow p.trees p.errors) ∧ s'.rest = p.rest ∧
    s'.offset = p.offset

mutual

/-- **The calls of an outline plant it.** -/
theorem plants : ∀ (o : Outline) {s : Sink} {b : TreeBuilder} {ws : List Lexeme}, s.Settles b →
    significant s.rest = o.words ++ ws → s.Plants b o.calls (o.plant s.offset s.rest)
  | .word l, s, b, ws, h, hws => by
      rw [Outline.words_word] at hws
      obtain ⟨rest, hrest, -⟩ := behindMargin_eq_cons hws
      obtain ⟨s', htoken, hsettles, hrest', hoffset⟩ := h.token hrest
      rw [Outline.calls_word, Outline.plant_word]
      refine ⟨s', ?_, hsettles, ?_, hoffset⟩
      · rw [calls_cons, call, htoken]
        rfl
      · rw [hrest', hrest, List.tail_cons]
  | .error c, s, b, ws, h, hws => by
      rw [Outline.calls_error, Outline.plant_error]
      exact ⟨s.error c, rfl, h.error c, rfl, rfl⟩
  | .node kind os, s, b, ws, h, hws => by
      rw [Outline.words_node, ← significant_behindMargin] at hws
      have hinside := Settles.inside (s := ⟨behindMargin s.rest, s.offset + extent (margin s.rest),
        s.placed + (margin s.rest).length, .inside,
        (b.grow ((margin s.rest).map leaf) []).start kind⟩) rfl
      obtain ⟨s', hcalls, hsettles, hrest, hoffset⟩ := plantsAll os hinside hws
      rw [Outline.calls_node, Outline.plant_node]
      refine ⟨_, (h.calls_start kind _).trans (calls_finish hcalls hsettles), .finishing rfl ?_, hrest,
        hoffset⟩
      refine (TreeBuilder.finish_grow_start _ _ _ _).trans ?_
      rw [TreeBuilder.grow_grow, List.nil_append]

/-- The calls of outlines plant them one behind the other. -/
theorem plantsAll : ∀ (os : List Outline) {s : Sink} {b : TreeBuilder} {ws : List Lexeme}, s.Settles b →
    significant s.rest = Outline.wordsAll os ++ ws →
    s.Plants b (Outline.callsAll os) (Outline.plantAll os s.offset s.rest)
  | [], s, b, ws, h, hws => by
      rw [Outline.callsAll_nil, Outline.plantAll_nil]
      exact ⟨s, rfl, by simpa using h, rfl, rfl⟩
  | o :: os, s, b, ws, h, hws => by
      rw [Outline.wordsAll_cons, List.append_assoc] at hws
      have covers := o.covers_plant s.offset hws
      obtain ⟨s', hcalls, hsettles, hrest, hoffset⟩ := plants o h hws
      have hws' := covers.significant_eq
      rw [← hrest] at hws'
      obtain ⟨s'', hcalls', hsettles', hrest', hoffset'⟩ := plantsAll os hsettles hws'
      rw [hrest, hoffset] at hsettles' hrest' hoffset'
      rw [Outline.callsAll_cons, Outline.plantAll_cons]
      refine ⟨s'', ?_, ?_, hrest', hoffset'⟩
      · rw [calls_append, hcalls]
        exact hcalls'
      · simpa using hsettles'

end

/-- Errors are noted where the sink stands. -/
theorem calls_errors (s : Sink) (cs : List Complaint) : s.calls (cs.map Call.error) =
    .ok { s with builder := s.builder.grow [] (cs.map fun c => ⟨c, .offset s.offset⟩) } := by
  induction cs generalizing s with
  | nil =>
    rw [List.map_nil, List.map_nil, TreeBuilder.grow_nil]
    rfl
  | cons c cs ih =>
    rw [List.map_cons, calls_cons]
    refine (ih (s.error c)).trans ?_
    rw [error, TreeBuilder.error_eq_grow, TreeBuilder.grow_grow]
    rfl

/-- **A sink builds one tree**: the outlines under their root, with the trivia at the end of the text.
Errors may be noted before the root is started and after it is finished. -/
theorem build_rooted {ls : List Lexeme} {os : List Outline} (kind : SyntaxKind)
    (before after : List Complaint) (h : significant ls = Outline.wordsAll os) :
    ∃ s, (ofLexemes ls).calls
        (before.map .error ++ ((Outline.node kind os).calls ++ after.map .error)) = .ok s ∧
      s.build = .ok (Outline.rooted kind os ls, before.map (fun c => ⟨c, .offset 0⟩) ++
        ((Outline.plantAll os 0 ls).errors ++
          after.map fun c => ⟨c, .offset (Outline.plantAll os 0 ls).offset⟩)) := by
  let noted : List SyntaxError := before.map fun c => ⟨c, .offset 0⟩
  have hinside := Settles.inside
    (s := ⟨ls, 0, 0, .inside, (TreeBuilder.empty.grow [] noted).start kind⟩) rfl
  rw [← List.append_nil (Outline.wordsAll os)] at h
  have covers := Outline.covers_plantAll os 0 h
  obtain ⟨s, hcalls, hsettles, hrest, hoffset⟩ := plantsAll os hinside h
  have hfinish := calls_finish hcalls hsettles
  have hstart : (ofLexemes ls).calls
      (before.map .error ++ ((Outline.node kind os).calls ++ after.map .error)) =
        (calls ⟨ls, 0, 0, .inside, (TreeBuilder.empty.grow [] noted).start kind⟩
          (Outline.callsAll os ++ [.finish])).bind fun s => s.calls (after.map .error) := by
    rw [calls_append, calls_errors, Outline.calls_node, List.cons_append, ← calls_append]
    exact calls_cons ..
  have hafter := (congrArg (·.bind fun s => s.calls (after.map .error)) hfinish).trans
    (calls_errors _ after)
  refine ⟨_, hstart.trans hafter, ?_⟩
  -- all that is left is trivia, which goes to the end of the root
  have hbehind : behindMargin (Outline.plantAll os 0 ls).rest = [] :=
    Lexeme.behindMargin_eq_nil covers.significant_eq
  have hmargin : margin (Outline.plantAll os 0 ls).rest = (Outline.plantAll os 0 ls).rest := by
    have := Lexeme.margin_append_behindMargin (Outline.plantAll os 0 ls).rest
    rwa [hbehind, List.append_nil] at this
  simp only [build, placeTrivia_eq, finishNode, TreeBuilder.grow_grow, TreeBuilder.finish_grow_start,
    hrest, hbehind, hmargin]
  simp [TreeBuilder.build, TreeBuilder.loose, TreeBuilder.grow, TreeBuilder.empty, Outline.rooted, noted,
    hoffset]

/-- **A sink builds a file**: the root over its outlines, with the trivia at the end of the text. -/
theorem build_file {ls : List Lexeme} {os : List Outline} (kind : SyntaxKind)
    (h : significant ls = Outline.wordsAll os) :
    ∃ s, (ofLexemes ls).calls (Outline.node kind os).calls = .ok s ∧
      s.build = .ok (Outline.rooted kind os ls, (Outline.plantAll os 0 ls).errors) := by
  simpa using build_rooted kind [] [] h

end Sink

end LosslessSyntax
