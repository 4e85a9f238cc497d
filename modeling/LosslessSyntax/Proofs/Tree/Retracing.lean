import LosslessSyntax.Proofs.Tree.Realising

/-!
# Proofs/Tree/Retracing — what any calls whatsoever build

From a tree under construction the calls can be told by which it came about, errors apart
(`TreeBuilder.retraced`), and every call that a sink carries out adds itself to them, whether or not it
fits the calls before.  So if a tree comes of calls in the end, they are the calls that describe it, and
what else there was can only be nodes that were started in front of it and never finished
(`Sink.build_behind_openings`).  Nothing of the text is lost on the way (`Sink.keepsText`).
-/

namespace LosslessSyntax

open Lexeme (margin behindMargin extent significant tokenize)
open SyntaxTree (leaf leavesAll bareAll callsAll)

/-! ## Counting calls -/

namespace SyntaxTree

mutual

theorem count_token_calls : ∀ t : SyntaxTree, t.calls.count .token = t.leaves.length
  | leaf _ => by simp
  | node _ ts => by simp [count_token_callsAll ts]

/-- There is one `token` for each word. -/
theorem count_token_callsAll : ∀ ts : List SyntaxTree,
    (callsAll ts).count .token = (leavesAll ts).length
  | [] => by simp
  | t :: ts => by simp [count_token_calls t, count_token_callsAll ts]

end

mutual

theorem count_finish_calls_bare : ∀ t : SyntaxTree, t.bare.calls.count .finish = t.nodeCount
  | leaf _ => by simp [nodeCount]
  | node _ ts => by simp [nodeCount, count_finish_callsAll_bareAll ts]

/-- There is one `finish` for each node. -/
theorem count_finish_callsAll_bareAll : ∀ ts : List SyntaxTree,
    (callsAll (bareAll ts)).count .finish = nodeCountAll ts
  | [] => by simp [nodeCountAll]
  | leaf l :: ts => by
      rw [bareAll_cons, nodeCountAll, nodeCount, Nat.zero_add, ← count_finish_callsAll_bareAll ts]
      split <;> simp
  | node kind ts :: us => by
      rw [bareAll_cons, if_neg (by simp), nodeCountAll, callsAll_cons, List.count_append,
        count_finish_calls_bare, count_finish_callsAll_bareAll us]

end

mutual

theorem balanced_calls : ∀ t : SyntaxTree, Balanced t.calls
  | leaf _ => by
      rw [calls_leaf]
      exact balanced_of_forall (by simp [Call.isStart])
  | node kind ts => by
      have h : Balanced ([] ++ callsAll ts) := balanced_callsAll ts
      rw [calls_node]
      exact h.insert kind

/-- The calls that describe trees are balanced. -/
theorem balanced_callsAll : ∀ ts : List SyntaxTree, Balanced (callsAll ts)
  | [] => by
      rw [callsAll_nil]
      exact balanced_nil
  | t :: ts => by
      rw [callsAll_cons]
      exact (balanced_calls t).append (balanced_callsAll ts)

end

end SyntaxTree

section Openings

variable (kinds : List SyntaxKind)

theorem count_token_map_start : (kinds.map Call.start).count .token = 0 := by
  simp [List.count_eq_zero]

theorem count_finish_map_start : (kinds.map Call.start).count .finish = 0 := by
  simp [List.count_eq_zero]

theorem countP_isStart_map_start : (kinds.map Call.start).countP Call.isStart = kinds.length := by
  simp [List.countP_map, Function.comp_def, Call.isStart]

end Openings

/-! ## Retracing a builder -/

namespace TreeBuilder

/-- The calls for open nodes: the trees in front of each, and its start. -/
def openings : List Frame → List Call
  | [] => []
  | f :: fs => openings fs ++ (callsAll (bareAll f.before.reverse) ++ [.start f.kind])

/-- **The calls by which a builder came to its trees**, errors apart. -/
def retraced (b : TreeBuilder) : List Call :=
  openings b.frames ++ callsAll (bareAll b.current.reverse)

/-- The trees in front of open nodes. -/
def outside : List Frame → List SyntaxTree
  | [] => []
  | f :: fs => outside fs ++ f.before.reverse

theorem loose_eq (b : TreeBuilder) : b.loose = outside b.frames ++ b.current.reverse := by
  have hfold : ∀ (fs : List Frame) (ts : List SyntaxTree),
      fs.foldl (fun ts f => f.before.reverse ++ ts) ts = outside fs ++ ts := by
    intro fs
    induction fs with
    | nil => exact fun _ => rfl
    | cons f fs ih => exact fun ts => by rw [List.foldl_cons, ih, outside, List.append_assoc]
  exact hfold b.frames _

variable {b b' : TreeBuilder} (ts : List SyntaxTree) (es : List SyntaxError) (kind : SyntaxKind)

theorem retraced_grow : (b.grow ts es).retraced = b.retraced ++ callsAll (bareAll ts) := by
  simp [retraced, grow]

theorem retraced_start : (b.start kind).retraced = b.retraced ++ [.start kind] := by
  simp [retraced, start, openings]

theorem retraced_finish (h : b.finish = .ok b') : b'.retraced = b.retraced ++ [.finish] := by
  obtain ⟨current, frames, errors⟩ := b
  cases frames with
  | nil => exact absurd h (by simp [finish])
  | cons f fs =>
    obtain rfl := Except.ok.inj h
    simp [retraced, openings, SyntaxTree.bareAll_cons]

theorem loose_grow : (b.grow ts es).loose = b.loose ++ ts := by simp [loose_eq, grow]

theorem loose_start : (b.start kind).loose = b.loose := by simp [loose_eq, start, outside]

/-- A node that is finished has the words of its trees. -/
theorem leavesAll_loose_finish (h : b.finish = .ok b') :
    leavesAll b'.loose = leavesAll b.loose := by
  obtain ⟨current, frames, errors⟩ := b
  cases frames with
  | nil => exact absurd h (by simp [finish])
  | cons f fs =>
    obtain rfl := Except.ok.inj h
    simp [loose_eq, outside]

theorem exists_openings_of_outside {fs : List Frame} (h : outside fs = []) :
    ∃ kinds : List SyntaxKind, openings fs = kinds.map .start := by
  induction fs with
  | nil => exact ⟨[], rfl⟩
  | cons f fs ih =>
    obtain ⟨hfs, hf⟩ := List.append_eq_nil_iff.mp h
    obtain ⟨kinds, hkinds⟩ := ih hfs
    exact ⟨kinds ++ [f.kind], by simp [openings, hkinds, hf]⟩

/-- **If the node that was finished last is the only tree**, the nodes that are still open have nothing
in front of it. -/
theorem exists_openings {t : SyntaxTree} (h : b.finish = .ok b') (hloose : b'.loose = [t]) :
    ∃ kinds : List SyntaxKind, b'.retraced = kinds.map .start ++ t.bare.calls := by
  obtain ⟨current, frames, errors⟩ := b
  cases frames with
  | nil => exact absurd h (by simp [finish])
  | cons f fs =>
    obtain rfl := Except.ok.inj h
    rw [loose_eq, List.reverse_cons, ← List.append_assoc, ← List.nil_append [t]] at hloose
    -- the tree is the node itself, so there is nothing in front of it at any depth
    obtain ⟨hfront, hlast⟩ := List.append_inj' hloose rfl
    obtain ⟨hfs, hbefore⟩ := List.append_eq_nil_iff.mp hfront
    obtain rfl := (List.cons.inj hlast).1
    obtain ⟨kinds, hkinds⟩ := exists_openings_of_outside hfs
    exact ⟨kinds, by simp [retraced, hkinds, hbefore, SyntaxTree.bareAll_cons]⟩

theorem loose_of_build {t : SyntaxTree} {es : List SyntaxError} (h : b.build = .ok (t, es)) :
    t.isTrivia = false ∧ b.loose = [t] := by
  unfold build at h
  split at h
  · next kind ts hloose =>
    obtain ⟨rfl, -⟩ := Prod.mk.inj (Except.ok.inj h)
    exact ⟨rfl, hloose⟩
  · exact absurd h (by simp)

end TreeBuilder

/-! ## Retracing a sink -/

/-- The calls that are not errors. -/
def Call.solid (cs : List Call) : List Call := cs.filter (·.complaint?.isNone)

theorem Call.countP_isStart_solid (cs : List Call) :
    (Call.solid cs).countP Call.isStart = cs.countP Call.isStart := by
  rw [Call.solid, List.countP_filter]
  refine List.countP_congr fun c _ => ?_
  cases c <;> simp [Call.isStart]

namespace Sink

/-- **The calls by which a sink came to its trees**, errors apart; the end of a node that is held back is
one of them. -/
def retraced (s : Sink) : List Call :=
  match s.stage with
  | .finishing => s.builder.retraced ++ [.finish]
  | _ => s.builder.retraced

/-- **A sink has carried out calls**: they have been added to those that it has carried out before, and
the words in the tree with those that are left are the same. -/
structure Carries (s : Sink) (cs : List Call) (s' : Sink) : Prop where
  retraced_eq : s'.retraced = s.retraced ++ Call.solid cs
  leaves_eq : leavesAll s'.builder.loose ++ s'.rest = leavesAll s.builder.loose ++ s.rest

variable {s s' s'' : Sink} {b : TreeBuilder} {c : Call} {cs ds : List Call}

theorem Carries.refl (s : Sink) : s.Carries [] s := ⟨(List.append_nil _).symm, rfl⟩

theorem Carries.trans (h : s.Carries cs s') (h' : s'.Carries ds s'') : s.Carries (cs ++ ds) s'' := by
  refine ⟨?_, h'.leaves_eq.trans h.leaves_eq⟩
  rw [h'.retraced_eq, h.retraced_eq, Call.solid, Call.solid, Call.solid, List.filter_append,
    List.append_assoc]

theorem Settles.retraced_eq (h : s.Settles b) : b.retraced = s.retraced := by
  rcases h with stage | ⟨stage, finish⟩ <;> simp only [retraced, stage]
  exact TreeBuilder.retraced_finish finish

theorem Settles.leavesAll_loose (h : s.Settles b) :
    leavesAll b.loose = leavesAll s.builder.loose := by
  rcases h with - | ⟨-, finish⟩
  · rfl
  · exact TreeBuilder.leavesAll_loose_finish finish

/-- A sink that settles has a builder to settle with. -/
theorem exists_settles (hs : s.stage ≠ .beforeRoot) (h : s.settle = .ok s') : ∃ b, s.Settles b := by
  cases hstage : s.stage with
  | beforeRoot => exact absurd hstage hs
  | inside => exact ⟨_, .inside hstage⟩
  | finishing =>
    cases hfinish : s.builder.finish with
    | ok b => exact ⟨b, .finishing hstage hfinish⟩
    | error e => simp [settle, hstage, finishNode, hfinish, Except.map] at h

theorem Settles.token_of_nil (h : s.Settles b) (hrest : behindMargin s.rest = []) :
    s.token = .error .outOfWords := by
  have hsettle := h.settle
  rcases h with stage | ⟨stage, -⟩ <;> simp only [Sink.token, stage, hsettle, hrest]

/-- Trivia that is put into the tree is not called for. -/
theorem retraced_grow_margin (b : TreeBuilder) (ls : List Lexeme) :
    (b.grow ((margin ls).map leaf) []).retraced = b.retraced := by
  rw [TreeBuilder.retraced_grow,
    SyntaxTree.bareAll_map_leaf fun _ => Lexeme.isTrivia_of_mem_margin, SyntaxTree.callsAll_nil,
    List.append_nil]

theorem leavesAll_loose_grow_margin (b : TreeBuilder) (ls : List Lexeme) :
    leavesAll (b.grow ((margin ls).map leaf) []).loose ++ behindMargin ls =
      leavesAll b.loose ++ ls := by
  rw [TreeBuilder.loose_grow, SyntaxTree.leavesAll_append, SyntaxTree.leavesAll_map_leaf,
    List.append_assoc, Lexeme.margin_append_behindMargin]

/-! ### One call -/

theorem carries_start {kind : SyntaxKind} (h : s.start kind = .ok s') :
    s.Carries [.start kind] s' := by
  by_cases hstage : s.stage = .beforeRoot
  · simp only [start, hstage] at h
    obtain rfl := Except.ok.inj h
    refine ⟨?_, ?_⟩
    · simp only [retraced, hstage, TreeBuilder.retraced_start]
      rfl
    · simp only [TreeBuilder.loose_start]
  · cases hsettle : s.settle with
    | error e => cases hs : s.stage <;> simp [start, hs, hsettle, Except.map] at h hstage
    | ok =>
      obtain ⟨b, hb⟩ := exists_settles hstage hsettle
      obtain rfl := Except.ok.inj (h.symm.trans (hb.start kind))
      refine ⟨?_, ?_⟩
      · rw [← hb.retraced_eq, ← retraced_grow_margin b s.rest]
        exact TreeBuilder.retraced_start kind
      · rw [← hb.leavesAll_loose, ← leavesAll_loose_grow_margin b s.rest,
          TreeBuilder.loose_start]

theorem carries_token (h : s.token = .ok s') : s.Carries [.token] s' := by
  have hstage : s.stage ≠ .beforeRoot := fun hs => by simp [token, hs] at h
  cases hsettle : s.settle with
  | error e => cases hs : s.stage <;> simp [token, hs, hsettle] at h
  | ok =>
    obtain ⟨b, hb⟩ := exists_settles hstage hsettle
    cases hrest : behindMargin s.rest with
    | nil => exact absurd (h.symm.trans (hb.token_of_nil hrest)) (by simp)
    | cons l ls =>
      have hl := Lexeme.isTrivia_of_behindMargin_eq_cons hrest
      obtain ⟨s'', htoken, hsettles, rest_eq, -⟩ := hb.token hrest
      obtain rfl := Except.ok.inj (h.symm.trans htoken)
      have hgrow : b.grow ((margin s.rest ++ [l]).map leaf) [] =
          (b.grow ((margin s.rest).map leaf) []).grow [leaf l] [] := by simp
      rw [hgrow] at hsettles
      refine ⟨?_, ?_⟩
      · rw [← hsettles.retraced_eq, TreeBuilder.retraced_grow, retraced_grow_margin,
          hb.retraced_eq]
        simp [SyntaxTree.bareAll_cons, hl, Call.solid, List.filter_cons]
      · rw [← hsettles.leavesAll_loose, ← hb.leavesAll_loose, ← leavesAll_loose_grow_margin b s.rest,
          TreeBuilder.loose_grow, hrest, rest_eq]
        simp

theorem carries_finish (h : s.finish = .ok s') : s.Carries [.finish] s' := by
  cases hstage : s.stage with
  | beforeRoot => simp [finish, hstage] at h
  | inside =>
    simp only [finish, hstage] at h
    obtain rfl := Except.ok.inj h
    refine ⟨?_, rfl⟩
    simp only [retraced, hstage]
    rfl
  | finishing =>
    cases hfinish : s.builder.finish with
    | error e => simp [finish, hstage, finishNode, hfinish] at h
    | ok b =>
      simp only [finish, hstage, finishNode, hfinish] at h
      obtain rfl := Except.ok.inj h
      refine ⟨?_, ?_⟩
      · simp only [retraced, hstage, TreeBuilder.retraced_finish hfinish]
        rfl
      · simp only [TreeBuilder.leavesAll_loose_finish hfinish]

theorem carries_error (s : Sink) (c : Complaint) : s.Carries [.error c] (s.error c) := by
  have hbuilder : (s.error c).builder = s.builder.grow [] [⟨c, .offset s.offset⟩] :=
    TreeBuilder.error_eq_grow ..
  have hretraced : (s.error c).builder.retraced = s.builder.retraced := by
    rw [hbuilder, TreeBuilder.retraced_grow, SyntaxTree.bareAll_nil, SyntaxTree.callsAll_nil,
      List.append_nil]
  refine ⟨?_, ?_⟩
  · have hstage : (s.error c).stage = s.stage := rfl
    cases hs : s.stage <;> simp [retraced, hretraced, hstage, hs, Call.solid]
  · rw [hbuilder, TreeBuilder.loose_grow, List.append_nil]
    rfl

/-- **Every call is added to those before.** -/
theorem carries_call (h : s.call c = .ok s') : s.Carries [c] s' := by
  cases c with
  | start kind => exact carries_start h
  | token => exact carries_token h
  | finish => exact carries_finish h
  | error e => exact Except.ok.inj h ▸ carries_error s e

/-- So are calls one after the other. -/
theorem carries_calls (h : s.calls cs = .ok s') : s.Carries cs s' := by
  induction cs generalizing s with
  | nil => exact Except.ok.inj h ▸ .refl s
  | cons c cs ih =>
    rw [calls_cons] at h
    cases hcall : s.call c with
    | error e => exact absurd (hcall ▸ h) (by simp [Except.bind])
    | ok t =>
      rw [hcall] at h
      exact (carries_call hcall).trans (ih h)

/-! ### The end -/

/-- A sink that has not been given a call has not carried out any. -/
theorem leaves_of_carries {ls : List Lexeme} (h : (ofLexemes ls).Carries cs s) :
    s.retraced = Call.solid cs ∧ leavesAll s.builder.loose ++ s.rest = ls := by
  refine ⟨h.retraced_eq.trans ?_, h.leaves_eq.trans ?_⟩
  · simp [retraced, ofLexemes, TreeBuilder.retraced, TreeBuilder.empty, TreeBuilder.openings]
  · simp [ofLexemes, TreeBuilder.loose, TreeBuilder.empty]

/-- What it takes to build a tree. -/
theorem exists_of_build {t : SyntaxTree} {es : List SyntaxError} (h : s.build = .ok (t, es)) :
    s.stage = .finishing ∧ behindMargin s.rest = [] ∧
      ∃ b, (s.builder.grow ((margin s.rest).map leaf) []).finish = .ok b ∧ b.build = .ok (t, es) := by
  cases hstage : s.stage with
  | beforeRoot => simp [build, hstage] at h
  | inside => simp [build, hstage] at h
  | finishing =>
    simp only [build, hstage, placeTrivia_eq, finishNode] at h
    cases hfinish : (s.builder.grow ((margin s.rest).map leaf) []).finish with
    | error e => simp [hfinish] at h
    | ok b =>
      simp only [hfinish] at h
      split at h
      · next hrest =>
        refine ⟨rfl, by simpa using hrest, b, rfl, ?_⟩
        cases hbuild : b.build with
        | error e => simp [hbuild] at h
        | ok result => simpa [hbuild] using h
      · exact absurd h (by simp)

/-- **What a sink has built**: the node that was held back is the only tree that is left, and all the
words are in it. -/
theorem exists_openings_of_build {t : SyntaxTree} {es : List SyntaxError}
    (h : s.build = .ok (t, es)) :
    t.isTrivia = false ∧ t.leaves = leavesAll s.builder.loose ++ s.rest ∧
      ∃ kinds : List SyntaxKind, s.retraced = kinds.map .start ++ t.bare.calls := by
  obtain ⟨hstage, hrest, b, hfinish, hbuild⟩ := exists_of_build h
  obtain ⟨hnode, hloose⟩ := TreeBuilder.loose_of_build hbuild
  refine ⟨hnode, ?_, ?_⟩
  · rw [← leavesAll_loose_grow_margin, hrest, List.append_nil,
      ← TreeBuilder.leavesAll_loose_finish hfinish, hloose]
    simp
  · obtain ⟨kinds, hkinds⟩ := TreeBuilder.exists_openings hfinish hloose
    refine ⟨kinds, ?_⟩
    rw [← hkinds, TreeBuilder.retraced_finish hfinish, retraced_grow_margin]
    simp only [retraced, hstage]

/-! ## What any calls build -/

section Build

variable {text : String} {t : SyntaxTree} {es : List SyntaxError}

/-- **Whatever the calls, nothing is lost**: the leaves of a tree that is built are the lexemes of the
text, and as many words are among them as were called for. -/
theorem keepsText (hcalls : (ofLexemes (tokenize text)).calls cs = .ok s)
    (hbuild : s.build = .ok (t, es)) :
    t.leaves = tokenize text ∧ t.text = text ∧
      (significant t.leaves).length = cs.count .token := by
  obtain ⟨hretraced, hleaves⟩ := leaves_of_carries (carries_calls hcalls)
  obtain ⟨hword, leaves_eq, kinds, hkinds⟩ := exists_openings_of_build hbuild
  rw [hleaves] at leaves_eq
  refine ⟨leaves_eq, ?_, ?_⟩
  · rw [SyntaxTree.text, leaves_eq, Lexeme.spell_tokenize]
  · calc (significant t.leaves).length = t.bare.calls.count .token := by
          rw [SyntaxTree.count_token_calls, SyntaxTree.leaves_bare hword]
      _ = (Call.solid cs).count .token := by
          rw [← hretraced, hkinds, List.count_append, count_token_map_start, Nat.zero_add]
      _ = cs.count .token := List.count_filter rfl

/-- The node that was started first is never finished. -/
theorem keepsText_unfinished :
    let text := "1 "
    let cs : List Call := [.start .sourceFile, .start .binExpr, .token, .finish]
    ∃ s t es, (ofLexemes (tokenize text)).calls cs = .ok s ∧ s.build = .ok (t, es) ∧
      t.leaves = tokenize text ∧ t.text = text ∧
      (significant t.leaves).length = cs.count .token := by
  intro text cs
  have htext : tokenize text = [⟨.intNumber, "1"⟩, ⟨.whitespace, " "⟩] := by decide +kernel
  have hcalls : ∃ s t es, (ofLexemes (tokenize text)).calls cs = .ok s ∧ s.build = .ok (t, es) := by
    rw [htext]
    exact ⟨_, _, _, rfl, rfl⟩
  obtain ⟨s, t, es, hcalls, hbuild⟩ := hcalls
  exact ⟨s, t, es, hcalls, hbuild, keepsText hcalls hbuild⟩

/-- **A tree is built by the calls that describe it**, behind the starts of nodes that are never
finished: those are not in the tree, and no call is refused on their account. -/
theorem build_behind_openings (hcalls : (ofLexemes (tokenize text)).calls cs = .ok s)
    (hbuild : s.build = .ok (t, es)) :
    ∃ kinds : List SyntaxKind, Call.solid cs = kinds.map .start ++ t.bare.calls ∧
      cs.count .finish = t.nodeCount ∧ cs.countP Call.isStart = kinds.length + t.nodeCount := by
  obtain ⟨hretraced, -⟩ := leaves_of_carries (carries_calls hcalls)
  obtain ⟨-, -, kinds, hkinds⟩ := exists_openings_of_build hbuild
  have solid_eq : Call.solid cs = kinds.map .start ++ t.bare.calls := hretraced.symm.trans hkinds
  have finish_eq : cs.count .finish = t.nodeCount := by
    rw [← List.count_filter (p := (·.complaint?.isNone)) rfl, ← Call.solid, solid_eq,
      List.count_append, count_finish_map_start, Nat.zero_add, SyntaxTree.count_finish_calls_bare]
  refine ⟨kinds, solid_eq, finish_eq, ?_⟩
  calc cs.countP Call.isStart = (Call.solid cs).countP Call.isStart :=
        (Call.countP_isStart_solid cs).symm
    _ = kinds.length + t.bare.calls.count .finish := by
        rw [solid_eq, List.countP_append, countP_isStart_map_start,
          (SyntaxTree.balanced_calls _).even]
    _ = kinds.length + t.nodeCount := by rw [SyntaxTree.count_finish_calls_bare]

theorem build_behind_openings_literal :
    let text := "1"
    let cs : List Call := [.start .sourceFile, .start .parenExpr, .start .literal, .token, .finish]
    ∃ s t es, (ofLexemes (tokenize text)).calls cs = .ok s ∧ s.build = .ok (t, es) ∧
      ∃ kinds : List SyntaxKind, Call.solid cs = kinds.map .start ++ t.bare.calls ∧
        cs.count .finish = t.nodeCount ∧ cs.countP Call.isStart = kinds.length + t.nodeCount := by
  intro text cs
  have htext : tokenize text = [⟨.intNumber, "1"⟩] := by decide +kernel
  have hcalls : ∃ s t es, (ofLexemes (tokenize text)).calls cs = .ok s ∧ s.build = .ok (t, es) := by
    rw [htext]
    exact ⟨_, _, _, rfl, rfl⟩
  obtain ⟨s, t, es, hcalls, hbuild⟩ := hcalls
  exact ⟨s, t, es, hcalls, hbuild, build_behind_openings hcalls hbuild⟩

/-- **The node that was started first may never be finished**: then the root is of another kind, and
there are fewer nodes than starts. -/
theorem build_of_unfinished :
    let cs : List Call := [.start .sourceFile, .start .literal, .token, .finish]
    let t := SyntaxTree.node .literal [leaf ⟨.intNumber, "1"⟩]
    (∃ s, (ofLexemes (tokenize "1")).calls cs = .ok s ∧ s.build = .ok (t, [])) ∧
      cs.count .finish < cs.countP Call.isStart ∧ t.kind ≠ .sourceFile ∧
      t.nodeCount < cs.countP Call.isStart := by
  intro cs t
  have htext : tokenize "1" = [⟨.intNumber, "1"⟩] := by decide +kernel
  refine ⟨?_, by decide, by decide, by decide⟩
  rw [htext]
  exact ⟨_, rfl, rfl⟩

end Build

end Sink

end LosslessSyntax
