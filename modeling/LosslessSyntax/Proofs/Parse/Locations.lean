import LosslessSyntax.Proofs.Parse.Anchors
import LosslessSyntax.Proofs.Parse.Pointers

/-!
# Proofs/Parse/Locations — where the errors of a parse are

The errors of the grammar come in the order of the text, and each is right behind the word that was read
last or where a word was skipped; the literals that are too large come after them, in the order of the
text again, since there is no node inside a literal.  Every location is a place between lexemes.
-/

namespace LosslessSyntax

open Lexeme (extent significant tokenize)
open SyntaxTree (leaf leavesAll placedAt placedAllAt)
open Element (nodesAll)
open SyntaxKind (literal)

/-! ## Places between lexemes -/

/-- **A place between lexemes**, or at either end of them. -/
def Lexeme.IsBoundary (all : List Lexeme) (offset : Nat) : Prop := ∃ ls, StandsAt all offset ls

variable {all : List Lexeme}

theorem Lexeme.IsBoundary.le {offset : Nat} (h : IsBoundary all offset) : offset ≤ extent all := by
  obtain ⟨ls, ms, rfl, rfl⟩ := h
  rw [extent_append]
  exact Nat.le_add_right _ _

theorem Anchored.isBoundary {nodes : List Element} {n place : Nat} (h : Anchored all nodes n place) :
    Lexeme.IsBoundary all place := by
  cases h with
  | @behind front back l split _ => exact ⟨back, front ++ [l], by simpa using split, rfl⟩
  | @skipping front back l _ split => exact ⟨l :: back, front, split, rfl⟩

theorem NotedAt.isBoundary {nodes : List Element} {x : Nat × Complaint} {e : SyntaxError}
    (h : NotedAt all nodes x e) : Lexeme.IsBoundary all e.location.start ∧
      Lexeme.IsBoundary all e.location.stop := by
  obtain ⟨place, rfl, anchored⟩ := h
  exact ⟨anchored.isBoundary, anchored.isBoundary⟩

namespace SyntaxTree

mutual

theorem isBoundary_of_mem_nodes_placedAt : ∀ (t : SyntaxTree) {start : Nat} {ls : List Lexeme},
    Lexeme.StandsAt all start (t.leaves ++ ls) → ∀ e ∈ (t.placedAt start).nodes,
      Lexeme.IsBoundary all e.start ∧ Lexeme.IsBoundary all e.stop
  | leaf l, start, ls, h, e, he => by
      rw [placedAt_leaf, Element.nodes_word] at he
      exact absurd he List.not_mem_nil
  | node kind ts, start, ls, h, e, he => by
      have hstop := stop_placedAt (node kind ts) start
      rw [placedAt_node] at he hstop
      rw [Element.nodes_node] at he
      rcases List.mem_cons.mp he with rfl | he
      · exact ⟨⟨_, h⟩, ⟨_, hstop ▸ h.append⟩⟩
      · rw [leaves_node] at h
        exact isBoundary_of_mem_nodesAll_placedAllAt ts h e he

/-- **The nodes of a tree begin and end between words.** -/
theorem isBoundary_of_mem_nodesAll_placedAllAt : ∀ (ts : List SyntaxTree) {start : Nat}
    {ls : List Lexeme}, Lexeme.StandsAt all start (leavesAll ts ++ ls) →
    ∀ e ∈ nodesAll (placedAllAt start ts),
      Lexeme.IsBoundary all e.start ∧ Lexeme.IsBoundary all e.stop
  | [], start, ls, h, e, he => by
      rw [placedAllAt_nil, Element.nodesAll_nil] at he
      exact absurd he List.not_mem_nil
  | t :: ts, start, ls, h, e, he => by
      rw [leavesAll_cons, List.append_assoc] at h
      rw [placedAllAt_cons, Element.nodesAll_cons, stop_placedAt] at he
      rcases List.mem_append.mp he with he | he
      · exact isBoundary_of_mem_nodes_placedAt t h e he
      · exact isBoundary_of_mem_nodesAll_placedAllAt ts h.append e he

end

end SyntaxTree

/-! ## Nodes with no node inside -/

/-- **Nodes that have no node inside stand one behind the other**, at whatever depth they are. -/
theorem Element.pairwise_nodes {P : Element → Prop} {r : Element}
    (hpairwise : ∀ n ∈ r.nodes, n.children.Pairwise fun c d => c.stop ≤ d.start)
    (hnested : r.IsNested) (hflat : ∀ n ∈ r.nodes, P n → nodesAll n.children = []) :
    r.nodes.Pairwise fun m n => P m → P n → m.stop ≤ n.start := by
  cases hr : r.isNode with
  | false =>
    rw [nodes_eq_nil hr]
    exact .nil
  | true =>
    have hself := self_mem_nodes hr
    rw [nodes_eq_cons hr, List.pairwise_cons]
    refine ⟨fun n hn hP => ?_, ?_⟩
    · rw [hflat r hself hP] at hn
      exact absurd hn List.not_mem_nil
    · rw [nodesAll_eq_flatMap, List.pairwise_flatMap]
      refine ⟨fun c hc => ?_, (hpairwise r hself).imp_of_mem fun hc hd hcd m hm n hn _ _ => ?_⟩
      · have := sizeOf_lt_of_mem_children hc
        have below : ∀ {n}, n ∈ c.nodes → n ∈ r.nodes := fun hn =>
          mem_nodes_of_mem_children (mem_nodesAll hc hn)
        exact pairwise_nodes (fun n hn => hpairwise n (below hn)) (hnested.of_mem_children hc)
          fun n hn => hflat n (below hn)
      · have hm' := contains_range_iff.mp ((hnested.of_mem_children hc).contains hm)
        have hn' := contains_range_iff.mp ((hnested.of_mem_children hd).contains hn)
        omega
termination_by sizeOf r

/-- There is no node inside a literal. -/
theorem Element.Stands.nodesAll_eq_nil {os : List Outline} {ws : List Lexeme} {e : Element}
    (h : e.Stands Grammar.Made all literal os ws) : nodesAll e.children = [] := by
  obtain ⟨holds, -, row, -⟩ := h
  obtain ⟨l, rfl⟩ : ∃ l, os = [.word l] := by
    cases holds
    exact ⟨_, rfl⟩
  refine nodesAll_of_words fun c hc => Bool.eq_false_iff.mpr fun hn => ?_
  obtain ⟨before, kind, ps, after, -, -, -, hsplit, -⟩ := row.exists_of_mem hc hn
  have hmem : Outline.node kind ps ∈ [Outline.word l] := hsplit ▸ by simp
  exact absurd hmem (by simp)

/-! ## The errors of a parse -/

namespace Parse

/-- **Errors are where they belong**, in a parse of a text from some calls. -/
structure LocatesErrors (text : String) (cs : List Call) (p : Parse) : Prop where
  /-- The errors of the grammar come in the order of the text. -/
  ordered : p.errors.Pairwise fun e f => e.location.start ≤ f.location.start
  /-- They are what the grammar complained about, each behind the words that were read before it. -/
  noted : List.Forall₂ (NotedAt (tokenize text) p.root.nodes) (Call.noted 0 cs) p.errors
  /-- Where a word was skipped there is one. -/
  skipped : ∀ e ∈ p.root.nodes, e.kind = .error → ∃ c, ⟨c, .offset e.start⟩ ∈ p.errors
  /-- The errors of literals are about ranges… -/
  ranges : ∀ e ∈ literalErrors p.root, ∃ r : TextRange, e.location = .range r ∧ r.start < r.stop
  /-- …that stand one behind the other. -/
  apart : (literalErrors p.root).Pairwise fun e f => e.location.stop ≤ f.location.start
  /-- All errors begin and end between lexemes of the text. -/
  bounded : ∀ e ∈ p.validated.errors, Lexeme.IsBoundary (tokenize text) e.location.start ∧
    Lexeme.IsBoundary (tokenize text) e.location.stop ∧ e.location.stop ≤ text.utf8ByteSize

variable {os : List Outline} {ls : List Lexeme} {e : Element} {x : SyntaxError}

/-- The nodes below the root are those of what was planted. -/
theorem nodesAll_children_root (os : List Outline) (ls : List Lexeme) :
    nodesAll (ofOutlines os ls).root.children =
      nodesAll (placedAllAt 0 (Outline.plantAll os 0 ls).trees) := by
  obtain ⟨place, hchildren⟩ := children_root os ls
  rw [hchildren, Element.nodesAll_append, SyntaxTree.nodesAll_placedAllAt_map_leaf, List.append_nil]

theorem mem_nodesAll_of_ne_sourceFile (hreads : Grammar.ReadsFile (significant ls) os)
    (he : e ∈ (ofOutlines os ls).root.nodes) (hkind : e.kind ≠ .sourceFile) :
    e ∈ nodesAll (ofOutlines os ls).root.children := by
  rw [nodes_root] at he
  refine (List.mem_cons.mp he).resolve_left ?_
  rintro rfl
  exact hkind (isRoot_ofOutlines hreads.wordsAll_eq.symm).kind_eq

/-- **The grammar complains at anchored places.** -/
theorem noted_ofOutlines (hreads : Grammar.ReadsFile (significant ls) os) :
    List.Forall₂ (NotedAt ls (ofOutlines os ls).root.nodes)
      (Call.noted 0 (Outline.node .sourceFile os).calls) (Outline.plantAll os 0 ls).errors := by
  have hbegin : ∀ o ∈ os.head?, o.isError = true → Lexeme.EndInWord [] := by
    intro o ho he
    cases hreads.between o (List.mem_of_head? ho) <;> exact absurd he Bool.false_ne_true
  have hnodes : nodesAll (placedAllAt 0 (Outline.plantAll os 0 ls).trees) ⊆
      (ofOutlines os ls).root.nodes := by
    rw [nodes_root, nodesAll_children_root]
    exact List.subset_cons_self ..
  rw [Outline.noted_calls_node]
  exact Outline.noted_plantAll os (List.nil_append ls)
    (by rw [List.append_nil, hreads.wordsAll_eq]) hreads.every hbegin hnodes

theorem exists_error_ofOutlines (hreads : Grammar.ReadsFile (significant ls) os)
    (he : e ∈ (ofOutlines os ls).root.nodes) (hkind : e.kind = .error) :
    ∃ c, ⟨c, .offset e.start⟩ ∈ (Outline.plantAll os 0 ls).errors := by
  have hbelow := mem_nodesAll_of_ne_sourceFile hreads he (by simp [hkind])
  rw [nodesAll_children_root] at hbelow
  exact Outline.exists_error_plantAll os (by rw [List.append_nil, hreads.wordsAll_eq])
    hreads.every e hbelow hkind

theorem kind_of_isNone_intValue?
    (h : (e.kind == literal && e.isInteger && e.intValue?.isNone) = true) : e.kind = literal := by
  simp only [Bool.and_eq_true, beq_iff_eq] at h
  exact h.1.1

/-- **Literals stand one behind the other.** -/
theorem pairwise_literals (hreads : Grammar.ReadsFile (significant ls) os)
    (hpos : ∀ l ∈ ls, 0 < l.length) : (ofOutlines os ls).root.nodes.Pairwise fun m n =>
      m.kind = literal → n.kind = literal → m.stop ≤ n.start := by
  have hroot := isRoot_ofOutlines hreads.wordsAll_eq.symm
  have discernible := isDiscernible_root hreads hpos
  have hflat : ∀ n ∈ (ofOutlines os ls).root.nodes, n.kind = literal →
      nodesAll n.children = [] := by
    intro n hn hkind
    have hbelow := mem_nodesAll_of_ne_sourceFile hreads hn (by simp [hkind])
    obtain ⟨kind, ps, vs, hstands⟩ := hroot.stands_of_mem_nodesAll hreads.every hbelow
    obtain rfl : kind = literal := hstands.kind_eq.symm.trans hkind
    exact hstands.nodesAll_eq_nil
  exact Element.pairwise_nodes discernible.pairwise discernible.nested hflat

/-- So do those that are too large. -/
theorem pairwise_literalErrors (hreads : Grammar.ReadsFile (significant ls) os)
    (hpos : ∀ l ∈ ls, 0 < l.length) :
    (literalErrors (ofOutlines os ls).root).Pairwise fun e f =>
      e.location.stop ≤ f.location.start := by
  rw [literalErrors, List.pairwise_map, List.pairwise_filter]
  exact (pairwise_literals hreads hpos).imp fun h hm hn =>
    h (kind_of_isNone_intValue? hm) (kind_of_isNone_intValue? hn)

/-- An error of a literal is about the whole node, which is not the root. -/
theorem exists_of_mem_literalErrors (hreads : Grammar.ReadsFile (significant ls) os)
    (hx : x ∈ literalErrors (ofOutlines os ls).root) :
    ∃ n ∈ nodesAll (ofOutlines os ls).root.children, x.location = .range n.range := by
  obtain ⟨n, hn, rfl⟩ := List.mem_map.mp hx
  obtain ⟨hn, hlarge⟩ := List.mem_filter.mp hn
  have hkind := kind_of_isNone_intValue? hlarge
  exact ⟨n, mem_nodesAll_of_ne_sourceFile hreads hn (by simp [hkind]), rfl⟩

theorem isBoundary_of_mem_nodes (hreads : Grammar.ReadsFile (significant ls) os)
    (he : e ∈ (ofOutlines os ls).root.nodes) :
    Lexeme.IsBoundary ls e.start ∧ Lexeme.IsBoundary ls e.stop := by
  have hstands : Lexeme.StandsAt ls 0 ((Outline.planted os ls).leaves ++ []) := by
    rw [Outline.leaves_planted hreads.wordsAll_eq.symm, List.append_nil]
    exact Lexeme.StandsAt.zero ls
  exact SyntaxTree.isBoundary_of_mem_nodes_placedAt _ hstands e he

/-- All errors begin and end between lexemes. -/
theorem isBoundary_of_mem_errors (hreads : Grammar.ReadsFile (significant ls) os)
    (he : x ∈ (ofOutlines os ls).errors) :
    Lexeme.IsBoundary ls x.location.start ∧ Lexeme.IsBoundary ls x.location.stop := by
  rcases List.mem_append.mp he with he | he
  · have noted := (noted_ofOutlines hreads).flip.imp fun _ _ h => And.intro (NotedAt.isBoundary h) h
    exact ((List.forall₂_and_left ..).mp noted).1 x he
  · obtain ⟨n, hn, hlocation⟩ := exists_of_mem_literalErrors hreads he
    rw [hlocation]
    exact isBoundary_of_mem_nodes hreads (Element.mem_nodes_of_mem_children hn)

/-- **Errors are where they belong.**  What the grammar complains about is noted in the order of the text,
each time right behind the word that was read last or at the start of a node over a skipped word, and
for each such node there is an error; then come the literals that are too large, one behind the other. -/
theorem locatesErrors (text : String) : ∃ log p, record (tokenize text) = .ok log ∧
    build (tokenize text) log = .ok p ∧
    ofText text = .ok { p with errors := p.errors ++ literalErrors p.root } ∧
    LocatesErrors text (Event.replay log).calls.toList p := by
  obtain ⟨os, log, hreads, hrecord, -, hreplay⟩ := record_eq (tokenize text)
  have hpos : ∀ l ∈ tokenize text, 0 < l.length := fun _ => Lexeme.length_pos_of_mem_tokenize
  refine ⟨log, _, hrecord, build_eq hreads hreplay, ofText_of_replay hreads hrecord hreplay, ?_⟩
  rw [hreplay]
  refine ⟨(Outline.inOrder_plantAll os 0 _).pairwise, noted_ofOutlines hreads,
    fun e he hkind => exists_error_ofOutlines hreads he hkind, ?_, pairwise_literalErrors hreads hpos,
    ?_⟩
  · intro x hx
    obtain ⟨n, hn, hlocation⟩ := exists_of_mem_literalErrors hreads hx
    exact ⟨n.range, hlocation, start_lt_stop hreads hpos hn⟩
  · intro x hx
    obtain ⟨hstart, hstop⟩ := isBoundary_of_mem_errors hreads hx
    refine ⟨hstart, hstop, ?_⟩
    rw [← Lexeme.spell_tokenize text, ← Lexeme.extent_eq]
    exact hstop.le

end Parse

end LosslessSyntax
