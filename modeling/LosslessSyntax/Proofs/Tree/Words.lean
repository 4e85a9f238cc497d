import LosslessSyntax.Proofs.Tree.Parts
import Mathlib.Data.List.Nodup

/-!
# Proofs/Tree/Words — words in their places

The words of an element, each in its place, are the lexemes it covers laid out one behind the other; no
two of them are the same.  So words tell which nodes they are in, and of the nodes that hold two of
them one is the innermost.  It is the one that white space and comments between the two belong to
(`PlacesTrivia`), and that comes from nothing but this: there is none at the ends of a node.
-/

namespace LosslessSyntax

namespace Element

/-! ## The words of an element -/

mutual

/-- The words of an element in their places, from left to right. -/
def words : Element → List Element
  | word k s t => [word k s t]
  | node _ _ _ es => wordsAll es

/-- The words of elements in their places, from left to right. -/
def wordsAll : List Element → List Element
  | [] => []
  | e :: es => e.words ++ wordsAll es

end

@[simp] theorem words_word (k : SyntaxKind) (s : Nat) (t : String) :
    (word k s t).words = [word k s t] := by rw [words]

@[simp] theorem words_node (k : SyntaxKind) (s t : Nat) (es : List Element) :
    (node k s t es).words = wordsAll es := by rw [words]

@[simp] theorem wordsAll_nil : wordsAll [] = [] := by rw [wordsAll]

@[simp] theorem wordsAll_cons (e : Element) (es : List Element) :
    wordsAll (e :: es) = e.words ++ wordsAll es := by rw [wordsAll]

theorem wordsAll_eq_flatMap (es : List Element) : wordsAll es = es.flatMap words := by
  induction es with
  | nil => simp
  | cons e es ih => simp [ih]

/-- The lexeme that stands in the place of a word. -/
def lexeme (w : Element) : Lexeme := ⟨w.kind, w.text⟩

@[simp] theorem lexeme_word (k : SyntaxKind) (s : Nat) (t : String) :
    (word k s t).lexeme = ⟨k, t⟩ := by
  simp [lexeme, kind, text]

mutual

/-- The words of an element are its lexemes. -/
theorem map_lexeme_words : ∀ e : Element, e.words.map lexeme = e.lexemes
  | word .. => by simp
  | node _ _ _ es => by rw [words_node, lexemes_node, map_lexeme_wordsAll es]

theorem map_lexeme_wordsAll : ∀ es : List Element, (wordsAll es).map lexeme = lexemesAll es
  | [] => by simp
  | e :: es => by
      rw [wordsAll_cons, List.map_append, map_lexeme_words e, map_lexeme_wordsAll es, lexemesAll_cons]

end

variable {r e c d n w a b : Element} {es fs before after : List Element}

/-- The words of an element are the element itself or the words of its children. -/
theorem mem_words : w ∈ e.words ↔ e.isNode = false ∧ w = e ∨ ∃ c ∈ e.children, w ∈ c.words := by
  rcases e with _ | _
  · simp [children]
  · simp [wordsAll_eq_flatMap, children]

theorem isNode_of_mem_words {e w : Element} (h : w ∈ e.words) : w.isNode = false := by
  rcases mem_words.mp h with ⟨hn, rfl⟩ | ⟨c, hc, hw⟩
  · exact hn
  · have := sizeOf_lt_of_mem_children hc
    exact isNode_of_mem_words hw
termination_by sizeOf e

/-- Whether a word is trivia is a matter of its lexeme. -/
theorem isTrivia_lexeme (hn : w.isNode = false) : w.lexeme.isTrivia = w.isTrivia := by
  rcases w with ⟨k, s, t⟩ | _
  · rw [lexeme_word]
    rfl
  · exact absurd hn (by simp)

/-- The words of a node inside an element are words of the element. -/
theorem words_of_mem_nodes {e n : Element} (hn : n ∈ e.nodes) (hw : w ∈ n.words) : w ∈ e.words := by
  rcases mem_nodes.mp hn with ⟨-, rfl⟩ | ⟨c, hc, hn'⟩
  · exact hw
  · have := sizeOf_lt_of_mem_children hc
    exact mem_words.mpr (.inr ⟨c, hc, words_of_mem_nodes hn' hw⟩)
termination_by sizeOf e

/-- A word that occurs once is in one of the elements only. -/
theorem eq_of_mem_words (nodup : (wordsAll es).Nodup) (hc : c ∈ es) (hd : d ∈ es)
    (hwc : w ∈ c.words) (hwd : w ∈ d.words) : c = d := by
  by_contra hne
  rw [wordsAll_eq_flatMap, List.nodup_flatMap] at nodup
  have : Std.Symm (Function.onFun List.Disjoint words) := ⟨fun _ _ => List.disjoint_symm⟩
  exact nodup.2.forall hc hd hne hwc hwd

/-- A word among others stands in one of the elements, behind the words in front of it. -/
theorem exists_of_wordsAll_eq (h : wordsAll es = before ++ w :: after) :
    ∃ front c back bs cs, es = front ++ c :: back ∧ c.words = bs ++ w :: cs ∧
      before = wordsAll front ++ bs ∧ after = cs ++ wordsAll back := by
  induction es generalizing before with
  | nil => exact absurd h (by simp)
  | cons e es ih =>
    rw [wordsAll_cons] at h
    rcases List.append_eq_append_iff.mp h with ⟨bs, rfl, hbs⟩ | ⟨cs, hcs, hcs'⟩
    · obtain ⟨front, c, back, bs, cs, rfl, hc, rfl, rfl⟩ := ih hbs
      exact ⟨e :: front, c, back, bs, cs, rfl, hc, by simp, rfl⟩
    · rcases cs with _ | ⟨x, cs⟩
      · have hrest : wordsAll es = [] ++ w :: after := hcs'.symm
        obtain ⟨front, c, back, bs, cs, rfl, hc, hbs, rfl⟩ := ih hrest
        refine ⟨e :: front, c, back, bs, cs, rfl, hc, ?_, rfl⟩
        rw [wordsAll_cons, List.append_assoc, ← hbs, hcs, List.append_nil, List.append_nil]
      · obtain ⟨rfl, rfl⟩ := List.cons.inj hcs'
        exact ⟨[], e, es, before, cs, rfl, hcs, by simp, rfl⟩

/-! ## Innermost nodes -/

/-- **A node is the innermost** of those in an element with a property: it is inside each of them. -/
structure IsInnermost (r : Element) (P : Element → Prop) (n : Element) : Prop where
  mem : n ∈ r.nodes
  holds : P n
  inside : ∀ m ∈ r.nodes, P m → n ∈ m.nodes

/-- Two words are in an element. -/
def Holds (a b e : Element) : Prop := a ∈ e.words ∧ b ∈ e.words

theorem Holds.of_mem_nodes (hn : n ∈ r.nodes) (h : Holds a b n) : Holds a b r :=
  ⟨words_of_mem_nodes hn h.1, words_of_mem_nodes hn h.2⟩

/-- If two words stand in different children of a node, no node inside it holds both. -/
theorem isInnermost_self (nodup : (wordsAll (es ++ fs)).Nodup) (ha : a ∈ wordsAll es)
    (hb : b ∈ wordsAll fs) {k : SyntaxKind} {s t : Nat} :
    (node k s t (es ++ fs)).IsInnermost (Holds a b) (node k s t (es ++ fs)) := by
  have hself := self_mem_nodes (isNode_node k s t (es ++ fs))
  rw [wordsAll_eq_flatMap, List.flatMap_append, ← wordsAll_eq_flatMap, ← wordsAll_eq_flatMap] at nodup
  have apart := (List.nodup_append'.mp nodup).2.2
  refine ⟨hself, ?_, ?_⟩
  · rw [Holds, words_node, wordsAll_eq_flatMap, List.flatMap_append, ← wordsAll_eq_flatMap,
      ← wordsAll_eq_flatMap]
    exact ⟨List.mem_append_left _ ha, List.mem_append_right _ hb⟩
  · intro m hm hholds
    rcases mem_nodes.mp hm with ⟨-, rfl⟩ | ⟨c, hc, hm⟩
    · exact hself
    · -- the child would have to be among those that hold `a` and among those that hold `b`
      obtain ⟨hca, hcb⟩ := hholds.of_mem_nodes hm
      rcases List.mem_append.mp hc with hc | hc
      · have : b ∈ wordsAll es := wordsAll_eq_flatMap es ▸ List.mem_flatMap.mpr ⟨c, hc, hcb⟩
        exact absurd hb (apart this)
      · have : a ∈ wordsAll fs := wordsAll_eq_flatMap fs ▸ List.mem_flatMap.mpr ⟨c, hc, hca⟩
        exact absurd this (apart ha)

/-- A node that is innermost in a child is innermost around it, too. -/
theorem IsInnermost.of_mem_children (h : c.IsInnermost (Holds a b) n) (hc : c ∈ r.children)
    (nodup : r.words.Nodup) : r.IsInnermost (Holds a b) n := by
  rcases r with _ | ⟨k, s, t, es⟩
  · exact absurd hc (by simp [children])
  · rw [words_node] at nodup
    have hn : n ∈ (node k s t es).nodes := mem_nodes.mpr (.inr ⟨c, hc, h.mem⟩)
    refine ⟨hn, h.holds, ?_⟩
    intro m hm hholds
    rcases mem_nodes.mp hm with ⟨-, rfl⟩ | ⟨d, hd, hm⟩
    · exact hn
    · -- there is one child only with the word `a` in it
      obtain rfl := eq_of_mem_words nodup hc hd (h.holds.of_mem_nodes h.mem).1
        (hholds.of_mem_nodes hm).1
      exact h.inside m hm hholds

/-! ## Trivia -/

/-- The first of some elements that is not trivia. -/
def solid? (es : List Element) : Option Element := es.find? fun e => !e.isTrivia

theorem solid?_append_of_eq_some (h : solid? es = some a) : solid? (es ++ fs) = some a := by
  rw [solid?] at h
  rw [solid?, List.find?_append, h, Option.some_or]

theorem mem_of_solid? (h : solid? es = some a) : a ∈ es := List.mem_of_find?_eq_some h

theorem exists_solid? (hw : w ∈ es) (ht : w.isTrivia = false) : ∃ a, solid? es = some a :=
  Option.isSome_iff_exists.mp (List.find?_isSome.mpr ⟨w, hw, by simp [ht]⟩)

/-- **Trivia is in its place** in a tree: it is a child of the innermost node that holds the nearest word
before it and the nearest word behind it that are not trivia, and a child of the root if there is no such
word before it or behind it. -/
def PlacesTrivia (r : Element) : Prop :=
  ∀ before w after, r.words = before ++ w :: after → w.isTrivia = true →
    match solid? before.reverse, solid? after with
    | some a, some b => ∃ n, r.IsInnermost (Holds a b) n ∧ w ∈ n.children
    | _, _ => w ∈ r.children

/-- In front of trivia inside trimmed words, and behind it, there is something else. -/
theorem exists_solid?_of_isTrimmed (h : Lexeme.IsTrimmed c.lexemes) (hc : c.words = before ++ w :: after)
    (hw : w.isTrivia = true) :
    (∃ a, solid? before.reverse = some a) ∧ ∃ b, solid? after = some b := by
  have hwords : ∀ x ∈ c.words, x.lexeme.isTrivia = x.isTrivia := fun x hx =>
    isTrivia_lexeme (isNode_of_mem_words hx)
  obtain ⟨⟨l, hl, hfirst⟩, m, hm, hlast⟩ := h
  rw [← map_lexeme_words, List.head?_map] at hl
  rw [← map_lexeme_words, List.getLast?_map] at hm
  obtain ⟨x, hx, rfl⟩ := Option.map_eq_some_iff.mp hl
  obtain ⟨y, hy, rfl⟩ := Option.map_eq_some_iff.mp hm
  rw [hwords x (List.mem_of_mem_head? hx)] at hfirst
  rw [hwords y (List.mem_of_getLast? hy)] at hlast
  constructor
  · rcases before with _ | ⟨z, before⟩
    · rw [hc, List.nil_append, List.head?_cons] at hx
      obtain rfl := Option.some.inj hx
      exact absurd (hfirst.symm.trans hw) Bool.false_ne_true
    · rw [hc, List.cons_append, List.head?_cons] at hx
      obtain rfl := Option.some.inj hx
      exact exists_solid? (List.mem_reverse.mpr List.mem_cons_self) hfirst
  · rcases List.eq_nil_or_concat' after with rfl | ⟨after, z, rfl⟩
    · rw [hc, List.getLast?_concat] at hy
      obtain rfl := Option.some.inj hy
      exact absurd (hlast.symm.trans hw) Bool.false_ne_true
    · rw [hc, ← List.cons_append, ← List.append_assoc, List.getLast?_concat] at hy
      obtain rfl := Option.some.inj hy
      exact exists_solid? (by simp) hlast

/-- Trivia is in its place in a node if it is in its place in the nodes right inside it, and none at
their ends. -/
theorem placesTrivia_node {k : SyntaxKind} {s t : Nat} (nodup : (wordsAll es).Nodup)
    (h : ∀ c ∈ es, c.isNode = true → Lexeme.IsTrimmed c.lexemes ∧ c.PlacesTrivia) :
    (node k s t es).PlacesTrivia := by
  intro before w after hwords hw
  rw [words_node] at hwords
  obtain ⟨front, c, back, bs, cs, rfl, hc, rfl, rfl⟩ := exists_of_wordsAll_eq hwords
  have hmem : c ∈ front ++ c :: back := List.mem_append_right _ List.mem_cons_self
  by_cases hn : c.isNode = true
  · -- both neighbours are in the child, since it is trimmed
    obtain ⟨trimmed, places⟩ := h c hmem hn
    obtain ⟨⟨a, ha⟩, b, hb⟩ := exists_solid?_of_isTrimmed trimmed hc hw
    have inner := places bs w cs hc hw
    rw [ha, hb] at inner
    obtain ⟨n, hinner, hw⟩ := inner
    rw [List.reverse_append, solid?_append_of_eq_some ha, solid?_append_of_eq_some hb]
    exact ⟨n, hinner.of_mem_children hmem (words_node .. ▸ nodup), hw⟩
  · obtain ⟨rfl, rfl, rfl⟩ : bs = [] ∧ w = c ∧ cs = [] := by
      rcases c with _ | _
      · rw [words_word] at hc
        simpa [eq_comm] using List.singleton_eq_append_iff.mp hc
      · exact absurd rfl hn
    rw [List.append_nil, List.nil_append]
    split
    · next a b ha hb =>
      refine ⟨_, isInnermost_self nodup (List.mem_reverse.mp (mem_of_solid? ha)) ?_, hmem⟩
      rw [wordsAll_cons]
      exact List.mem_append_right _ (mem_of_solid? hb)
    · exact hmem

/-- **Trivia is in its place** where no word occurs twice and there is none at the ends of the nodes
below the root. -/
theorem placesTrivia : ∀ {r : Element}, r.isNode = true → r.words.Nodup →
    (∀ n ∈ nodesAll r.children, Lexeme.IsTrimmed n.lexemes) → r.PlacesTrivia
  | word .., hr, _, _ => absurd hr (by simp)
  | node k s t es, _, nodup, trimmed => by
      rw [words_node] at nodup
      refine placesTrivia_node nodup ?_
      intro c hc hn
      have : sizeOf c < sizeOf (node k s t es) := sizeOf_lt_of_mem_children hc
      have below : ∀ {n}, n ∈ c.nodes → n ∈ nodesAll es := mem_nodesAll hc
      have nodup' : c.words.Nodup := by
        rw [wordsAll_eq_flatMap, List.nodup_flatMap] at nodup
        exact nodup.1 c hc
      refine ⟨trimmed c (below (self_mem_nodes hn)), placesTrivia hn nodup' ?_⟩
      intro n hn'
      exact trimmed n (below (mem_nodes_of_mem_children hn'))
termination_by r => sizeOf r

end Element

/-! ## Trees that are laid out -/

namespace SyntaxTree

mutual

/-- **The words of a tree that is laid out** are its leaves, laid out one behind the other. -/
theorem words_placedAt : ∀ (t : SyntaxTree) (start : Nat),
    (t.placedAt start).words = placedAllAt start (t.leaves.map leaf)
  | leaf l, start => by simp [placedAt_leaf]
  | node kind ts, start => by
      rw [placedAt_node, Element.words_node, leaves_node, wordsAll_placedAllAt ts]

theorem wordsAll_placedAllAt : ∀ (ts : List SyntaxTree) (start : Nat),
    Element.wordsAll (placedAllAt start ts) = placedAllAt start ((leavesAll ts).map leaf)
  | [], start => by simp
  | t :: ts, start => by
      rw [placedAllAt_cons, Element.wordsAll_cons, words_placedAt t, wordsAll_placedAllAt ts,
        leavesAll_cons, List.map_append, placedAllAt_append, leavesAll_map_leaf, stop_placedAt]

end

/-- No two words of a tree that is laid out are the same, if none is empty. -/
theorem nodup_words_placedAt {t : SyntaxTree} (start : Nat) (h : ∀ l ∈ t.leaves, 0 < l.length) :
    (t.placedAt start).words.Nodup := by
  rw [words_placedAt]
  refine (pairwise_placedAllAt (t.leaves.map leaf) start).imp_of_mem ?_
  intro c d hc hd hcd
  obtain ⟨u, hu, place, rfl⟩ := exists_of_mem_placedAllAt hc
  obtain ⟨l, hl, rfl⟩ := List.mem_map.mp hu
  have := h l hl
  rintro rfl
  rw [start_placedAt, stop_placedAt, leaves_leaf, Lexeme.extent_cons] at hcd
  omega

end SyntaxTree

end LosslessSyntax
