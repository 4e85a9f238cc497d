import LosslessSyntax.Tree.Element
import Mathlib.Data.List.Pairwise

/-!
# Proofs/Tree/Below — what is below an element

The words and the nodes of some elements are those of the one, then those of the next.  A node comes
before what is inside it.
-/

namespace LosslessSyntax.Element

variable {e c d n : Element} {es : List Element}

theorem lexemesAll_eq_flatMap (es : List Element) : lexemesAll es = es.flatMap lexemes := by
  induction es with
  | nil => simp
  | cons e es ih => simp [ih]

theorem nodesAll_eq_flatMap (es : List Element) : nodesAll es = es.flatMap nodes := by
  induction es with
  | nil => simp
  | cons e es ih => rw [nodesAll_cons, ih, List.flatMap_cons]

theorem nodesAll_append (es fs : List Element) : nodesAll (es ++ fs) = nodesAll es ++ nodesAll fs := by
  simp only [nodesAll_eq_flatMap, List.flatMap_append]

theorem mem_nodesAll_iff : n ∈ nodesAll es ↔ ∃ c ∈ es, n ∈ c.nodes := by
  rw [nodesAll_eq_flatMap, List.mem_flatMap]

theorem mem_nodesAll (hc : c ∈ es) (hn : n ∈ c.nodes) : n ∈ nodesAll es :=
  mem_nodesAll_iff.mpr ⟨c, hc, hn⟩

theorem mem_nodes_of_mem_children (h : n ∈ nodesAll e.children) : n ∈ e.nodes := by
  cases e with
  | word => exact absurd h (by simp [children])
  | node => exact nodes_node .. ▸ List.mem_cons_of_mem _ h

theorem nodes_eq_cons (hn : e.isNode = true) : e.nodes = e :: nodesAll e.children := by
  cases e with
  | word => exact absurd hn (by simp)
  | node => exact nodes_node ..

/-- The nodes of an element are the element itself and the nodes of its children. -/
theorem mem_nodes : n ∈ e.nodes ↔ e.isNode = true ∧ n = e ∨ ∃ c ∈ e.children, n ∈ c.nodes := by
  cases e with
  | word => simp [children]
  | node => simp [nodesAll_eq_flatMap, children]

theorem isNode_of_mem_children (h : c ∈ e.children) : e.isNode = true := by
  cases e with
  | word => exact absurd h (by simp [children])
  | node => rfl

theorem self_mem_nodes (hn : e.isNode = true) : e ∈ e.nodes := mem_nodes.mpr (.inl ⟨hn, rfl⟩)

theorem nodes_eq_nil (hn : e.isNode = false) : e.nodes = [] := by
  cases e with
  | word => exact nodes_word ..
  | node => exact absurd hn (by simp)

theorem isNode_of_nodes_ne_nil (h : e.nodes ≠ []) : e.isNode = true := by
  by_contra hn
  exact h (nodes_eq_nil (Bool.eq_false_iff.mpr hn))

theorem isNode_of_mem_nodes {e n : Element} (h : n ∈ e.nodes) : n.isNode = true := by
  rcases mem_nodes.mp h with ⟨hn, rfl⟩ | ⟨c, hc, hn⟩
  · exact hn
  · have := sizeOf_lt_of_mem_children hc
    exact isNode_of_mem_nodes hn
termination_by sizeOf e

/-- There are no nodes among words. -/
theorem nodesAll_of_words (h : ∀ c ∈ es, c.isNode = false) : nodesAll es = [] := by
  rw [nodesAll_eq_flatMap]
  exact List.flatMap_eq_nil_iff.mpr fun c hc => nodes_eq_nil (h c hc)

/-- An element covers another if it begins no later and ends no earlier. -/
theorem contains_range_iff :
    e.range.contains n.range = true ↔ e.start ≤ n.start ∧ n.stop ≤ e.stop :=
  decide_eq_true_iff

/-! ## Ranges -/

/-- Of two elements, one stands behind the other. -/
def IsApart (c d : Element) : Prop := c.stop ≤ d.start ∨ d.stop ≤ c.start

instance : Std.Symm IsApart := ⟨fun _ _ => Or.symm⟩

/-- Elements that stand in a row are apart. -/
theorem isApart_of_pairwise (h : es.Pairwise fun c d => c.stop ≤ d.start) (hc : c ∈ es) (hd : d ∈ es)
    (hne : c ≠ d) : c.IsApart d :=
  (h.imp (S := IsApart) Or.inl).forall hc hd hne

/-- **The nodes of an element cover their children.** -/
def IsNested (e : Element) : Prop := ∀ n ∈ e.nodes, ∀ c ∈ n.children, n.range.contains c.range = true

theorem IsNested.of_mem_children (h : e.IsNested) (hc : c ∈ e.children) : c.IsNested := by
  intro n hn
  exact h n (mem_nodes_of_mem_children (mem_nodesAll hc hn))

/-- An element covers the nodes in it. -/
theorem IsNested.contains {e n : Element} (h : e.IsNested) (hn : n ∈ e.nodes) :
    e.range.contains n.range = true := by
  rcases mem_nodes.mp hn with ⟨-, rfl⟩ | ⟨c, hc, hn'⟩
  · exact TextRange.contains_refl _
  · have := sizeOf_lt_of_mem_children hc
    have hself := self_mem_nodes (isNode_of_mem_children hc)
    exact TextRange.contains_trans (h e hself c hc) ((h.of_mem_children hc).contains hn')
termination_by sizeOf e

end LosslessSyntax.Element
