import LosslessSyntax.Proofs.Tree.Below
import LosslessSyntax.Tree.Pointer
import Mathlib.Data.List.Nodup

/-!
# Proofs/Tree/Pointer — following pointers

A pointer leads back to the node it was taken from if the nodes of the tree can be told apart by kind and
range (`Element.IsDiscernible`).  Nodes side by side can be, since their ranges are apart and not empty;
so what matters is that a node never has the kind and the range of one inside it.
-/

namespace LosslessSyntax

namespace Element

/-- **The nodes of a tree can be told apart** by kind and range. -/
structure IsDiscernible (r : Element) : Prop where
  /-- The children of a node stand one behind the other. -/
  pairwise : ∀ n ∈ r.nodes, n.children.Pairwise fun c d => c.stop ≤ d.start
  nested : r.IsNested
  /-- A node below the root covers something. -/
  start_lt : ∀ n ∈ nodesAll r.children, n.start < n.stop
  /-- A node differs in kind or in range from the nodes inside it. -/
  ne : ∀ n ∈ r.nodes, ∀ m ∈ nodesAll n.children, SyntaxPointer.of m ≠ SyntaxPointer.of n

variable {r c d n : Element}

theorem IsDiscernible.of_mem_children (h : r.IsDiscernible) (hc : c ∈ r.children) :
    c.IsDiscernible := by
  have below : ∀ {n}, n ∈ c.nodes → n ∈ nodesAll r.children := mem_nodesAll hc
  refine ⟨?_, ?_, ?_, ?_⟩
  · intro n hn
    exact h.pairwise n (mem_nodes_of_mem_children (below hn))
  · exact h.nested.of_mem_children hc
  · intro n hn
    exact h.start_lt n (below (mem_nodes_of_mem_children hn))
  · intro n hn
    exact h.ne n (mem_nodes_of_mem_children (below hn))

/-- Of two children, the first does not cover a node in the second. -/
theorem IsDiscernible.not_contains (h : r.IsDiscernible) (hd : d ∈ r.children) (hn : n ∈ d.nodes)
    (hcd : c.stop ≤ d.start) : c.range.contains n.range = false := by
  have hlt := h.start_lt n (mem_nodesAll hd hn)
  have hcovers := (h.nested.of_mem_children hd).contains hn
  rw [← Bool.not_eq_true, contains_range_iff]
  rw [contains_range_iff] at hcovers
  omega

/-- Two children have no node in common. -/
theorem IsDiscernible.disjoint_nodes (h : r.IsDiscernible) (hc : c ∈ r.children)
    (hd : d ∈ r.children) (hne : c ≠ d) : List.Disjoint c.nodes d.nodes := by
  intro n hn hn'
  have hself := self_mem_nodes (isNode_of_mem_children hc)
  have hcovers := (h.nested.of_mem_children hc).contains hn
  have hcovers' := (h.nested.of_mem_children hd).contains hn'
  rcases isApart_of_pairwise (h.pairwise r hself) hc hd hne with hcd | hdc
  · exact Bool.false_ne_true ((h.not_contains hd hn' hcd).symm.trans hcovers)
  · exact Bool.false_ne_true ((h.not_contains hc hn hdc).symm.trans hcovers')

/-- **No two nodes have the same pointer.** -/
theorem IsDiscernible.nodup {r : Element} (h : r.IsDiscernible) :
    (r.nodes.map SyntaxPointer.of).Nodup := by
  cases hr : r.isNode with
  | false => simp [nodes_eq_nil hr]
  | true =>
    have hself := self_mem_nodes hr
    rw [nodes_eq_cons hr, List.map_cons, List.nodup_cons]
    constructor
    · intro hmem
      obtain ⟨m, hm, heq⟩ := List.mem_map.mp hmem
      exact h.ne r hself m hm heq
    · rw [nodesAll_eq_flatMap, List.map_flatMap, List.nodup_flatMap]
      refine ⟨fun c hc => ?_, (h.pairwise r hself).imp_of_mem ?_⟩
      · have := sizeOf_lt_of_mem_children hc
        exact (h.of_mem_children hc).nodup
      · intro c d hc hd hcd p hp hp'
        obtain ⟨m, hm, rfl⟩ := List.mem_map.mp hp
        obtain ⟨n, hn, heq⟩ := List.mem_map.mp hp'
        have hrange : n.range = m.range := congrArg SyntaxPointer.range heq
        have hcovers := (h.nested.of_mem_children hc).contains hm
        rw [← hrange, h.not_contains hd hn hcd] at hcovers
        exact Bool.false_ne_true hcovers
termination_by sizeOf r

end Element

/-! ## Following a pointer -/

namespace SyntaxPointer

open Element (mem_nodes)

variable {p : SyntaxPointer} {r n : Element}

/-- A pointer is followed into the first element that covers its range. -/
theorem resolveAmong?_eq (p : SyntaxPointer) (es : List Element) :
    p.resolveAmong? es = (es.find? (·.range.contains p.range)).bind p.resolve? := by
  induction es with
  | nil => rw [resolveAmong?, List.find?_nil, Option.bind_none]
  | cons e es ih =>
    rw [resolveAmong?, List.find?_cons]
    split
    · next h => rw [h, Option.bind_some]
    · next h => rw [Bool.eq_false_iff.mpr h, ih]

theorem resolve?_of_pointsTo (h : p.pointsTo r = true) : p.resolve? r = some r := by
  cases r with
  | word => exact absurd h (by simp [pointsTo])
  | node => rw [resolve?, if_pos h]

theorem resolve?_of_not_pointsTo (h : p.pointsTo r = false) :
    p.resolve? r = p.resolveAmong? r.children := by
  cases r with
  | word => rw [resolve?, Element.children, resolveAmong?]
  | node => rw [resolve?, if_neg (by simp [h]), Element.children]

/-- **The pointer to a node leads back to the node.** -/
theorem resolve?_of {r : Element} (h : r.IsDiscernible) {n : Element} (hn : n ∈ r.nodes) :
    (of n).resolve? r = some n := by
  rcases mem_nodes.mp hn with ⟨hnode, rfl⟩ | ⟨c, hc, hn'⟩
  · exact resolve?_of_pointsTo (pointsTo_of hnode)
  · have hself := Element.self_mem_nodes (Element.isNode_of_mem_children hc)
    have hne : (of n).pointsTo r = false := by
      have hne := h.ne r hself n (Element.mem_nodesAll hc hn')
      simpa [pointsTo] using fun _ => hne.symm
    obtain ⟨before, after, hsplit⟩ := List.append_of_mem hc
    -- a child before `c` ends before `c` begins, so it does not cover what is in `c`
    have hbefore : ∀ d ∈ before, ¬d.range.contains (of n).range = true := by
      intro d hd
      have hpair := h.pairwise r hself
      rw [hsplit, List.pairwise_append] at hpair
      exact Bool.eq_false_iff.mp (h.not_contains hc hn' (hpair.2.2 d hd c List.mem_cons_self))
    have hcovers := (h.nested.of_mem_children hc).contains hn'
    have hfind : r.children.find? (·.range.contains (of n).range) = some c := by
      rw [hsplit, List.find?_append, List.find?_eq_none.mpr hbefore, Option.none_or,
        List.find?_cons_of_pos (by exact hcovers)]
    have := Element.sizeOf_lt_of_mem_children hc
    rw [resolve?_of_not_pointsTo hne, resolveAmong?_eq, hfind, Option.bind_some]
    exact resolve?_of (h.of_mem_children hc) hn'
termination_by sizeOf r

/-- **Whatever construct a node is, following its pointer finds it.** -/
theorem toNode_of (h : r.IsDiscernible) (hn : n ∈ r.nodes) {v : View} (hv : v.accepts n.kind = true) :
    (of n).toNode v r = .ok n := by
  rw [toNode, resolve?_of h hn]
  exact if_pos hv

end SyntaxPointer

end LosslessSyntax
