import LosslessSyntax.Proofs.Body.Forest

/-!
# Proofs/Body/PostOrder — the order in which expressions are read

Expressions are numbered as one reads from left to right, operands before what is made of them.  So of two
nodes that expressions were read off, the one with the smaller number ends before the other begins, or it
is inside the other (`SyntaxPointer.Precedes`).  Reading the elements of a row one after the other keeps
to this order (`Lowering.Visits.trans`), and so does a node that is read after everything inside it
(`Lowering.Visits.add`).
-/

namespace LosslessSyntax

open SyntaxKind

/-! ## Post-order -/

/-- **One node comes before another in post-order**: it ends where the other begins or before, or it is
inside the other and shorter. -/
def SyntaxPointer.Precedes (p q : SyntaxPointer) : Prop :=
  p.range.stop ≤ q.range.start ∨ (q.range.contains p.range = true ∧ p.range ≠ q.range)

/-- The nodes that expressions come from, as far as they come from any, are in post-order. -/
def SourceMap.InOrder (os : List (Option SyntaxPointer)) : Prop :=
  os.Pairwise fun o o' => ∀ p ∈ o, ∀ q ∈ o', p.Precedes q

/-! ## The parts of a node -/

namespace Element

variable {e c : Element}

/-- What is inside a node that has its shape is shorter than the node. -/
theorem IsTidy.contains_and_range_ne (h : e.IsTidy) (hnested : e.IsNested) (hk : e.kind ≠ sourceFile)
    (hc : c ∈ e.children) (hn : c.isNode = true) :
    e.range.contains c.range = true ∧ c.range ≠ e.range := by
  have hnode := isNode_of_mem_children hc
  obtain ⟨shaped, ordered⟩ := h.self hnode
  obtain ⟨w, hw, hword⟩ := shaped.exists_word hk
  exact ⟨hnested e (self_mem_nodes hnode) c hc,
    ordered.range_ne hnested hw hword (mem_nodesAll hc (self_mem_nodes hn))⟩

/-- The operands of a binary operation stand one behind the other. -/
theorem IsOrdered.stop_le_of_operands (h : e.IsOrdered) (shaped : e.IsShaped) (hk : e.kind = binExpr)
    {l r : Element} (hl : e.lhs? = some l) (hr : e.rhs? = some r) : l.stop ≤ r.start := by
  obtain ⟨hlhs, hrhs⟩ := h.operands_of_binExpr shaped hk
  have hpair : e.expressions.Pairwise fun c d => c.stop ≤ d.start :=
    h.pairwise.sublist (List.filter_sublist.trans List.filter_sublist)
  rw [hlhs] at hl
  rw [hrhs] at hr
  obtain ⟨hlt, rfl⟩ := List.getElem?_eq_some_iff.mp hl
  obtain ⟨hlt', rfl⟩ := List.getElem?_eq_some_iff.mp hr
  exact List.pairwise_iff_getElem.mp hpair 0 1 hlt hlt' Nat.zero_lt_one

end Element

/-! ## Reading in order -/

namespace Lowering

open SourceMap (InOrder)

/-- **Some elements have been read in order**: the expressions that have been added come from nodes in
them. -/
def Visits (s : Lowering) (es : List Element) (t : Lowering) : Prop :=
  ∃ os, t.map.origins.toList = s.map.origins.toList ++ os ∧
    (∀ p, some p ∈ os → ∃ e ∈ es, e.range.contains p.range = true) ∧ InOrder os

variable {s t u : Lowering} {es fs : List Element} {e : Element}

theorem visits_refl (s : Lowering) : s.Visits [] s :=
  ⟨[], (List.append_nil _).symm, by simp, .nil⟩

/-- Something absent comes from nowhere. -/
theorem visits_absent (s : Lowering) : s.Visits [] s.absent.2 := by
  refine ⟨[none], Array.toList_push, by simp, ?_⟩
  exact List.pairwise_singleton ..

/-- **Elements are read one after the other.** -/
theorem Visits.trans (h : s.Visits es t) (h' : t.Visits fs u)
    (hapart : ∀ c ∈ es, ∀ d ∈ fs, c.stop ≤ d.start) : s.Visits (es ++ fs) u := by
  obtain ⟨os, hos, hin, hpair⟩ := h
  obtain ⟨os', hos', hin', hpair'⟩ := h'
  refine ⟨os ++ os', by rw [hos', hos, List.append_assoc], ?_, ?_⟩
  · intro p hp
    rcases List.mem_append.mp hp with hp | hp
    · obtain ⟨c, hc, hcovers⟩ := hin p hp
      exact ⟨c, List.mem_append_left _ hc, hcovers⟩
    · obtain ⟨d, hd, hcovers⟩ := hin' p hp
      exact ⟨d, List.mem_append_right _ hd, hcovers⟩
  · refine List.pairwise_append.mpr ⟨hpair, hpair', ?_⟩
    rintro o ho o' ho' p rfl q rfl
    obtain ⟨c, hc, hcovers⟩ := hin p ho
    obtain ⟨d, hd, hcovers'⟩ := hin' q ho'
    have hle := hapart c hc d hd
    simp only [TextRange.contains, decide_eq_true_eq] at hcovers hcovers'
    exact .inl (Nat.le_trans hcovers.2 (Nat.le_trans hle hcovers'.1))

/-- What is read inside a node is read in the node. -/
theorem Visits.cover (h : s.Visits es t) (hcovers : ∀ c ∈ es, e.range.contains c.range = true) :
    s.Visits [e] t := by
  obtain ⟨os, hos, hin, hpair⟩ := h
  refine ⟨os, hos, fun p hp => ?_, hpair⟩
  obtain ⟨c, hc, hp⟩ := hin p hp
  exact ⟨e, List.mem_singleton_self e, TextRange.contains_trans (hcovers c hc) hp⟩

/-- **A node is read after what is inside it**, all of which is shorter. -/
theorem Visits.add (h : s.Visits es t)
    (hinside : ∀ c ∈ es, e.range.contains c.range = true ∧ c.range ≠ e.range) (x : Expr) :
    s.Visits [e] (t.add e x).2 := by
  obtain ⟨os, hos, hin, hpair⟩ := h
  have hbelow : ∀ p, some p ∈ os → e.range.contains p.range = true ∧ p.range ≠ e.range := by
    intro p hp
    obtain ⟨c, hc, hcp⟩ := hin p hp
    obtain ⟨hec, hne⟩ := hinside c hc
    -- a node in `c` as long as `e` would make `c` as long as `e`
    refine ⟨TextRange.contains_trans hec hcp, fun heq => hne ?_⟩
    rw [heq] at hcp
    exact TextRange.contains_antisymm hcp hec
  refine ⟨os ++ [some (.of e)], ?_, ?_, ?_⟩
  · rw [Lowering.add, Array.toList_push, hos, List.append_assoc]
  · intro p hp
    refine ⟨e, List.mem_singleton_self e, ?_⟩
    rcases List.mem_append.mp hp with hp | hp
    · exact (hbelow p hp).1
    · obtain rfl := Option.some.inj (List.mem_singleton.mp hp)
      exact TextRange.contains_refl _
  · refine List.pairwise_append.mpr ⟨hpair, List.pairwise_singleton .., ?_⟩
    rintro o ho o' ho' p rfl q hq
    rw [List.mem_singleton.mp ho'] at hq
    obtain rfl := Option.some.inj hq
    exact .inr (hbelow p ho)

/-- A part that may be absent is read in order if the expressions inside the node are. -/
theorem visits_part (h : e.IsTidy) (hnested : e.IsNested)
    (ih : ∀ c ∈ e.children, c.IsTidy → c.IsNested → c.isExpression = true → ∀ s : Lowering,
      s.Visits [c] (s.expr c).2) (n : Nat) (s : Lowering) :
    s.Visits e.expressions[n]?.toList (s.expr? e.expressions[n]?).2 := by
  cases hc : e.expressions[n]? with
  | none => exact s.visits_absent
  | some c =>
    obtain ⟨hmem, htidy, hexpr⟩ := h.of_expressions hc
    exact ih c hmem htidy (hnested.of_mem_children hmem) hexpr s

/-- **Reading an expression off a tidy element keeps to the order.** -/
theorem visits_expr (e : Element) (h : e.IsTidy) (hnested : e.IsNested) (hexpr : e.isExpression = true)
    (s : Lowering) : s.Visits [e] (s.expr e).2 := by
  obtain ⟨hnode, hkind⟩ := Bool.and_eq_true_iff.mp hexpr
  obtain ⟨shaped, ordered⟩ := h.self hnode
  have part := visits_part h hnested fun c hc htidy hnested hexpr s =>
    have := Element.sizeOf_lt_of_mem_children hc
    visits_expr c htidy hnested hexpr s
  have inside : ∀ {n : Nat}, ∀ c ∈ e.expressions[n]?.toList,
      e.range.contains c.range = true ∧ c.range ≠ e.range := by
    intro n c hc
    obtain ⟨hmem, -, hc⟩ := h.of_expressions (Option.mem_toList.mp hc)
    exact h.contains_and_range_ne hnested (Element.kind_ne_sourceFile hexpr) hmem
      (Bool.and_eq_true_iff.mp hc).1
  cases hk : e.kind with
  | literal =>
    rw [expr_literal s hk]
    exact s.visits_refl.add (List.forall_mem_nil _) _
  | nameRef =>
    rw [expr_nameRef s hk]
    exact s.visits_refl.add (List.forall_mem_nil _) _
  | prefixExpr =>
    rw [expr_prefixExpr s hk, Element.inner?_eq]
    exact (part 0 s).add inside _
  | binExpr =>
    have apart : ∀ l ∈ e.lhs?.toList, ∀ r ∈ e.rhs?.toList, l.stop ≤ r.start := fun l hl r hr =>
      ordered.stop_le_of_operands shaped hk (Option.mem_toList.mp hl) (Option.mem_toList.mp hr)
    obtain ⟨hlhs, hrhs⟩ := ordered.operands_of_binExpr shaped hk
    rw [hlhs, hrhs] at apart
    rw [expr_binExpr s hk, hlhs, hrhs]
    refine ((part 0 s).trans (part 1 _) apart).add (fun c hc => ?_) _
    exact (List.mem_append.mp hc).elim (inside c) (inside c)
  | parenExpr =>
    rw [expr_parenExpr s hk, Element.inner?_eq]
    exact (part 0 s).cover fun c hc => (inside c hc).1
  | _ => exact absurd hkind (by simp [hk, isExpr])
termination_by sizeOf e

/-- Reading a statement off a tidy element keeps to the order. -/
theorem visits_statement (h : e.IsTidy) (hnested : e.IsNested) (hnode : e.isNode = true)
    (hstmt : e.kind.isStmt = true) (s : Lowering) : s.Visits [e] (s.statement e) := by
  rw [statement]
  split
  · cases e.definedName? with
    | none => exact s.visits_refl.cover (List.forall_mem_nil _)
    | some n =>
      rw [Element.inner?_eq]
      refine (visits_part h hnested (fun c _ => visits_expr c) 0 s).cover fun c hc => ?_
      obtain ⟨hmem, -, -⟩ := h.of_expressions (Option.mem_toList.mp hc)
      exact hnested e (Element.self_mem_nodes hnode) c hmem
  · next hk =>
    have hexpr := isExpr_of_isStmt hstmt hk
    exact visits_expr e h hnested (Bool.and_eq_true_iff.mpr ⟨hnode, hexpr⟩) s

/-- **Reading the statements of a row keeps to the order.** -/
theorem visits_foldl
    (hes : ∀ e ∈ es, e.IsTidy ∧ e.IsNested ∧ e.isNode = true ∧ e.kind.isStmt = true)
    (hpair : es.Pairwise fun c d => c.stop ≤ d.start) (s : Lowering) :
    s.Visits es (es.foldl statement s) := by
  induction es generalizing s with
  | nil => exact s.visits_refl
  | cons e es ih =>
    obtain ⟨⟨htidy, hnested, hnode, hstmt⟩, hes⟩ := List.forall_mem_cons.mp hes
    obtain ⟨hfirst, hpair⟩ := List.pairwise_cons.mp hpair
    refine (visits_statement htidy hnested hnode hstmt s).trans (ih hes hpair _) fun c hc => ?_
    rw [List.mem_singleton.mp hc]
    exact hfirst

/-- **The expressions of a file are numbered in post-order.** -/
theorem precedes_of_lt {r : Element} (h : ∀ c ∈ r.children, c.IsTidy) (hnested : r.IsNested)
    (hpair : r.children.Pairwise fun c d => c.stop ≤ d.start) {i j : ExprId} (hij : i < j)
    {p q : SyntaxPointer} (hp : (ofFile r).map.origin? i = some p)
    (hq : (ofFile r).map.origin? j = some q) : p.Precedes q := by
  have hstatements : ∀ d ∈ r.statements, d.IsTidy ∧ d.IsNested ∧ d.isNode = true ∧
      d.kind.isStmt = true := by
    intro d hd
    obtain ⟨hd, hnode, hstmt⟩ := Element.mem_statements.mp hd
    exact ⟨h d hd, hnested.of_mem_children hd, hnode, hstmt⟩
  have hrow : r.statements.Pairwise fun c d => c.stop ≤ d.start :=
    hpair.sublist (List.filter_sublist.trans List.filter_sublist)
  obtain ⟨os, hos, -, hordered⟩ := visits_foldl hstatements hrow .empty
  have horigins : (ofFile r).map.origins.toList = os := hos
  have entry : ∀ {id : ExprId} {p : SyntaxPointer}, (ofFile r).map.origin? id = some p →
      os[id]? = some (some p) := by
    intro id p hid
    rw [← horigins, Array.getElem?_toList]
    exact Option.join_eq_some_iff.mp hid
  obtain ⟨hi, hi'⟩ := List.getElem?_eq_some_iff.mp (entry hp)
  obtain ⟨hj, hj'⟩ := List.getElem?_eq_some_iff.mp (entry hq)
  exact List.pairwise_iff_getElem.mp hordered i j hi hj hij p hi' q hj'

end Lowering

end LosslessSyntax
