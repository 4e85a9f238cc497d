import LosslessSyntax.Proofs.Body.Gaps

/-!
# Proofs/Body/Chart — the map between a body and its tree

While a body is read off a tree, the map between the two is kept up to date entry by entry.  What is true
of it then is said by `Lowering.Charts`: every expression node read so far means an expression, which was
read off it unless it is a parenthesis, and every expression of the body was read off a node, or stands in
for one that is absent.  Each way of adding to the map keeps this true, as long as no two nodes have the
same pointer.
-/

namespace LosslessSyntax

open SyntaxKind

/-! ## Looking things up -/

namespace SourceMap

variable {m : SourceMap} {p q : SyntaxPointer} {id i : ExprId} {o : Option SyntaxPointer}

theorem exprAt?_cons (ms : List (SyntaxPointer × ExprId)) (os : Array (Option SyntaxPointer)) :
    (⟨(p, id) :: ms, os⟩ : SourceMap).exprAt? q =
      if p = q then some id else (⟨ms, os⟩ : SourceMap).exprAt? q := by
  rw [exprAt?, List.find?_cons]
  by_cases h : p = q
  · rw [if_pos h, beq_iff_eq.mpr h, Option.map_some]
  · rw [if_neg h, beq_eq_false_iff_ne.mpr h, exprAt?]

theorem origin?_push (ms : List (SyntaxPointer × ExprId)) (os : Array (Option SyntaxPointer)) :
    (⟨ms, os.push o⟩ : SourceMap).origin? i =
      if i = os.size then o else (⟨ms, os⟩ : SourceMap).origin? i := by
  rw [origin?, Array.getElem?_push]
  split
  · rfl
  · rw [origin?]

end SourceMap

/-! ## What nodes mean -/

namespace Lowering

/-- **What stands in the place of a part**: what the part means, or, if it is absent, something missing
that comes from no node. -/
def IsPart (s : Lowering) (c? : Option Element) (id : ExprId) : Prop :=
  match c? with
  | some c => s.map.exprOf? c = some id
  | none => s.exprs[id]? = some .missing ∧ s.map.origin? id = none

/-- **The expression that is read off a node.** -/
inductive ReadsAs (s : Lowering) (n : Element) : Expr → Prop
  | int {v : Int} (hk : n.kind = .literal) (value : n.intValue? = some v) : ReadsAs s n (.int v)
  /-- The number of a literal may be out of range. -/
  | overflow (hk : n.kind = .literal) (value : n.intValue? = none) : ReadsAs s n .missing
  | reference (hk : n.kind = nameRef) : ReadsAs s n (.var ⟨n.text⟩)
  | negation {op : UnaryOperator} {i : ExprId} (hk : n.kind = prefixExpr) (hop : n.sign? = some op)
      (inner : s.IsPart n.inner? i) : ReadsAs s n (.unary op i)
  | operation {i j : ExprId} (hk : n.kind = binExpr) (left : s.IsPart n.lhs? i)
      (right : s.IsPart n.rhs? j) : ReadsAs s n (.binary n.operator? i j)

/-- **What a node means**: the expression that was read off it, or, for a parenthesis, what stands in
the place of its inside. -/
inductive Means (s : Lowering) (n : Element) (id : ExprId) : Prop
  | own {x : Expr} (hk : n.kind ≠ parenExpr) (there : s.map.exprOf? n = some id)
      (back : s.map.origin? id = some (.of n)) (entry : s.exprs[id]? = some x) (reads : s.ReadsAs n x)
  | inner (hk : n.kind = parenExpr) (there : s.map.exprOf? n = some id)
      (inner : s.IsPart n.inner? id)

/-- **A statement tells what an element means.** -/
inductive Tells (s : Lowering) : Element → Stmt → Prop
  | define {d c : Element} {id : ExprId} (hk : d.kind = variableDef) (named : d.definedName? = some c)
      (value : s.IsPart d.inner? id) : Tells s d (.define ⟨c.text⟩ id)
  | expr {e : Element} {id : ExprId} (hk : e.kind.isExpr = true) (value : s.map.exprOf? e = some id) :
      Tells s e (.expr id)

/-- **An expression stands in for one that is absent** in one of some nodes, or among statements. -/
inductive StandsIn (s : Lowering) (nodes told : List Element) (id : ExprId) : Prop
  | operand {n : Element} {op : UnaryOperator} {i : ExprId} (hn : n ∈ nodes) (hk : n.kind = prefixExpr)
      (absent : n.inner? = none) (there : s.map.exprOf? n = some i)
      (entry : s.exprs[i]? = some (.unary op id))
  | left {n : Element} {op : Option BinaryOperator} {i j : ExprId} (hn : n ∈ nodes)
      (hk : n.kind = binExpr) (absent : n.lhs? = none) (there : s.map.exprOf? n = some i)
      (entry : s.exprs[i]? = some (.binary op id j))
  | right {n : Element} {op : Option BinaryOperator} {i j : ExprId} (hn : n ∈ nodes)
      (hk : n.kind = binExpr) (absent : n.rhs? = none) (there : s.map.exprOf? n = some i)
      (entry : s.exprs[i]? = some (.binary op j id))
  | inner {n : Element} (hn : n ∈ nodes) (hk : n.kind = parenExpr) (absent : n.inner? = none)
      (there : s.map.exprOf? n = some id)
  | value {d : Element} {name : Name} {k : Nat} (hd : told[k]? = some d) (hk : d.kind = variableDef)
      (absent : d.inner? = none) (entry : s.statements[k]? = some (.define name id))

/-! ## Adding to a chart -/

/-- **What has been read stays as it is.** -/
structure Extends (s s' : Lowering) : Prop where
  exprs : ∀ {i : ExprId} {x : Expr}, s.exprs[i]? = some x → s'.exprs[i]? = some x
  there : ∀ {p : SyntaxPointer} {i : ExprId}, s.map.exprAt? p = some i → s'.map.exprAt? p = some i
  back : ∀ {i : ExprId} {x : Expr}, s.exprs[i]? = some x → s'.map.origin? i = s.map.origin? i
  statements : ∀ {k : Nat} {x : Stmt}, s.statements[k]? = some x → s'.statements[k]? = some x

section Extends

variable {s s' s'' : Lowering} {c? : Option Element} {n : Element} {id : ExprId}
  {nodes nodes' told told' : List Element}

theorem Extends.refl (s : Lowering) : s.Extends s := ⟨id, id, fun _ => rfl, id⟩

theorem Extends.trans (h : s.Extends s') (h' : s'.Extends s'') : s.Extends s'' := by
  refine ⟨fun hx => h'.exprs (h.exprs hx), fun hp => h'.there (h.there hp), fun hx => ?_,
    fun hx => h'.statements (h.statements hx)⟩
  rw [h'.back (h.exprs hx), h.back hx]

theorem IsPart.mono (hpart : s.IsPart c? id) (h : s.Extends s') : s'.IsPart c? id := by
  rcases c? with _ | c
  · obtain ⟨hx, horigin⟩ := hpart
    exact ⟨h.exprs hx, (h.back hx).trans horigin⟩
  · exact h.there hpart

theorem ReadsAs.mono {x : Expr} (hreads : s.ReadsAs n x) (h : s.Extends s') : s'.ReadsAs n x := by
  rcases hreads with ⟨hk, value⟩ | ⟨hk, value⟩ | hk | ⟨hk, hop, inner⟩ | ⟨hk, left, right⟩
  · exact .int hk value
  · exact .overflow hk value
  · exact .reference hk
  · exact .negation hk hop (inner.mono h)
  · exact .operation hk (left.mono h) (right.mono h)

theorem readsAs_literal (s : Lowering) (hk : n.kind = .literal) : s.ReadsAs n (literal n) := by
  rw [literal]
  split
  · next value => exact .int hk value
  · next value => exact .overflow hk value

theorem Means.mono (hmeans : s.Means n id) (h : s.Extends s') : s'.Means n id := by
  rcases hmeans with ⟨hk, there, back, entry, reads⟩ | ⟨hk, there, inner⟩
  · exact .own hk (h.there there) ((h.back entry).trans back) (h.exprs entry) (reads.mono h)
  · exact .inner hk (h.there there) (inner.mono h)

theorem Means.there (hmeans : s.Means n id) : s.map.exprOf? n = some id := by
  rcases hmeans with ⟨-, there⟩ | ⟨-, there⟩ <;> exact there

theorem Tells.mono {x : Stmt} (htells : s.Tells n x) (h : s.Extends s') : s'.Tells n x := by
  rcases htells with ⟨hk, named, value⟩ | ⟨hk, value⟩
  · exact .define hk named (value.mono h)
  · exact .expr hk (h.there value)

theorem StandsIn.mono (hid : s.StandsIn nodes told id) (h : s.Extends s') (hnodes : nodes ⊆ nodes')
    (htold : told <+: told') : s'.StandsIn nodes' told' id := by
  rcases hid with ⟨hn, hk, absent, there, entry⟩ | ⟨hn, hk, absent, there, entry⟩ |
    ⟨hn, hk, absent, there, entry⟩ | ⟨hn, hk, absent, there⟩ | ⟨hd, hk, absent, entry⟩
  · exact .operand (hnodes hn) hk absent (h.there there) (h.exprs entry)
  · exact .left (hnodes hn) hk absent (h.there there) (h.exprs entry)
  · exact .right (hnodes hn) hk absent (h.there there) (h.exprs entry)
  · exact .inner (hnodes hn) hk absent (h.there there)
  · obtain ⟨rest, rfl⟩ := htold
    have hlt := (List.getElem?_eq_some_iff.mp hd).1
    exact .value ((List.getElem?_append_left hlt).trans hd) hk absent (h.statements entry)

end Extends

/-- **An expression of the body is accounted for**: it was read off one of some nodes, it stands in for
one that is absent, or it is owed. -/
def IsAccounted (s : Lowering) (nodes told : List Element) (owed : List ExprId) (id : ExprId) : Prop :=
  id ∈ owed ∨
    (∃ n ∈ nodes, n.kind ≠ parenExpr ∧ s.map.origin? id = some (.of n) ∧ s.map.exprOf? n = some id) ∨
    s.StandsIn nodes told id

/-- **What is true of the map while a body is read**: some expression nodes have been read, some
statements have been told, and some entries are owed, which stand in for what is absent in nodes that
are not read yet. -/
structure Charts (s : Lowering) (nodes told : List Element) (owed : List ExprId) : Prop where
  aligned : s.map.origins.size = s.exprs.size
  /-- Only the nodes that have been read mean something. -/
  keys : ∀ {p : SyntaxPointer} {id : ExprId}, s.map.exprAt? p = some id →
    ∃ n ∈ nodes, SyntaxPointer.of n = p
  means : ∀ n ∈ nodes, ∃ id, s.Means n id
  tells : List.Forall₂ s.Tells told s.statements.toList
  accounts : ∀ {id : ExprId} {x : Expr}, s.exprs[id]? = some x → s.IsAccounted nodes told owed id

theorem charts_empty : empty.Charts [] [] [] := by
  refine ⟨rfl, ?_, List.forall_mem_nil _, .nil, ?_⟩
  · intro p id hp
    exact absurd hp (by simp [empty, SourceMap.exprAt?])
  · intro id x hx
    exact absurd hx (by simp [empty])

section Charts

variable {s s' : Lowering} {e : Element} {x : Expr} {id : ExprId} {nodes nodes' told told' : List Element}
  {owed owed' : List ExprId}

theorem Charts.means_of_extends (h : s.Charts nodes told owed) (hext : s.Extends s') :
    ∀ n ∈ nodes, ∃ id, s'.Means n id := by
  intro n hn
  obtain ⟨id, hmeans⟩ := h.means n hn
  exact ⟨id, hmeans.mono hext⟩

/-- What has been accounted for is still so when more has been read. -/
theorem Charts.isAccounted (h : s.Charts nodes told owed) (hx : s.exprs[id]? = some x)
    (hext : s.Extends s') (hnodes : nodes ⊆ nodes') (htold : told <+: told') (howed : owed ⊆ owed') :
    s'.IsAccounted nodes' told' owed' id := by
  rcases h.accounts hx with hid | ⟨n, hn, hk, back, there⟩ | hid
  · exact .inl (howed hid)
  · exact .inr (.inl ⟨n, hnodes hn, hk, (hext.back hx).trans back, hext.there there⟩)
  · exact .inr (.inr (hid.mono hext hnodes htold))

namespace Charts

/-- It does not matter in which order the nodes are listed. -/
theorem perm (h : s.Charts nodes told owed) (hp : nodes.Perm nodes') : s.Charts nodes' told owed := by
  refine ⟨h.aligned, ?_, fun n hn => h.means n (hp.mem_iff.mpr hn), h.tells, ?_⟩
  · intro p id hkey
    obtain ⟨n, hn, heq⟩ := h.keys hkey
    exact ⟨n, hp.mem_iff.mp hn, heq⟩
  · intro id x hx
    exact h.isAccounted hx (.refl s) hp.subset (List.prefix_refl _) (List.Subset.refl _)

/-- What is owed is settled once it stands in for something that is absent. -/
theorem settle {ids : List ExprId} (h : s.Charts nodes told (ids ++ owed))
    (hids : ∀ id ∈ ids, s.StandsIn nodes told id) : s.Charts nodes told owed := by
  refine ⟨h.aligned, h.keys, h.means, h.tells, ?_⟩
  intro id x hx
  rcases h.accounts hx with hid | hid
  · rcases List.mem_append.mp hid with hid | hid
    · exact .inr (.inr (hids _ hid))
    · exact .inl hid
  · exact .inr hid

/-- A node that has not been read means nothing. -/
theorem exprOf?_eq_none (h : s.Charts nodes told owed)
    (hfresh : SyntaxPointer.of e ∉ nodes.map SyntaxPointer.of) : s.map.exprOf? e = none := by
  rw [Option.eq_none_iff_forall_not_mem]
  intro id hid
  obtain ⟨n, hn, heq⟩ := h.keys hid
  exact hfresh (List.mem_map.mpr ⟨n, hn, heq⟩)

/-! ### Expressions -/

/-- A new entry is the last, or it was there before. -/
theorem getElem?_push_cases {xs : Array Expr} {y : Expr} (hx : (xs.push x)[id]? = some y) :
    id = xs.size ∨ xs[id]? = some y := by
  rw [Array.getElem?_push] at hx
  split at hx
  · next hid => exact .inl hid
  · exact .inr hx

theorem origin?_push_of_some (h : s.Charts nodes told owed) (hx : s.exprs[id]? = some x)
    (ms : List (SyntaxPointer × ExprId)) (o : Option SyntaxPointer) :
    (⟨ms, s.map.origins.push o⟩ : SourceMap).origin? id = s.map.origin? id := by
  have hlt : id < s.exprs.size := (Array.getElem?_eq_some_iff.mp hx).1
  have hne : id ≠ s.map.origins.size := by
    rw [h.aligned]
    exact Nat.ne_of_lt hlt
  rw [SourceMap.origin?_push, if_neg hne]
  rfl

theorem extends_absent (h : s.Charts nodes told owed) : s.Extends s.absent.2 :=
  ⟨fun hx => getElem?_push_of_eq_some hx _, id, fun hx => h.origin?_push_of_some hx .., id⟩

/-- **Something absent** is owed until the node around it is read. -/
theorem absent (h : s.Charts nodes told owed) : s.absent.2.Charts nodes told (s.absent.1 :: owed) := by
  have hext := h.extends_absent
  refine ⟨?_, h.keys, ?_, h.tells.imp fun _ _ ht => ht.mono hext, ?_⟩
  · simp [Lowering.absent, h.aligned]
  · exact h.means_of_extends hext
  · intro id x hx
    rcases getElem?_push_cases hx with rfl | hx
    · exact .inl List.mem_cons_self
    · exact h.isAccounted hx hext (List.Subset.refl _) (List.prefix_refl _)
        (List.subset_cons_self ..)

theorem isPart_absent (h : s.Charts nodes told owed) : s.absent.2.IsPart none s.absent.1 := by
  constructor
  · exact (Array.getElem?_push ..).trans (if_pos rfl)
  · exact (SourceMap.origin?_push ..).trans (if_pos h.aligned.symm)

/-- A new key hides no other. -/
theorem exprAt?_cons_of_some (h : s.Charts nodes told owed)
    (hfresh : SyntaxPointer.of e ∉ nodes.map SyntaxPointer.of) {p : SyntaxPointer} {i : ExprId}
    (hp : s.map.exprAt? p = some i) (os : Array (Option SyntaxPointer)) :
    (⟨(.of e, id) :: s.map.meanings, os⟩ : SourceMap).exprAt? p = some i := by
  have hne : SyntaxPointer.of e ≠ p := by
    rintro rfl
    exact absurd (hp.symm.trans (h.exprOf?_eq_none hfresh)) (by simp)
  rw [SourceMap.exprAt?_cons, if_neg hne]
  exact hp

theorem keys_cons (h : s.Charts nodes told owed) {p : SyntaxPointer} {i : ExprId}
    {os : Array (Option SyntaxPointer)}
    (hp : (⟨(.of e, id) :: s.map.meanings, os⟩ : SourceMap).exprAt? p = some i) :
    ∃ n ∈ e :: nodes, SyntaxPointer.of n = p := by
  rw [SourceMap.exprAt?_cons] at hp
  split at hp
  · next heq => exact ⟨e, List.mem_cons_self, heq⟩
  · obtain ⟨n, hn, heq⟩ := h.keys hp
    exact ⟨n, List.mem_cons_of_mem _ hn, heq⟩

theorem extends_add (h : s.Charts nodes told owed)
    (hfresh : SyntaxPointer.of e ∉ nodes.map SyntaxPointer.of) (x : Expr) : s.Extends (s.add e x).2 :=
  ⟨fun hx => getElem?_push_of_eq_some hx _, fun hp => h.exprAt?_cons_of_some hfresh hp _,
    fun hx => h.origin?_push_of_some hx .., id⟩

theorem exprOf?_add (s : Lowering) (e : Element) (x : Expr) :
    (s.add e x).2.map.exprOf? e = some (s.add e x).1 :=
  (SourceMap.exprAt?_cons ..).trans (if_pos rfl)

/-- **An expression that is read off a node** joins the chart. -/
theorem add (h : s.Charts nodes told owed)
    (hfresh : SyntaxPointer.of e ∉ nodes.map SyntaxPointer.of) (hk : e.kind ≠ parenExpr)
    (hreads : s.ReadsAs e x) : (s.add e x).2.Charts (e :: nodes) told owed := by
  have hext := h.extends_add hfresh x
  have hback : (s.add e x).2.map.origin? s.exprs.size = some (.of e) :=
    (SourceMap.origin?_push ..).trans (if_pos h.aligned.symm)
  refine ⟨?_, h.keys_cons, ?_, h.tells.imp fun _ _ ht => ht.mono hext, ?_⟩
  · simp [Lowering.add, h.aligned]
  · intro n hn
    rcases List.mem_cons.mp hn with rfl | hn
    · have hentry : (s.add n x).2.exprs[s.exprs.size]? = some x :=
        (Array.getElem?_push ..).trans (if_pos rfl)
      exact ⟨_, .own hk (exprOf?_add s n x) hback hentry (hreads.mono hext)⟩
    · exact h.means_of_extends hext n hn
  · intro id y hy
    rcases getElem?_push_cases hy with rfl | hx
    · exact .inr (.inl ⟨e, List.mem_cons_self, hk, hback, exprOf?_add s e x⟩)
    · exact h.isAccounted hx hext (List.subset_cons_self ..) (List.prefix_refl _)
        (List.Subset.refl _)

theorem extends_mean (h : s.Charts nodes told owed)
    (hfresh : SyntaxPointer.of e ∉ nodes.map SyntaxPointer.of) (id : ExprId) :
    s.Extends (s.mean e id) :=
  ⟨fun hx => hx, fun hp => h.exprAt?_cons_of_some hfresh hp _, fun _ => rfl, fun hx => hx⟩

theorem exprOf?_mean (s : Lowering) (e : Element) (id : ExprId) :
    (s.mean e id).map.exprOf? e = some id :=
  (SourceMap.exprAt?_cons ..).trans (if_pos rfl)

/-- **A parenthesis** means what stands in the place of its inside. -/
theorem mean (h : s.Charts nodes told owed)
    (hfresh : SyntaxPointer.of e ∉ nodes.map SyntaxPointer.of) (hk : e.kind = parenExpr)
    (hpart : s.IsPart e.inner? id) : (s.mean e id).Charts (e :: nodes) told owed := by
  have hext := h.extends_mean hfresh id
  refine ⟨h.aligned, h.keys_cons, ?_, h.tells.imp fun _ _ ht => ht.mono hext, ?_⟩
  · intro n hn
    rcases List.mem_cons.mp hn with rfl | hn
    · exact ⟨id, .inner hk (exprOf?_mean s n id) (hpart.mono hext)⟩
    · exact h.means_of_extends hext n hn
  · intro id x hx
    exact h.isAccounted hx hext (List.subset_cons_self ..) (List.prefix_refl _)
      (List.Subset.refl _)

/-! ### Statements -/

theorem extends_tell (s : Lowering) (x : Stmt) :
    s.Extends { s with statements := s.statements.push x } :=
  ⟨fun hx => hx, fun hp => hp, fun _ => rfl, fun hx => getElem?_push_of_eq_some hx x⟩

/-- **A statement that is kept** joins the others. -/
theorem tell (h : s.Charts nodes told owed) {y : Stmt} (htells : s.Tells e y) :
    Charts { s with statements := s.statements.push y } nodes (told ++ [e]) owed := by
  have hext := extends_tell s y
  refine ⟨h.aligned, h.keys, ?_, ?_, ?_⟩
  · exact h.means_of_extends hext
  · rw [Array.toList_push]
    exact List.rel_append (h.tells.imp fun _ _ ht => ht.mono hext) (.cons (htells.mono hext) .nil)
  · intro id x hx
    exact h.isAccounted hx hext (List.Subset.refl _) (List.prefix_append ..)
      (List.Subset.refl _)

/-- A statement that is dropped leaves no trace. -/
theorem drop (h : s.Charts nodes told owed) (ranges : Array TextRange) :
    Charts { s with dropped := ranges } nodes told owed := by
  have hext : s.Extends { s with dropped := ranges } := ⟨id, id, fun _ => rfl, id⟩
  refine ⟨h.aligned, h.keys, ?_, h.tells.imp fun _ _ ht => ht.mono hext, ?_⟩
  · exact h.means_of_extends hext
  · intro id x hx
    exact h.isAccounted hx hext (List.Subset.refl _) (List.prefix_refl _) (List.Subset.refl _)

/-! ### What a chart says -/

/-- The entry of a node that has been read, unless it is a parenthesis. -/
theorem readsAs (h : s.Charts nodes told owed) {n : Element} {y : Expr} (hn : n ∈ nodes)
    (hk : n.kind ≠ parenExpr) (there : s.map.exprOf? n = some id) (entry : s.exprs[id]? = some y) :
    s.ReadsAs n y := by
  obtain ⟨i, ⟨-, there', -, entry', reads⟩ | ⟨hk', -⟩⟩ := h.means n hn
  · obtain rfl := Option.some.inj (there'.symm.trans there)
    obtain rfl := Option.some.inj (entry'.symm.trans entry)
    exact reads
  · exact absurd hk' hk

theorem tells_of_getElem? (h : s.Charts nodes told owed) {k : Nat} {d : Element} {y : Stmt}
    (hd : told[k]? = some d) (entry : s.statements[k]? = some y) : s.Tells d y := by
  rw [← Array.getElem?_toList] at entry
  obtain ⟨hlt, rfl⟩ := List.getElem?_eq_some_iff.mp hd
  obtain ⟨hlt', rfl⟩ := List.getElem?_eq_some_iff.mp entry
  exact h.tells.get hlt hlt'

/-- **What stands in for something absent** is missing, and comes from no node. -/
theorem isPart_none (h : s.Charts nodes told owed) (hid : s.StandsIn nodes told id) :
    s.IsPart none id := by
  rcases hid with ⟨hn, hk, absent, there, entry⟩ | ⟨hn, hk, absent, there, entry⟩ |
    ⟨hn, hk, absent, there, entry⟩ | ⟨hn, hk, absent, there⟩ | ⟨hd, hk, absent, entry⟩
  · rcases h.readsAs hn (by simp [hk]) there entry with _ | _ | _ | ⟨-, -, inner⟩ | _
    rwa [absent] at inner
  · rcases h.readsAs hn (by simp [hk]) there entry with _ | _ | _ | _ | ⟨-, left, -⟩
    rwa [absent] at left
  · rcases h.readsAs hn (by simp [hk]) there entry with _ | _ | _ | _ | ⟨-, -, right⟩
    rwa [absent] at right
  · obtain ⟨i, ⟨hk', -⟩ | ⟨-, there', inner⟩⟩ := h.means _ hn
    · exact absurd hk hk'
    · obtain rfl := Option.some.inj (there'.symm.trans there)
      rwa [absent] at inner
  · rcases h.tells_of_getElem? hd entry with ⟨-, -, value⟩ | _
    rwa [absent] at value

/-- **An expression that comes from a node** is what the node means. -/
theorem exists_of_origin? (h : s.Charts nodes told []) {p : SyntaxPointer}
    (hp : s.map.origin? id = some p) :
    ∃ n ∈ nodes, n.kind ≠ parenExpr ∧ SyntaxPointer.of n = p ∧ s.map.exprOf? n = some id := by
  have hlt : id < s.exprs.size := by
    by_contra hge
    rw [← h.aligned, Nat.not_lt] at hge
    exact absurd hp (by simp [SourceMap.origin?, Array.getElem?_eq_none hge])
  rcases h.accounts (Array.getElem?_eq_getElem hlt) with howed | ⟨n, hn, hk, back, there⟩ | hid
  · exact absurd howed List.not_mem_nil
  · exact ⟨n, hn, hk, Option.some.inj (back.symm.trans hp), there⟩
  · exact absurd ((h.isPart_none hid).2.symm.trans hp) (by simp)

/-- **An expression that comes from no node** stands in for something absent. -/
theorem origin?_eq_none_iff (h : s.Charts nodes told []) (hlt : id < s.exprs.size) :
    s.map.origin? id = none ↔ s.exprs[id]? = some .missing ∧ s.StandsIn nodes told id := by
  constructor
  · intro hnone
    rcases h.accounts (Array.getElem?_eq_getElem hlt) with howed | ⟨n, -, -, back, -⟩ | hid
    · exact absurd howed List.not_mem_nil
    · exact absurd (back.symm.trans hnone) (by simp)
    · exact ⟨(h.isPart_none hid).1, hid⟩
  · rintro ⟨-, hid⟩
    exact (h.isPart_none hid).2

/-- Nodes that mean something have been read, if they have pointers of their own. -/
theorem standsIn_of_nodes (h : s.Charts nodes told owed)
    (hinj : ∀ n ∈ nodes', ∀ m ∈ nodes, SyntaxPointer.of m = SyntaxPointer.of n → m = n)
    (hid : s.StandsIn nodes' told id) : s.StandsIn nodes told id := by
  have hread : ∀ {n : Element} {i : ExprId}, n ∈ nodes' → s.map.exprOf? n = some i → n ∈ nodes := by
    intro n i hn there
    obtain ⟨m, hm, heq⟩ := h.keys there
    rwa [← hinj n hn m hm heq]
  rcases hid with ⟨hn, hk, absent, there, entry⟩ | ⟨hn, hk, absent, there, entry⟩ |
    ⟨hn, hk, absent, there, entry⟩ | ⟨hn, hk, absent, there⟩ | ⟨hd, hk, absent, entry⟩
  · exact .operand (hread hn there) hk absent there entry
  · exact .left (hread hn there) hk absent there entry
  · exact .right (hread hn there) hk absent there entry
  · exact .inner (hread hn there) hk absent there
  · exact .value hd hk absent entry

end Charts

end Charts

end Lowering

end LosslessSyntax
