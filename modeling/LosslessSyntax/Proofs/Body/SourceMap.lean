import LosslessSyntax.Proofs.Body.Chart

/-!
# Proofs/Body/SourceMap — the map of a file

Reading an expression off a tidy tree reads every expression node in it, each once, so the map it leaves
behind is complete (`Lowering.adds_expr`), and so is the map of a file, but for the definitions that are
dropped (`Lowering.charts_ofFile`).
-/

namespace LosslessSyntax

open SyntaxKind

/-! ## The expressions in an element -/

namespace Element

variable {e c : Element}

/-- The nodes of an element that are expressions, each before those inside it. -/
def expressionNodes (e : Element) : List Element := e.nodes.filter isExpression

/-- The expressions in a part that may be absent. -/
def partNodes (c? : Option Element) : List Element := c?.toList.flatMap expressionNodes

@[simp] theorem partNodes_none : partNodes none = [] := rfl

@[simp] theorem partNodes_some (c : Element) : partNodes (some c) = c.expressionNodes :=
  List.flatMap_singleton ..

theorem mem_expressionNodes {n : Element} :
    n ∈ e.expressionNodes ↔ n ∈ e.nodes ∧ n.isExpression = true :=
  List.mem_filter

/-- The expressions below a node are in the expressions inside it. -/
theorem filter_nodesAll {es : List Element}
    (h : ∀ c ∈ es, c.isNode = true → c.isExpression = false → c.expressionNodes = []) :
    (nodesAll es).filter isExpression = (es.filter isExpression).flatMap expressionNodes := by
  induction es with
  | nil => rw [nodesAll_nil]; rfl
  | cons c es ih =>
    obtain ⟨hc, hes⟩ := List.forall_mem_cons.mp h
    rw [nodesAll_cons, List.filter_append, ih hes]
    by_cases hexpr : c.isExpression = true
    · rw [List.filter_cons_of_pos hexpr, List.flatMap_cons, expressionNodes]
    · rw [List.filter_cons_of_neg hexpr]
      have hnil : c.nodes.filter isExpression = [] := by
        rcases hn : c.isNode with _ | _
        · rw [nodes_eq_nil hn, List.filter_nil]
        · exact hc hn (Bool.eq_false_iff.mpr hexpr)
      rw [hnil, List.nil_append]

theorem IsTidy.filter_nodesAll_children (h : e.IsTidy) (hn : e.isNode = true)
    (hk : e.kind ≠ sourceFile) :
    (nodesAll e.children).filter isExpression = e.expressions.flatMap expressionNodes := by
  rw [expressions_eq_filter]
  refine filter_nodesAll fun c hc hnode hexpr => ?_
  have hkind := (h.self hn).1.kind_of_not_isExpression hk hc hnode hexpr
  rw [expressionNodes, (h.of_mem_children hc).nodes_eq_singleton hnode hkind,
    List.filter_cons_of_neg (by simp [hexpr]), List.filter_nil]

/-- **The expressions in an expression** are itself and those in the expressions inside it. -/
theorem IsTidy.expressionNodes_eq (h : e.IsTidy) (hexpr : e.isExpression = true) :
    e.expressionNodes = e :: e.expressions.flatMap expressionNodes := by
  obtain ⟨hn, -⟩ := Bool.and_eq_true_iff.mp hexpr
  rw [expressionNodes, nodes_eq_cons hn, List.filter_cons_of_pos hexpr,
    h.filter_nodesAll_children hn (kind_ne_sourceFile hexpr)]

/-- The one expression inside a definition, a negation or parentheses. -/
theorem IsShaped.flatMap_expressions (h : e.IsShaped)
    (hk : e.kind = variableDef ∨ e.kind = prefixExpr ∨ e.kind = parenExpr) :
    e.expressions.flatMap expressionNodes = partNodes e.inner? := by
  have hle := h.length_expressions_le_one hk
  rw [inner?_eq]
  match hes : e.expressions with
  | [] => rfl
  | [c] => rfl
  | _ :: _ :: _ => simp [hes] at hle

/-- The two expressions inside a binary operation. -/
theorem IsShaped.flatMap_expressions_of_binExpr (h : e.IsShaped) (ordered : e.IsOrdered)
    (hk : e.kind = binExpr) :
    e.expressions.flatMap expressionNodes = partNodes e.lhs? ++ partNodes e.rhs? := by
  obtain ⟨l, rs, hexprs, hle⟩ := h.expressions_of_binExpr hk
  obtain ⟨hlhs, hrhs⟩ := ordered.operands_of_binExpr h hk
  rw [hlhs, hrhs, hexprs]
  match rs with
  | [] => simp
  | [r] => simp
  | _ :: _ :: _ => simp at hle

end Element

/-! ## Reading expressions -/

namespace Lowering

open Element (partNodes partNodes_some expressionNodes)

/-- What is owed for a part: the entry that stands in for it if it is absent. -/
def debt (c? : Option Element) (id : ExprId) : List ExprId := if c?.isNone then [id] else []

theorem mem_debt {c? : Option Element} {id i : ExprId} : i ∈ debt c? id ↔ c? = none ∧ i = id := by
  rcases c? with _ | _ <;> simp [debt]

variable {s t : Lowering} {nodes told : List Element} {owed : List ExprId} {e : Element}

/-- **A part has been read** that may be absent: the expressions in it have joined the chart. -/
structure Adds (s : Lowering) (nodes told : List Element) (owed : List ExprId) (c? : Option Element)
    (p : ExprId × Lowering) : Prop where
  charts : p.2.Charts (partNodes c? ++ nodes) told (debt c? p.1 ++ owed)
  ext : s.Extends p.2
  isPart : p.2.IsPart c? p.1

/-- **Reading a part adds it**, whatever has been read before, if no node of it was among that. -/
def IsReadable (c? : Option Element) : Prop :=
  ∀ ⦃s : Lowering⦄ ⦃nodes told : List Element⦄ ⦃owed : List ExprId⦄, s.Charts nodes told owed →
    ((partNodes c? ++ nodes).map SyntaxPointer.of).Nodup → s.Adds nodes told owed c? (s.expr? c?)

theorem isReadable_none : IsReadable none :=
  fun _ _ _ _ h _ => ⟨h.absent, h.extends_absent, h.isPart_absent⟩

/-- The pointer to an expression is not among those to the expressions in it and before it. -/
theorem nodup_of_perm {ns : List Element} (hns : e.expressionNodes.Perm (e :: ns))
    (hnodup : ((partNodes (some e) ++ nodes).map SyntaxPointer.of).Nodup) :
    SyntaxPointer.of e ∉ (ns ++ nodes).map SyntaxPointer.of ∧
      ((ns ++ nodes).map SyntaxPointer.of).Nodup := by
  rw [partNodes_some] at hnodup
  exact List.nodup_cons.mp (((hns.append_right nodes).map _).nodup_iff.mp hnodup)

/-- An expression is added once its parts are. -/
theorem adds_add {ns : List Element} {ids : List ExprId} {x : Expr}
    (h : t.Charts (ns ++ nodes) told (ids ++ owed)) (hext : s.Extends t)
    (hns : e.expressionNodes.Perm (e :: ns))
    (hnodup : ((partNodes (some e) ++ nodes).map SyntaxPointer.of).Nodup) (hk : e.kind ≠ parenExpr)
    (hreads : t.ReadsAs e x)
    (hids : ∀ id ∈ ids, (t.add e x).2.StandsIn (e :: (ns ++ nodes)) told id) :
    s.Adds nodes told owed (some e) (t.add e x) := by
  obtain ⟨hfresh, -⟩ := nodup_of_perm hns hnodup
  refine ⟨?_, hext.trans (h.extends_add hfresh x), Charts.exprOf?_add t e x⟩
  rw [partNodes_some]
  exact ((h.add hfresh hk hreads).settle hids).perm (hns.append_right nodes).symm

theorem getElem?_add (s : Lowering) (e : Element) (x : Expr) :
    (s.add e x).2.exprs[(s.add e x).1]? = some x :=
  (Array.getElem?_push ..).trans (if_pos rfl)

theorem adds_prefixExpr (h : s.Charts nodes told owed) (shaped : e.IsShaped) (hk : e.kind = prefixExpr)
    (hself : e.expressionNodes = e :: partNodes e.inner?)
    (hnodup : ((partNodes (some e) ++ nodes).map SyntaxPointer.of).Nodup)
    (inner : IsReadable e.inner?) : s.Adds nodes told owed (some e) (s.expr e) := by
  have hns : e.expressionNodes.Perm (e :: partNodes e.inner?) := .of_eq hself
  obtain ⟨charts, ext, isPart⟩ := inner h (nodup_of_perm hns hnodup).2
  rw [expr_prefixExpr s hk, shaped.sign?_eq hk]
  refine adds_add charts ext hns hnodup (by simp [hk]) (.negation hk (shaped.sign?_eq hk) isPart) ?_
  intro id hid
  obtain ⟨habsent, rfl⟩ := mem_debt.mp hid
  exact .operand List.mem_cons_self hk habsent (Charts.exprOf?_add ..) (getElem?_add ..)

theorem adds_binExpr (h : s.Charts nodes told owed) (hk : e.kind = binExpr)
    (hself : e.expressionNodes = e :: (partNodes e.lhs? ++ partNodes e.rhs?))
    (hnodup : ((partNodes (some e) ++ nodes).map SyntaxPointer.of).Nodup)
    (left : IsReadable e.lhs?) (right : IsReadable e.rhs?) :
    s.Adds nodes told owed (some e) (s.expr e) := by
  -- the right operand is read last, so its nodes are listed first
  have hns : e.expressionNodes.Perm (e :: (partNodes e.rhs? ++ partNodes e.lhs?)) := by
    rw [hself]
    exact List.perm_append_comm.cons e
  obtain ⟨-, hparts⟩ := nodup_of_perm hns hnodup
  rw [List.append_assoc, List.map_append] at hparts
  obtain ⟨charts, ext, isPart⟩ := left h (List.nodup_append.mp hparts).2.1
  rw [← List.map_append] at hparts
  obtain ⟨charts', ext', isPart'⟩ := right charts hparts
  rw [← List.append_assoc, ← List.append_assoc] at charts'
  rw [expr_binExpr s hk]
  refine adds_add charts' (ext.trans ext') hns hnodup (by simp [hk])
    (.operation hk (isPart.mono ext') isPart') ?_
  intro id hid
  rcases List.mem_append.mp hid with hid | hid <;> obtain ⟨habsent, rfl⟩ := mem_debt.mp hid
  · exact .right List.mem_cons_self hk habsent (Charts.exprOf?_add ..) (getElem?_add ..)
  · exact .left List.mem_cons_self hk habsent (Charts.exprOf?_add ..) (getElem?_add ..)

theorem adds_parenExpr (h : s.Charts nodes told owed) (hk : e.kind = parenExpr)
    (hself : e.expressionNodes = e :: partNodes e.inner?)
    (hnodup : ((partNodes (some e) ++ nodes).map SyntaxPointer.of).Nodup)
    (inner : IsReadable e.inner?) : s.Adds nodes told owed (some e) (s.expr e) := by
  have hns : e.expressionNodes.Perm (e :: partNodes e.inner?) := .of_eq hself
  obtain ⟨hfresh, hparts⟩ := nodup_of_perm hns hnodup
  obtain ⟨charts, ext, isPart⟩ := inner h hparts
  rw [expr_parenExpr s hk]
  refine ⟨?_, ext.trans (charts.extends_mean hfresh _), Charts.exprOf?_mean ..⟩
  rw [partNodes_some, hself]
  refine (charts.mean hfresh hk isPart).settle ?_
  intro id hid
  obtain ⟨habsent, rfl⟩ := mem_debt.mp hid
  exact .inner List.mem_cons_self hk habsent (Charts.exprOf?_mean ..)

/-- An expression without parts is added at once. -/
theorem adds_leaf {x : Expr} (h : s.Charts nodes told owed) (hself : e.expressionNodes = [e])
    (hnodup : ((partNodes (some e) ++ nodes).map SyntaxPointer.of).Nodup) (hk : e.kind ≠ parenExpr)
    (hreads : s.ReadsAs e x) : s.Adds nodes told owed (some e) (s.add e x) := by
  have charts : s.Charts ([] ++ nodes) told ([] ++ owed) := h
  exact adds_add charts (.refl s) (.of_eq hself) hnodup hk hreads (List.forall_mem_nil _)

/-- **Reading an expression off a tidy element adds it.** -/
theorem isReadable_some (e : Element) (h : e.IsTidy) (hexpr : e.isExpression = true) :
    IsReadable (some e) := by
  intro s nodes told owed hcharts hnodup
  obtain ⟨hnode, hkind⟩ := Bool.and_eq_true_iff.mp hexpr
  obtain ⟨shaped, ordered⟩ := h.self hnode
  have hself := h.expressionNodes_eq hexpr
  have part : ∀ n : Nat, IsReadable e.expressions[n]? := by
    intro n
    rcases hc : e.expressions[n]? with _ | c
    · exact isReadable_none
    · obtain ⟨hmem, htidy, hexpr⟩ := h.of_expressions hc
      have := Element.sizeOf_lt_of_mem_children hmem
      exact isReadable_some c htidy hexpr
  have inner : IsReadable e.inner? := e.inner?_eq ▸ part 0
  rw [expr?]
  cases hk : e.kind with
  | literal =>
    rw [shaped.expressions_of_leaf (.inl hk)] at hself
    rw [expr_literal s hk]
    exact adds_leaf hcharts hself hnodup (by simp [hk]) (s.readsAs_literal hk)
  | nameRef =>
    rw [shaped.expressions_of_leaf (.inr hk)] at hself
    rw [expr_nameRef s hk]
    exact adds_leaf hcharts hself hnodup (by simp [hk]) (.reference hk)
  | prefixExpr =>
    rw [shaped.flatMap_expressions (.inr (.inl hk))] at hself
    exact adds_prefixExpr hcharts shaped hk hself hnodup inner
  | binExpr =>
    obtain ⟨hlhs, hrhs⟩ := ordered.operands_of_binExpr shaped hk
    rw [shaped.flatMap_expressions_of_binExpr ordered hk] at hself
    exact adds_binExpr hcharts hk hself hnodup (hlhs ▸ part 0) (hrhs ▸ part 1)
  | parenExpr =>
    rw [shaped.flatMap_expressions (.inr (.inr hk))] at hself
    exact adds_parenExpr hcharts hk hself hnodup inner
  | _ => exact absurd hkind (by simp [hk, isExpr])
termination_by sizeOf e

/-! ## Reading statements -/

/-- A definition that has a name is told once its value has been read. -/
theorem charts_define {d c : Element} (h : s.Charts nodes told []) (hk : d.kind = variableDef)
    (hname : d.definedName? = some c) (hself : d.expressionNodes = partNodes d.inner?)
    (hnodup : ((d.expressionNodes ++ nodes).map SyntaxPointer.of).Nodup) (value : IsReadable d.inner?) :
    (s.statement d).Charts (d.expressionNodes ++ nodes) (told ++ [d]) [] := by
  rw [hself] at hnodup ⊢
  obtain ⟨charts, ext, isPart⟩ := value h hnodup
  have hlast : (told ++ [d])[told.length]? = some d := by simp
  have hentry (y : Stmt) : ((s.expr? d.inner?).2.statements.push y)[told.length]? = some y := by
    rw [charts.tells.length_eq, Array.length_toList, Array.getElem?_push, if_pos rfl]
  rw [statement, if_pos hk, hname]
  refine (charts.tell (.define hk hname isPart)).settle ?_
  intro id hid
  obtain ⟨habsent, rfl⟩ := mem_debt.mp hid
  exact .value hlast hk habsent (hentry _)

/-- The statements that are not dropped, among some statements. -/
def keptAmong (ds : List Element) : List Element := ds.filter fun d => !d.lacksName

/-- **A statement is told unless it is dropped.** -/
theorem charts_statement {d : Element} (h : s.Charts nodes told []) (htidy : d.IsTidy)
    (hnode : d.isNode = true) (hstmt : d.kind.isStmt = true) (hname : d.lacksName = false)
    (hnodup : ((d.expressionNodes ++ nodes).map SyntaxPointer.of).Nodup) :
    (s.statement d).Charts (d.expressionNodes ++ nodes) (told ++ [d]) [] := by
  obtain ⟨shaped, -⟩ := htidy.self hnode
  by_cases hk : d.kind = variableDef
  · have hself : d.expressionNodes = partNodes d.inner? := by
      rw [expressionNodes, Element.nodes_eq_cons hnode,
        List.filter_cons_of_neg (by simp [Element.isExpression, hk, isExpr]),
        htidy.filter_nodesAll_children hnode (by simp [hk]), shaped.flatMap_expressions (.inl hk)]
    obtain ⟨c, hc⟩ : ∃ c, d.definedName? = some c := by
      simpa [Element.lacksName, hk, Option.isSome_iff_exists] using hname
    have value : IsReadable d.inner? := by
      rw [Element.inner?_eq]
      rcases hv : d.expressions[0]? with _ | v
      · exact isReadable_none
      · obtain ⟨-, hvtidy, hvexpr⟩ := htidy.of_expressions hv
        exact isReadable_some v hvtidy hvexpr
    exact charts_define h hk hc hself hnodup value
  · have hexpr := isExpr_of_isStmt hstmt hk
    have hreadable := isReadable_some d htidy (Bool.and_eq_true_iff.mpr ⟨hnode, hexpr⟩)
    rw [← partNodes_some] at hnodup ⊢
    obtain ⟨charts, ext, isPart⟩ := hreadable h hnodup
    rw [statement, if_neg hk]
    exact charts.tell (.expr hexpr isPart)

theorem statement_of_lacksName {d : Element} (s : Lowering) (h : d.lacksName = true) :
    s.statement d = { s with dropped := s.dropped.push d.range } := by
  obtain ⟨hk, hname⟩ := Bool.and_eq_true_iff.mp h
  rw [statement, if_pos (beq_iff_eq.mp hk), Option.isNone_iff_eq_none.mp hname]

/-- **Statements are told one after the other**, but for those that are dropped. -/
theorem charts_foldl {ds : List Element} (h : s.Charts nodes told [])
    (hds : ∀ d ∈ ds, d.IsTidy ∧ d.isNode = true ∧ d.kind.isStmt = true)
    (hnodup : (((keptAmong ds).flatMap expressionNodes ++ nodes).map SyntaxPointer.of).Nodup) :
    (ds.foldl statement s).Charts ((keptAmong ds).flatMap expressionNodes ++ nodes)
      (told ++ keptAmong ds) [] := by
  induction ds generalizing s nodes told with
  | nil =>
    rw [keptAmong, List.filter_nil, List.append_nil]
    exact h
  | cons d ds ih =>
    obtain ⟨⟨htidy, hnode, hstmt⟩, hds⟩ := List.forall_mem_cons.mp hds
    rw [List.foldl_cons]
    cases hname : d.lacksName with
    | true =>
      have hkept : keptAmong (d :: ds) = keptAmong ds := List.filter_cons_of_neg (by simp [hname])
      rw [hkept] at hnodup ⊢
      rw [statement_of_lacksName s hname]
      exact ih (h.drop _) hds hnodup
    | false =>
      have hkept : keptAmong (d :: ds) = d :: keptAmong ds := List.filter_cons_of_pos (by simp [hname])
      rw [hkept, List.flatMap_cons] at hnodup ⊢
      -- the expressions of the first statement are read first, so they are listed last
      have hperm : ((keptAmong ds).flatMap expressionNodes ++ (d.expressionNodes ++ nodes)).Perm
          (d.expressionNodes ++ (keptAmong ds).flatMap expressionNodes ++ nodes) := by
        rw [← List.append_assoc]
        exact List.perm_append_comm.append_right nodes
      rw [← (hperm.map _).nodup_iff] at hnodup
      have hfirst := hnodup
      rw [List.map_append] at hfirst
      have charts := charts_statement h htidy hnode hstmt hname (List.nodup_append.mp hfirst).2.1
      rw [List.append_cons]
      exact (ih charts hds hnodup).perm hperm

/-- **The map of a file is complete** but for the definitions that are dropped. -/
theorem charts_ofFile {r : Element} (h : ∀ c ∈ r.children, c.IsTidy)
    (hnodup : ((r.kept.flatMap expressionNodes).map SyntaxPointer.of).Nodup) :
    (ofFile r).Charts (r.kept.flatMap expressionNodes) r.kept [] := by
  have hstatements : ∀ d ∈ r.statements, d.IsTidy ∧ d.isNode = true ∧ d.kind.isStmt = true := by
    intro d hd
    obtain ⟨hd, hnode, hstmt⟩ := Element.mem_statements.mp hd
    exact ⟨h d hd, hnode, hstmt⟩
  have hcharts := charts_foldl charts_empty hstatements (by rw [List.append_nil]; exact hnodup)
  rw [List.append_nil, List.nil_append] at hcharts
  exact hcharts

end Lowering

end LosslessSyntax
