import LosslessSyntax.Proofs.Body.Meaning
import Mathlib.Data.List.Perm.Subperm

/-!
# Proofs/Body/Forest — the arena of a body is a forest

Whatever tree a body is read off, nothing is referred to twice, and operands have smaller numbers than
what is made of them (`Body.grows_ofFile`).  While the body is read, some expressions are loose: they have
a number, but nothing refers to them yet.  Reading an expression takes its operands, which were loose, and
leaves the expression itself behind (`Lowering.plants_expr`).  A sign that is no operator loses its
operand; in the body of sentences nothing is lost, so everything is referred to once
(`Body.references_perm_ofFile`).
-/

namespace LosslessSyntax

open SyntaxKind

namespace Body

/-! ## Forests -/

/-- **What the expressions and the statements of a body refer to**, one by one. -/
def references (b : Body) : List ExprId :=
  b.exprs.toList.flatMap Expr.operands ++ b.statements.toList.map Stmt.value

/-- **A body is a forest in post-order.** -/
structure IsForest (b : Body) : Prop where
  /-- Whatever is referred to is there. -/
  lt_size : ∀ id ∈ b.references, id < b.exprs.size
  /-- Operands have smaller numbers than what is made of them. -/
  lt_of_operand : ∀ (id : ExprId) (x : Expr), b.exprs[id]? = some x → ∀ o ∈ x.operands, o < id
  /-- Nothing is referred to twice. -/
  nodup : b.references.Nodup

/-- **A forest grows**: some expressions are loose, which nothing refers to yet, and the statements so
far are about expressions with rising numbers. -/
structure Grows (b : Body) (loose : List ExprId) : Prop where
  lt_size : ∀ id ∈ loose ++ b.references, id < b.exprs.size
  lt_of_operand : ∀ (id : ExprId) (x : Expr), b.exprs[id]? = some x → ∀ o ∈ x.operands, o < id
  nodup : (loose ++ b.references).Nodup
  rising : (b.statements.toList.map Stmt.value).Pairwise (· < ·)

variable {b : Body} {loose loose' : List ExprId} {id : ExprId}

theorem grows_empty : Grows ⟨#[], #[]⟩ [] := by
  constructor <;> simp [references]

/-- When nothing is loose any more, the forest is complete. -/
theorem Grows.isForest (h : b.Grows []) : b.IsForest := ⟨h.lt_size, h.lt_of_operand, h.nodup⟩

/-- It does not matter in which order the loose expressions are listed. -/
theorem Grows.perm (h : b.Grows loose) (hp : loose.Perm loose') : b.Grows loose' := by
  have hall := hp.append_right b.references
  exact ⟨fun id hid => h.lt_size id (hall.mem_iff.mpr hid), h.lt_of_operand, hall.nodup_iff.mp h.nodup,
    h.rising⟩

/-- A loose expression may be lost. -/
theorem Grows.lose (h : b.Grows (id :: loose)) : b.Grows loose :=
  ⟨fun i hi => h.lt_size i (List.mem_cons_of_mem _ hi), h.lt_of_operand, (List.nodup_cons.mp h.nodup).2,
    h.rising⟩

theorem references_push_expr (b : Body) (x : Expr) :
    (references ⟨b.exprs.push x, b.statements⟩).Perm (x.operands ++ b.references) := by
  simp only [references, Array.toList_push, List.flatMap_append, List.flatMap_singleton,
    List.append_assoc]
  exact List.perm_append_comm_assoc ..

theorem references_push_statement (b : Body) (x : Stmt) :
    (references ⟨b.exprs, b.statements.push x⟩).Perm (x.value :: b.references) := by
  simp only [references, Array.toList_push, List.map_append, List.map_singleton, ← List.append_assoc]
  exact List.perm_append_singleton ..

/-- **A new expression takes its operands**, which were loose, and is loose itself. -/
theorem Grows.push {x : Expr} (h : b.Grows (x.operands ++ loose)) :
    Grows ⟨b.exprs.push x, b.statements⟩ (b.exprs.size :: loose) := by
  have hperm : (loose ++ references ⟨b.exprs.push x, b.statements⟩).Perm
      (x.operands ++ loose ++ b.references) := by
    rw [List.append_assoc]
    exact ((references_push_expr b x).append_left loose).trans (List.perm_append_comm_assoc ..)
  have hlt : ∀ id ∈ loose ++ references ⟨b.exprs.push x, b.statements⟩, id < b.exprs.size :=
    fun id hid => h.lt_size id (hperm.mem_iff.mp hid)
  refine ⟨?_, ?_, ?_, h.rising⟩
  · intro id hid
    rw [Array.size_push]
    rcases List.mem_cons.mp hid with rfl | hid
    · exact Nat.lt_succ_self _
    · exact Nat.lt_succ_of_lt (hlt id hid)
  · intro id y hy o ho
    rw [Array.getElem?_push] at hy
    split at hy
    · next hid =>
      obtain rfl := Option.some.inj hy
      rw [hid]
      exact h.lt_size o (List.mem_append_left _ (List.mem_append_left _ ho))
    · exact h.lt_of_operand id y hy o ho
  · refine List.nodup_cons.mpr ⟨fun hmem => ?_, hperm.nodup_iff.mpr h.nodup⟩
    exact Nat.lt_irrefl _ (hlt _ hmem)

/-- **A new statement takes its expression**, which was loose, if that is newer than the others. -/
theorem Grows.tell {x : Stmt} (h : b.Grows (x.value :: loose))
    (hnew : ∀ y ∈ b.statements, y.value < x.value) :
    Grows ⟨b.exprs, b.statements.push x⟩ loose := by
  have hperm : (loose ++ references ⟨b.exprs, b.statements.push x⟩).Perm
      (x.value :: loose ++ b.references) :=
    ((references_push_statement b x).append_left loose).trans List.perm_middle
  refine ⟨fun id hid => h.lt_size id (hperm.mem_iff.mp hid), h.lt_of_operand,
    hperm.nodup_iff.mpr h.nodup, ?_⟩
  simp only [Array.toList_push, List.map_append, List.map_singleton, List.pairwise_append]
  refine ⟨h.rising, List.pairwise_singleton .., ?_⟩
  intro i hi j hj
  obtain ⟨y, hy, rfl⟩ := List.mem_map.mp hi
  rw [List.mem_singleton.mp hj]
  exact hnew y (by simpa using hy)

end Body

/-! ## Reading any tree -/

namespace Element

variable {c e : Element}

theorem isExpr_of_mem_expressions (h : c ∈ e.expressions) : c.kind.isExpr = true :=
  (List.mem_filter.mp h).2

theorem isExpr_of_inner? (h : e.inner? = some c) : c.kind.isExpr = true := kind_of_firstNode? h

theorem mem_expressions_of_lhs? (h : e.lhs? = some c) : c ∈ e.expressions := by
  unfold lhs? at h
  split at h
  · exact List.mem_of_getElem? h
  · exact (List.mem_filter.mp (List.mem_of_getLast? h)).1

theorem mem_expressions_of_rhs? (h : e.rhs? = some c) : c ∈ e.expressions := by
  unfold rhs? at h
  split at h
  · exact List.mem_of_getElem? h
  · exact List.mem_of_find?_eq_some h

end Element

namespace Lowering

/-- **Reading an expression has left it loose**: it is new, and nothing else has changed. -/
structure Plants (s : Lowering) (loose : List ExprId) (p : ExprId × Lowering) : Prop where
  grows : p.2.body.Grows (p.1 :: loose)
  size_le : s.exprs.size ≤ p.1
  statements_eq : p.2.statements = s.statements

variable {s t : Lowering} {loose : List ExprId} {e : Element} {p q : ExprId × Lowering}

theorem Plants.size_lt (h : s.Plants loose p) : s.exprs.size < p.2.exprs.size :=
  Nat.lt_of_le_of_lt h.size_le (h.grows.lt_size _ List.mem_cons_self)

theorem plants_absent (h : s.body.Grows loose) : s.Plants loose s.absent := by
  have h : s.body.Grows (Expr.missing.operands ++ loose) := h
  exact ⟨h.push, Nat.le_refl _, rfl⟩

/-- An expression is planted once its operands are loose. -/
theorem plants_add {x : Expr} (h : t.body.Grows (x.operands ++ loose))
    (hsize : s.exprs.size ≤ t.exprs.size) (hstatements : t.statements = s.statements) :
    s.Plants loose (t.add e x) :=
  ⟨h.push, hsize, hstatements⟩

/-- A negation takes its operand; without a sign the operand is lost. -/
theorem Plants.unary (h : s.Plants loose p) (e : Element) (op? : Option UnaryOperator) :
    s.Plants loose (p.2.add e (match op? with
      | some op => .unary op p.1
      | none => .missing)) := by
  have hsize := Nat.le_of_lt h.size_lt
  cases op? with
  | none => exact plants_add (x := .missing) h.grows.lose hsize h.statements_eq
  | some op => exact plants_add (x := .unary op p.1) h.grows hsize h.statements_eq

/-- A binary operation takes both its operands. -/
theorem Plants.binary (h : s.Plants loose p) (h' : p.2.Plants (p.1 :: loose) q) (e : Element)
    (op? : Option BinaryOperator) : s.Plants loose (q.2.add e (.binary op? p.1 q.1)) := by
  have hsize := Nat.le_of_lt (Nat.lt_trans h.size_lt h'.size_lt)
  exact plants_add (h'.grows.perm (.swap ..)) hsize (h'.statements_eq.trans h.statements_eq)

/-- A part that may be absent is planted if it is when it is there. -/
theorem plants_part {c? : Option Element} (h : s.body.Grows loose)
    (ih : ∀ c, c? = some c → s.Plants loose (s.expr c)) : s.Plants loose (s.expr? c?) := by
  cases c? with
  | none => exact plants_absent h
  | some c => exact ih c rfl

/-- **Reading an expression off any element plants it.** -/
theorem plants_expr (e : Element) (hk : e.kind.isExpr = true) {s : Lowering} {loose : List ExprId}
    (h : s.body.Grows loose) : s.Plants loose (s.expr e) := by
  have below : ∀ {c}, c ∈ e.children → c.kind.isExpr = true → ∀ {s : Lowering} {loose : List ExprId},
      s.body.Grows loose → s.Plants loose (s.expr c) := fun hc hk _ _ h =>
    have := Element.sizeOf_lt_of_mem_children hc
    plants_expr _ hk h
  have inner := plants_part h fun c hc =>
    below (Element.mem_children_of_inner? hc) (Element.isExpr_of_inner? hc) h
  cases hkind : e.kind with
  | literal =>
    rw [expr_literal s hkind, literal]
    cases e.intValue? <;> exact plants_add h (Nat.le_refl _) rfl
  | nameRef =>
    rw [expr_nameRef s hkind]
    exact plants_add h (Nat.le_refl _) rfl
  | prefixExpr =>
    rw [expr_prefixExpr s hkind]
    exact inner.unary e e.sign?
  | binExpr =>
    have left := plants_part h fun c hc =>
      have hc := Element.mem_expressions_of_lhs? hc
      below (Element.mem_children_of_mem_expressions hc) (Element.isExpr_of_mem_expressions hc) h
    -- the left operand is loose while the right one is read
    have right := plants_part left.grows fun c hc =>
      have hc := Element.mem_expressions_of_rhs? hc
      below (Element.mem_children_of_mem_expressions hc) (Element.isExpr_of_mem_expressions hc)
        left.grows
    rw [expr_binExpr s hkind]
    exact left.binary right e e.operator?
  | parenExpr =>
    rw [expr_parenExpr s hkind]
    exact ⟨inner.grows, inner.size_le, inner.statements_eq⟩
  | _ => exact absurd hk (by simp [hkind, isExpr])
termination_by sizeOf e

/-- A statement takes the expression that has been read for it. -/
theorem Plants.tell (h : s.body.Grows []) (hp : s.Plants [] p) {x : Stmt} (hx : x.value = p.1) :
    Body.Grows ⟨p.2.exprs, p.2.statements.push x⟩ [] := by
  have hgrows : p.2.body.Grows (x.value :: []) := hx ▸ hp.grows
  refine hgrows.tell fun y hy => ?_
  have hy : y ∈ s.statements := hp.statements_eq ▸ hy
  have hy : y.value ∈ s.body.references :=
    List.mem_append_right _ (List.mem_map_of_mem (Array.mem_toList_iff.mpr hy))
  rw [hx]
  exact Nat.lt_of_lt_of_le (h.lt_size _ hy) hp.size_le

/-- **Reading a statement off any element leaves nothing loose.** -/
theorem grows_statement (h : s.body.Grows []) (hstmt : e.kind.isStmt = true) :
    (s.statement e).body.Grows [] := by
  rw [statement]
  split
  · cases e.definedName? with
    | none => exact h
    | some n =>
      have value : s.Plants [] (s.expr? e.inner?) := plants_part h fun c hc =>
        plants_expr c (Element.isExpr_of_inner? hc) h
      exact Plants.tell h value rfl
  · next hk => exact Plants.tell h (plants_expr e (isExpr_of_isStmt hstmt hk) h) rfl

/-- Reading statements off any elements leaves nothing loose. -/
theorem grows_foldl {es : List Element} (hes : ∀ e ∈ es, e.kind.isStmt = true)
    (h : s.body.Grows []) : (es.foldl statement s).body.Grows [] := by
  induction es generalizing s with
  | nil => exact h
  | cons e es ih =>
    obtain ⟨he, hes⟩ := List.forall_mem_cons.mp hes
    exact ih hes (grows_statement h he)

end Lowering

namespace Body

/-- **The body of any file grows until it is complete.** -/
theorem grows_ofFile (r : Element) : (ofFile r).Grows [] :=
  Lowering.grows_foldl (s := .empty) (fun _ he => (Element.mem_statements.mp he).2.2) grows_empty

/-! ## Nothing is lost -/

theorem length_operands_push (a : Array Expr) (x : Expr) :
    ((a.push x).toList.flatMap Expr.operands).length =
      (a.toList.flatMap Expr.operands).length + x.operands.length := by
  simp

/-- Entering a term leaves one expression behind that nothing refers to. -/
theorem length_operands_enter (t : Term) (a : Array Expr) :
    ((t.enter a).toList.flatMap Expr.operands).length + a.size + 1 =
      (a.toList.flatMap Expr.operands).length + (t.enter a).size := by
  induction t generalizing a with
  | missing | int | var => simp [Term.enter, Expr.operands, Nat.add_assoc]
  | unary op t ih =>
    have operand := ih a
    rw [Term.enter, length_operands_push, Array.size_push, Expr.operands, List.length_singleton]
    omega
  | binary op t u ih ih' =>
    have left := ih a
    have right := ih' (t.enter a)
    rw [Term.enter, length_operands_push, Array.size_push, Expr.operands, List.length_cons, List.length_singleton]
    omega

/-- A sentence refers to as many expressions as it enters. -/
theorem length_references_enter (b : Body) (s : Sentence) :
    (b.enter s).references.length + b.exprs.size = b.references.length + (b.enter s).exprs.size := by
  have := length_operands_enter s.value b.exprs
  simp only [references, enter, Array.toList_push, List.map_append, List.length_append, List.length_map,
    List.length_singleton]
  omega

theorem length_references_foldl (b : Body) (ss : List Sentence) :
    (ss.foldl enter b).references.length + b.exprs.size =
      b.references.length + (ss.foldl enter b).exprs.size := by
  induction ss generalizing b with
  | nil => rfl
  | cons s ss ih =>
    have first := length_references_enter b s
    have others := ih (b.enter s)
    rw [List.foldl_cons]
    omega

theorem length_references_ofSentences (ss : List Sentence) :
    (ofSentences ss).references.length = (ofSentences ss).exprs.size := by
  have hempty : (Body.mk #[] #[]).references = [] := rfl
  have h := length_references_foldl ⟨#[], #[]⟩ ss
  rwa [← ofSentences, hempty, List.length_nil, Nat.zero_add] at h

/-- **Every expression is referred to once** if the children of the file are tidy. -/
theorem references_perm_ofFile {r : Element} (h : ∀ c ∈ r.children, c.IsTidy) :
    (ofFile r).references.Perm (List.range (ofFile r).exprs.size) := by
  have hgrows := grows_ofFile r
  -- there are as many references as expressions, none twice, so they are all of them
  have hsubset : (ofFile r).references ⊆ List.range (ofFile r).exprs.size := fun id hid =>
    List.mem_range.mpr (hgrows.lt_size id hid)
  have hlength : (ofFile r).references.length = (ofFile r).exprs.size := by
    rw [ofFile_eq h, length_references_ofSentences]
  refine (List.subperm_of_subset hgrows.nodup hsubset).perm_of_length_le ?_
  rw [List.length_range]
  exact Nat.le_of_eq hlength.symm

end Body

end LosslessSyntax
