import LosslessSyntax.Body.Pretty
import Mathlib.Data.List.Forall2

/-!
# Proofs/Body/Term — bodies as trees

A body keeps its expressions in an arena, where operands are numbers.  A term is an expression with its
operands inside it, and a sentence a statement with its term.  Entering a term into an arena gives every
operand its number before what is made of it (`Term.enter`), so sentences have one body
(`Body.ofSentences`), and what is entered can be read off the arena again (`Denotes`): a body unfolds to
its sentences (`Body.Says.unfolded_eq`) and is written as they are (`Body.pretty_ofSentences`).
-/

namespace LosslessSyntax

/-- An expression with its operands inside it. -/
inductive Term
  | missing
  | int (value : Int)
  | var (name : Name)
  | unary (op : UnaryOperator) (operand : Term)
  | binary (op : Option BinaryOperator) (lhs rhs : Term)
  deriving DecidableEq, Repr, Inhabited

/-- A statement with its expression inside it. -/
inductive Sentence
  | define (name : Name) (value : Term)
  | expr (value : Term)
  deriving DecidableEq, Repr, Inhabited

/-! ## In writing -/

/-- The written form of a term. -/
def Term.render : Term → String
  | missing => "<missing>"
  | int n => Text.Integer.render n
  | var name => name.text
  | unary op t => "(" ++ op.symbol ++ t.render ++ ")"
  | binary op t u => "(" ++ t.render ++ " " ++ Body.symbol op ++ " " ++ u.render ++ ")"

/-- The line of a sentence. -/
def Sentence.render : Sentence → String
  | define name t => "let " ++ name.text ++ " = " ++ t.render ++ "\n"
  | expr t => t.render ++ "\n"

/-! ## In an arena -/

/-- The number of the expression that was entered last. -/
def lastId (a : Array Expr) : Nat := a.size - 1

theorem getElem?_push_of_eq_some {α : Type} {a : Array α} {id : Nat} {x : α} (h : a[id]? = some x)
    (y : α) : (a.push y)[id]? = some x := by
  have hlt : id < a.size := (Array.getElem?_eq_some_iff.mp h).1
  rw [Array.getElem?_push, if_neg (Nat.ne_of_lt hlt), h]

@[simp] theorem lastId_push (a : Array Expr) (x : Expr) : lastId (a.push x) = a.size := by
  simp [lastId]

namespace Term

/-- **Enters a term into an arena**: operands first, from left to right, the term itself last. -/
def enter : Term → Array Expr → Array Expr
  | missing, a => a.push .missing
  | int n, a => a.push (.int n)
  | var name, a => a.push (.var name)
  | unary op t, a => (t.enter a).push (.unary op (lastId (t.enter a)))
  | binary op t u, a =>
    (u.enter (t.enter a)).push (.binary op (lastId (t.enter a)) (lastId (u.enter (t.enter a))))

/-- Nothing is missing in a term. -/
def IsWhole : Term → Prop
  | missing => False
  | int _ | var _ => True
  | unary _ t => t.IsWhole
  | binary _ t u => t.IsWhole ∧ u.IsWhole

theorem size_lt_enter (t : Term) (a : Array Expr) : a.size < (t.enter a).size := by
  induction t generalizing a with
  | missing | int | var => simp [enter]
  | unary op t ih =>
    have := ih a
    simp only [enter, Array.size_push]
    omega
  | binary op t u ih ih' =>
    have := ih a
    have := ih' (t.enter a)
    simp only [enter, Array.size_push]
    omega

theorem lastId_enter_lt (t : Term) (a : Array Expr) : lastId (t.enter a) < (t.enter a).size := by
  have := t.size_lt_enter a
  simp only [lastId]
  omega

/-- What is in an arena stays there. -/
theorem getElem?_enter (t : Term) {a : Array Expr} {id : Nat} {x : Expr} (h : a[id]? = some x) :
    (t.enter a)[id]? = some x := by
  induction t generalizing a with
  | missing | int | var => exact getElem?_push_of_eq_some h _
  | unary op t ih => exact getElem?_push_of_eq_some (ih h) _
  | binary op t u ih ih' => exact getElem?_push_of_eq_some (ih' (ih h)) _

/-- **Something is missing in an arena** if it was missing before or is missing in what was entered. -/
theorem missing_mem_enter (t : Term) (a : Array Expr) :
    Expr.missing ∈ t.enter a ↔ Expr.missing ∈ a ∨ ¬t.IsWhole := by
  induction t generalizing a with
  | missing | int | var => simp [enter, IsWhole]
  | unary op t ih => simp [enter, IsWhole, ih]
  | binary op t u ih ih' => simp [enter, IsWhole, ih, ih', or_assoc, imp_iff_not_or]

end Term

/-! ## Reading an arena -/

/-- **An expression of an arena denotes a term**: unfolding its operands gives the term.  Operands have
smaller numbers. -/
inductive Denotes (a : Array Expr) : Nat → Term → Prop
  | missing {id : Nat} (h : a[id]? = some .missing) : Denotes a id .missing
  | int {id : Nat} {n : Int} (h : a[id]? = some (.int n)) : Denotes a id (.int n)
  | var {id : Nat} {name : Name} (h : a[id]? = some (.var name)) : Denotes a id (.var name)
  | unary {id e : Nat} {op : UnaryOperator} {t : Term} (h : a[id]? = some (.unary op e))
      (hlt : e < id) (operand : Denotes a e t) : Denotes a id (.unary op t)
  | binary {id l r : Nat} {op : Option BinaryOperator} {t u : Term}
      (h : a[id]? = some (.binary op l r)) (hl : l < id) (hr : r < id) (lhs : Denotes a l t)
      (rhs : Denotes a r u) : Denotes a id (.binary op t u)

theorem Denotes.lt_size {a : Array Expr} {id : Nat} {t : Term} (h : Denotes a id t) :
    id < a.size := by
  cases h <;> exact (Array.getElem?_eq_some_iff.mp (by assumption)).1

/-- An expression denotes the same in a larger arena. -/
theorem Denotes.mono {a b : Array Expr} {id : Nat} {t : Term} (h : Denotes a id t)
    (hab : ∀ {i : Nat} {x : Expr}, a[i]? = some x → b[i]? = some x) : Denotes b id t := by
  induction h with
  | missing h => exact .missing (hab h)
  | int h => exact .int (hab h)
  | var h => exact .var (hab h)
  | unary h hlt _ ih => exact .unary (hab h) hlt ih
  | binary h hl hr _ _ ih ih' => exact .binary (hab h) hl hr ih ih'

theorem Denotes.push {a : Array Expr} {id : Nat} {t : Term} (h : Denotes a id t) (x : Expr) :
    Denotes (a.push x) id t :=
  h.mono fun hi => getElem?_push_of_eq_some hi x

/-- **The term that was entered last can be read off the arena.** -/
theorem Term.denotes_enter (t : Term) (a : Array Expr) : Denotes (t.enter a) (lastId (t.enter a)) t := by
  have last : ∀ {b : Array Expr} {x : Expr}, (b.push x)[lastId (b.push x)]? = some x := by
    intro b x
    rw [lastId_push, Array.getElem?_push_size]
  induction t generalizing a with
  | missing => exact .missing last
  | int => exact .int last
  | var => exact .var last
  | unary op t ih =>
    refine .unary last ?_ ((ih a).push _)
    rw [enter, lastId_push]
    exact t.lastId_enter_lt a
  | binary op t u ih ih' =>
    have hl : lastId (t.enter a) < (u.enter (t.enter a)).size :=
      Nat.lt_trans (t.lastId_enter_lt a) (u.size_lt_enter _)
    refine .binary last ?_ ?_ (((ih a).mono u.getElem?_enter).push _) ((ih' _).push _)
    · rw [enter, lastId_push]
      exact hl
    · rw [enter, lastId_push]
      exact u.lastId_enter_lt _

/-- **The term that an expression of an arena unfolds to**, if all operands have smaller numbers than
what is made of them. -/
def termAt? (a : Array Expr) (id : ExprId) : Option Term :=
  match a[id]? with
  | none => none
  | some .missing => some .missing
  | some (.int n) => some (.int n)
  | some (.var name) => some (.var name)
  | some (.unary op e) => if _h : e < id then (termAt? a e).map (.unary op) else none
  | some (.binary op l r) =>
    if _h : l < id ∧ r < id then
      (termAt? a l).bind fun t => (termAt? a r).map fun u => .binary op t u
    else none
termination_by id
decreasing_by exacts [_h, _h.1, _h.2]

/-- An expression unfolds to the term that it denotes. -/
theorem Denotes.termAt?_eq {a : Array Expr} {id : ExprId} {t : Term} (h : Denotes a id t) :
    termAt? a id = some t := by
  induction h with
  | missing h | int h | var h => rw [termAt?, h]
  | unary h hlt _ ih => simp [termAt?, h, hlt, ih]
  | binary h hl hr _ _ ih ih' => simp [termAt?, h, hl, hr, ih, ih']

/-- What denotes a term is written as the term is. -/
theorem Denotes.renderExpr_eq {b : Body} {id : Nat} {t : Term} (h : Denotes b.exprs id t)
    {bound : Nat} (hlt : id < bound) : b.renderExpr bound id = t.render := by
  obtain ⟨bound, rfl⟩ := Nat.exists_eq_add_one_of_ne_zero (Nat.ne_zero_of_lt hlt)
  induction h generalizing bound with
  | missing h | int h | var h => simp only [Body.renderExpr, h, Term.render]
  | unary h hlt' _ ih =>
    simp only [Body.renderExpr, h, Term.render]
    obtain ⟨bound, rfl⟩ := Nat.exists_eq_add_one_of_ne_zero (n := bound) (by omega)
    rw [ih _ (by omega)]
  | binary h hl hr _ _ ih ih' =>
    simp only [Body.renderExpr, h, Term.render]
    obtain ⟨bound, rfl⟩ := Nat.exists_eq_add_one_of_ne_zero (n := bound) (by omega)
    rw [ih _ (by omega), ih' _ (by omega)]

/-! ## Bodies -/

/-- The expression that a sentence is about. -/
def Sentence.value : Sentence → Term
  | define _ t => t
  | expr t => t

/-- The statement of a sentence whose expression has a number. -/
def Sentence.stmt : Sentence → Nat → Stmt
  | define name _, id => .define name id
  | expr _, id => .expr id

/-- A statement of a body stands for a sentence. -/
def Sentence.StandsIn (b : Body) (x : Stmt) (s : Sentence) : Prop :=
  ∃ id, x = s.stmt id ∧ Denotes b.exprs id s.value

/-- The sentence that a statement unfolds to. -/
def Stmt.sentence? (a : Array Expr) : Stmt → Option Sentence
  | define name e => (termAt? a e).map (.define name)
  | expr e => (termAt? a e).map .expr

theorem Sentence.StandsIn.sentence?_eq {b : Body} {x : Stmt} {s : Sentence} (h : StandsIn b x s) :
    x.sentence? b.exprs = some s := by
  obtain ⟨id, rfl, hid⟩ := h
  cases s <;> exact congrArg (Option.map _) hid.termAt?_eq

theorem Sentence.StandsIn.renderStmt_eq {b : Body} {x : Stmt} {s : Sentence} (h : StandsIn b x s) :
    b.renderStmt x = s.render := by
  obtain ⟨id, rfl, hid⟩ := h
  cases s with
  | define name t => simp only [stmt, Body.renderStmt, render, hid.renderExpr_eq hid.lt_size, value]
  | expr t => simp only [stmt, Body.renderStmt, render, hid.renderExpr_eq hid.lt_size, value]

namespace Body

/-- Enters a sentence into a body. -/
def enter (b : Body) (s : Sentence) : Body :=
  ⟨s.value.enter b.exprs, b.statements.push (s.stmt (lastId (s.value.enter b.exprs)))⟩

/-- **The body of sentences**, entered one after the other. -/
def ofSentences (ss : List Sentence) : Body := ss.foldl enter ⟨#[], #[]⟩

/-- The statements of a body stand for sentences. -/
def Says (b : Body) (ss : List Sentence) : Prop :=
  List.Forall₂ (Sentence.StandsIn b) b.statements.toList ss

/-- What the statements of a body unfold to, one by one. -/
def unfolded (b : Body) : List (Option Sentence) := b.statements.toList.map (·.sentence? b.exprs)

/-- A body unfolds to what it says. -/
theorem Says.unfolded_eq {b : Body} {ss : List Sentence} (h : b.Says ss) :
    b.unfolded = ss.map some :=
  List.forall₂_eq_eq_eq ▸ List.forall₂_map_left_iff.mpr
    (List.forall₂_map_right_iff.mpr (h.imp fun _ _ hx => hx.sentence?_eq))

theorem Says.enter {b : Body} {ss : List Sentence} (h : b.Says ss) (s : Sentence) :
    (b.enter s).Says (ss ++ [s]) := by
  have kept : List.Forall₂ (Sentence.StandsIn (b.enter s)) b.statements.toList ss :=
    h.imp fun _ _ ⟨id, hx, hid⟩ => ⟨id, hx, hid.mono s.value.getElem?_enter⟩
  rw [Says, Body.enter, Array.toList_push]
  exact List.rel_append kept (.cons ⟨_, rfl, s.value.denotes_enter _⟩ .nil)

theorem says_foldl {b : Body} {ss : List Sentence} (h : b.Says ss) (rs : List Sentence) :
    (rs.foldl Body.enter b).Says (ss ++ rs) := by
  induction rs generalizing b ss with
  | nil => rwa [List.append_nil]
  | cons r rs ih =>
    rw [List.append_cons]
    exact ih (h.enter r)

/-- **The body of sentences says them.** -/
theorem says_ofSentences (ss : List Sentence) : (ofSentences ss).Says ss := by
  have h : (Body.mk #[] #[]).Says [] := .nil
  exact says_foldl h ss

/-- A body is written as what it says. -/
theorem Says.pretty_eq {b : Body} {ss : List Sentence} (h : b.Says ss) :
    b.pretty = String.join (ss.map Sentence.render) := by
  have hlines : b.statements.toList.map b.renderStmt = ss.map Sentence.render :=
    List.forall₂_eq_eq_eq ▸ List.forall₂_map_left_iff.mpr
      (List.forall₂_map_right_iff.mpr (h.imp fun _ _ hx => hx.renderStmt_eq))
  rw [pretty, hlines]

/-- **The body of sentences is written as they are**, one after the other. -/
theorem pretty_ofSentences (ss : List Sentence) :
    (ofSentences ss).pretty = String.join (ss.map Sentence.render) :=
  (says_ofSentences ss).pretty_eq

theorem missing_mem_foldl (b : Body) (ss : List Sentence) :
    Expr.missing ∈ (ss.foldl Body.enter b).exprs ↔
      Expr.missing ∈ b.exprs ∨ ∃ s ∈ ss, ¬s.value.IsWhole := by
  induction ss generalizing b with
  | nil => simp
  | cons s ss ih =>
    rw [List.foldl_cons, ih, enter, Term.missing_mem_enter]
    simp [or_assoc]

/-- Something is missing in the body of sentences if it is missing in one of them. -/
theorem missing_mem_ofSentences (ss : List Sentence) :
    Expr.missing ∈ (ofSentences ss).exprs ↔ ∃ s ∈ ss, ¬s.value.IsWhole := by
  simp [ofSentences, missing_mem_foldl]

end Body

end LosslessSyntax
