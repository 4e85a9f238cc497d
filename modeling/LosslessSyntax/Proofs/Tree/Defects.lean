import LosslessSyntax.Proofs.Grammar.Complaints
import LosslessSyntax.Proofs.Tree.Parts
import Mathlib.Data.Multiset.MapFold

/-!
# Proofs/Tree/Defects — what is wrong with a tree

A tree has a defect where a node lacks a part, and where a word was skipped between two statements.
The defects can be counted off the tree, part by part; for a node that has its shape they are what is
lacking among its parts (`Element.missing_eq`).
-/

namespace LosslessSyntax

open SyntaxKind

namespace Element

/-! ## Nodes that lack a part -/

/-- Whether a node is a definition without a name. -/
def lacksName (e : Element) : Bool := e.kind == variableDef && e.definedName?.isNone

/-- Whether a node is a definition without an equals sign. -/
def lacksEquals (e : Element) : Bool := e.kind == variableDef && (e.firstWord? (· == eq)).isNone

/-- Whether a node is a parenthesis that is not closed. -/
def lacksClosing (e : Element) : Bool := e.kind == parenExpr && (e.firstWord? (· == rParen)).isNone

/-- Whether a node is a definition without a value, an operation that has not all its operands, or a
parenthesis around nothing. -/
def lacksExpression (e : Element) : Bool :=
  match e.kind with
  | variableDef | prefixExpr | parenExpr => e.inner?.isNone
  | binExpr => e.rhs?.isNone
  | _ => false

/-- What is missing in a node. -/
def missing (e : Element) : List Complaint :=
  (if e.lacksName then [.expectedName] else []) ++ (if e.lacksEquals then [.expected eq] else []) ++
  (if e.lacksExpression then [.expectedExpression] else []) ++
  (if e.lacksClosing then [.expected rParen] else [])

/-! ## Nodes over a skipped word -/

/-- Whether a node holds a closing parenthesis that was skipped. -/
def skipsParen (e : Element) : Bool := e.kind == .error && (e.firstWord? (· == rParen)).isSome

/-- Whether a node holds another token that was skipped. -/
def skipsOther (e : Element) : Bool :=
  e.kind == .error && (e.firstWord? fun k => !k.isTrivia && k != rParen).isSome

/-- What is wrong with the words skipped in a node that stands between statements. -/
def skipped (e : Element) : List Complaint :=
  (if e.skipsParen then [.unmatchedParen] else []) ++
  (if e.skipsOther then [.expectedExpression] else [])

end Element

/-! ## Defects -/

/-- What is wrong with a tree, and the part of the text where it is. -/
structure Defect where
  place : TextRange
  complaint : Complaint
  deriving DecidableEq, Repr

/-- **An error reports a defect**: it is the same complaint, about a place inside. -/
structure Defect.ReportedBy (d : Defect) (e : SyntaxError) : Prop where
  complaint_eq : e.complaint = d.complaint
  start_le : d.place.start ≤ e.location.start
  le_stop : e.location.stop ≤ d.place.stop

/-- **Errors report defects one to one**, in any order. -/
def ReportedOneToOne (ds : List Defect) (es : List SyntaxError) : Prop :=
  Multiset.Rel Defect.ReportedBy ds es

/-- Complaints about one place. -/
def defectsAt (place : TextRange) (cs : List Complaint) : List Defect := cs.map (Defect.mk place)

theorem defectsAt_append (place : TextRange) (cs cs' : List Complaint) :
    defectsAt place (cs ++ cs') = defectsAt place cs ++ defectsAt place cs' :=
  List.map_append

/-- What is wrong with some elements, each in its place. -/
def defectsIn (f : Element → List Complaint) (es : List Element) : List Defect :=
  es.flatMap fun e => defectsAt e.range (f e)

theorem defectsIn_append (f : Element → List Complaint) (es fs : List Element) :
    defectsIn f (es ++ fs) = defectsIn f es ++ defectsIn f fs :=
  List.flatMap_append

/-- Defects of one sort are counted element by element. -/
theorem countP_defectsIn_cons (f : Element → List Complaint) (p : Complaint → Bool) (e : Element)
    (es : List Element) : (defectsIn f (e :: es)).countP (p ·.complaint) =
      (f e).countP p + (defectsIn f es).countP (p ·.complaint) := by
  have hplace : (defectsAt e.range (f e)).countP (p ·.complaint) = (f e).countP p := List.countP_map
  rw [defectsIn, List.flatMap_cons, List.countP_append, hplace, defectsIn]

/-- **The defects of a tree**: what is missing in its nodes, and what was skipped between its
statements. -/
def defects (r : Element) : List Defect :=
  defectsIn Element.missing r.nodes ++ defectsIn Element.skipped r.childNodes

namespace ReportedOneToOne

variable {ds ds' : List Defect} {es es' : List SyntaxError}

theorem nil : ReportedOneToOne [] [] := .zero

theorem perm (h : ReportedOneToOne ds es) (hp : ds.Perm ds') : ReportedOneToOne ds' es := by
  rwa [ReportedOneToOne, ← Multiset.coe_eq_coe.mpr hp]

theorem append (h : ReportedOneToOne ds es) (h' : ReportedOneToOne ds' es') :
    ReportedOneToOne (ds ++ ds') (es ++ es') := by
  rw [ReportedOneToOne, ← Multiset.coe_add, ← Multiset.coe_add]
  exact Multiset.Rel.add h h'

/-- A defect is reported if it is in some larger part of the text. -/
theorem widen {place place' : TextRange} {cs : List Complaint}
    (h : ReportedOneToOne (defectsAt place cs ++ ds) es) (hp : place'.contains place = true) :
    ReportedOneToOne (defectsAt place' cs ++ ds) es := by
  obtain ⟨hstart, hstop⟩ := of_decide_eq_true hp
  rw [ReportedOneToOne, ← Multiset.coe_add, defectsAt, ← Multiset.map_coe] at h ⊢
  obtain ⟨as, bs, has, hbs, heq⟩ := Multiset.rel_add_left.mp h
  rw [heq]
  refine .add ?_ hbs
  rw [Multiset.rel_map_left] at has ⊢
  refine has.mono fun c _ e _ hd => ⟨hd.complaint_eq, Nat.le_trans hstart hd.start_le,
    Nat.le_trans hd.le_stop hstop⟩

/-- Defects of two sorts in two parts of the text. -/
theorem interchange {cs cs' : List Defect} (h : ReportedOneToOne (cs ++ ds) es)
    (h' : ReportedOneToOne (cs' ++ ds') es') :
    ReportedOneToOne ((cs ++ cs') ++ (ds ++ ds')) (es ++ es') := by
  refine (h.append h').perm ?_
  rw [List.append_assoc, List.append_assoc]
  exact (List.perm_append_comm_assoc ..).append_left cs

/-- If there are no errors, there are no defects. -/
theorem eq_nil (h : ReportedOneToOne ds []) : ds = [] :=
  Multiset.coe_eq_zero _ |>.mp (Multiset.rel_zero_right.mp h)

/-- Defects among others have errors of their own. -/
theorem of_subperm (h : ReportedOneToOne ds es) (hsub : ds'.Subperm ds) :
    ∃ es', es'.Subperm es ∧ ReportedOneToOne ds' es' := by
  obtain ⟨others, hds⟩ := Multiset.le_iff_exists_add.mp (Multiset.coe_le.mpr hsub)
  rw [ReportedOneToOne, hds] at h
  obtain ⟨fs, gs, hfs, -, heq⟩ := Multiset.rel_add_left.mp h
  obtain ⟨es', rfl⟩ := Quot.exists_rep fs
  exact ⟨es', Multiset.coe_le.mp (Multiset.le_iff_exists_add.mpr ⟨gs, heq⟩), hfs⟩

/-- The errors complain about what the defects are. -/
theorem map_complaint (h : ReportedOneToOne ds es) :
    (es.map SyntaxError.complaint).Perm (ds.map Defect.complaint) := by
  have heq : Multiset.Rel (· = ·) (Multiset.map Defect.complaint ds)
      (Multiset.map SyntaxError.complaint es) :=
    Multiset.rel_map.mpr (Multiset.Rel.mono h fun _ _ _ _ hd => hd.complaint_eq.symm)
  rw [Multiset.rel_eq, Multiset.map_coe, Multiset.map_coe, Multiset.coe_eq_coe] at heq
  exact heq.symm

/-- Errors are of one sort as often as defects are. -/
theorem countP_eq (h : ReportedOneToOne ds es) (p : Complaint → Bool) :
    es.countP (p ·.complaint) = ds.countP (p ·.complaint) := by
  have hperm := h.map_complaint.countP_eq p
  rwa [List.countP_map, List.countP_map] at hperm

end ReportedOneToOne

namespace Element

/-! ## Counting what is wrong -/

theorem countP_ite (p : Complaint → Bool) (b : Bool) (c : Complaint) :
    (if b then [c] else []).countP p = if b && p c then 1 else 0 := by
  cases b <;> simp [List.countP_cons]

/-- What is missing in some nodes, sort by sort. -/
theorem countP_missing (p : Complaint → Bool) (es : List Element) :
    (defectsIn missing es).countP (p ·.complaint) =
      es.countP (fun e => e.lacksName && p .expectedName) +
      es.countP (fun e => e.lacksEquals && p (.expected eq)) +
      es.countP (fun e => e.lacksExpression && p .expectedExpression) +
      es.countP (fun e => e.lacksClosing && p (.expected rParen)) := by
  induction es with
  | nil => rfl
  | cons e es ih =>
    rw [countP_defectsIn_cons, ih, missing]
    simp only [List.countP_append, countP_ite, List.countP_cons]
    omega

/-- What was skipped in some nodes, sort by sort. -/
theorem countP_skipped (p : Complaint → Bool) (es : List Element) :
    (defectsIn skipped es).countP (p ·.complaint) =
      es.countP (fun e => e.skipsParen && p .unmatchedParen) +
      es.countP (fun e => e.skipsOther && p .expectedExpression) := by
  induction es with
  | nil => rfl
  | cons e es ih =>
    rw [countP_defectsIn_cons, ih, skipped]
    simp only [List.countP_append, countP_ite, List.countP_cons]
    omega

/-! ## What is lacking among the parts -/

variable {e : Element}

theorem part_node_mem {k : SyntaxKind} :
    .node k ∈ e.parts ↔ ∃ c ∈ e.childNodes, c.kind = k := by
  simp only [parts, solid, childNodes, List.mem_map, List.mem_filter]
  refine exists_congr fun c => ?_
  cases c <;> simp [part, kind]

theorem part_word_mem {k : SyntaxKind} :
    .word k ∈ e.parts ↔ k.isTrivia = false ∧ ∃ c ∈ e.childWords, c.kind = k := by
  simp only [parts, solid, childWords, List.mem_map, List.mem_filter]
  rw [← exists_and_left]
  refine exists_congr fun c => ?_
  cases c with
  | word k' start text =>
    simp only [part, kind, isNode, isTrivia, Part.word.injEq, Bool.not_eq_true', and_true]
    constructor
    · rintro ⟨⟨hmem, ht⟩, rfl⟩
      exact ⟨ht, hmem, rfl⟩
    · rintro ⟨ht, hmem, rfl⟩
      exact ⟨⟨hmem, ht⟩, rfl⟩
  | node => simp [part]

theorem isSome_firstNode?_iff {k : SyntaxKind} :
    (e.firstNode? (· == k)).isSome = true ↔ .node k ∈ e.parts := by
  rw [firstNode?, List.find?_isSome, part_node_mem]
  simp only [beq_iff_eq]

theorem isSome_firstWord?_iff {p : SyntaxKind → Bool} (hp : ∀ k, p k = true → k.isTrivia = false) :
    (e.firstWord? p).isSome = true ↔ ∃ k, .word k ∈ e.parts ∧ p k = true := by
  rw [firstWord?, List.find?_isSome]
  constructor
  · rintro ⟨c, hc, hpc⟩
    exact ⟨c.kind, part_word_mem.mpr ⟨hp _ hpc, c, hc, rfl⟩, hpc⟩
  · rintro ⟨k, hk, hpk⟩
    obtain ⟨-, c, hc, rfl⟩ := part_word_mem.mp hk
    exact ⟨c, hc, hpk⟩

theorem isSome_firstWord?_of_kind {k : SyntaxKind} (hk : k.isTrivia = false) :
    (e.firstWord? (· == k)).isSome = true ↔ .word k ∈ e.parts := by
  have hp : ∀ l : SyntaxKind, (l == k) = true → l.isTrivia = false := by
    intro l hl
    rw [eq_of_beq hl, hk]
  rw [isSome_firstWord?_iff hp]
  simp only [beq_iff_eq, exists_eq_right]

/-- There are as many expressions in a node as among its parts. -/
theorem length_expressions (e : Element) :
    e.expressions.length = e.parts.countP Part.isExpression := by
  rw [expressions_eq, ← List.countP_eq_length_filter, parts, List.countP_map]
  exact List.countP_congr fun c _ => by cases c <;> simp [isExpression, part, Part.isExpression, kind]

theorem isSome_inner?_iff : e.inner?.isSome = true ↔ e.parts.any Part.isExpression = true := by
  rw [inner?_eq, isSome_getElem?, length_expressions, List.countP_pos_iff, List.any_eq_true]

theorem IsOrdered.isSome_rhs?_iff (h : e.IsOrdered) (shaped : e.IsShaped) (hk : e.kind = binExpr) :
    e.rhs?.isSome = true ↔ 2 ≤ e.parts.countP Part.isExpression := by
  rw [(h.operands_of_binExpr shaped hk).2, isSome_getElem?, length_expressions, Nat.succ_le_iff]

theorem ite_isNone {α : Type} {x : Option α} {p : Prop} [Decidable p] (h : x.isSome = true ↔ p)
    (c : Complaint) : (if x.isNone then [c] else []) = if p then [] else [c] := by
  rw [← if_congr h rfl rfl]
  cases x <;> rfl

/-- **What is missing in a node is what is lacking among its parts.** -/
theorem missing_eq (shaped : e.IsShaped) (ordered : e.IsOrdered) :
    e.missing = lacking e.kind e.parts := by
  have hname := ite_isNone (isSome_firstNode?_iff (e := e) (k := .name)) .expectedName
  have hequals := ite_isNone (isSome_firstWord?_of_kind (e := e) (k := eq) rfl) (.expected eq)
  have hinner := ite_isNone (isSome_inner?_iff (e := e)) .expectedExpression
  have hrhs := fun hk => ite_isNone (ordered.isSome_rhs?_iff shaped hk) .expectedExpression
  have hclosing := ite_isNone (isSome_firstWord?_of_kind (e := e) (k := rParen) rfl) (.expected rParen)
  have hkind : ∀ k, e.kind = k → e.missing = lacking k e.parts := by
    intro k hk
    simp only [missing, lacksName, lacksEquals, lacksExpression, lacksClosing, definedName?, hk]
    cases k with
    | variableDef =>
      simp only [lacking, ← hname, ← hequals, ← hinner]
      exact List.append_nil _
    | prefixExpr =>
      simp only [lacking, ← hinner]
      exact List.append_nil _
    | parenExpr =>
      simp only [lacking, ← hinner, ← hclosing]
      rfl
    | binExpr =>
      simp only [lacking, ← hrhs hk]
      exact List.append_nil _
    | _ => rfl
  exact hkind _ rfl

theorem skipped_of_ne_error (h : e.kind ≠ .error) : e.skipped = [] := by
  simp [skipped, skipsParen, skipsOther, h]

/-- **What is wrong with a word skipped between statements** is seen from its kind. -/
theorem skipped_eq (hk : e.kind = .error) {kind : SyntaxKind} (hparts : e.parts = [.word kind]) :
    e.skipped = [skipping kind] := by
  have htrivia : kind.isTrivia = false := (part_word_mem.mp (hparts ▸ List.mem_singleton_self _)).1
  have hparen : e.skipsParen = true ↔ kind = rParen := by
    rw [skipsParen, hk, BEq.rfl, Bool.true_and, isSome_firstWord?_of_kind rfl, hparts]
    simp [eq_comm]
  have hother : e.skipsOther = true ↔ kind ≠ rParen := by
    rw [skipsOther, hk, BEq.rfl, Bool.true_and,
      isSome_firstWord?_iff fun k h => (Bool.not_eq_true' _).mp (Bool.and_eq_true_iff.mp h).1, hparts]
    simp [htrivia]
  rw [skipped, if_congr hparen rfl rfl, if_congr hother rfl rfl, skipping]
  by_cases h : kind = rParen
  · rw [if_pos h, if_neg (not_not_intro h), if_pos h]
    rfl
  · rw [if_neg h, if_pos h, if_neg h]
    rfl

end Element

end LosslessSyntax
