import LosslessSyntax.Proofs.Grammar.Schema
import LosslessSyntax.Proofs.Tree.Shape

/-!
# Proofs/Grammar/Complaints — a complaint for every place that stays empty

Each place of a node is filled, or the grammar remarks that it is empty, once (`Place`).  The remark
stands in the node itself or in the error node with which a word was skipped, so the remarks of a node
can be told from its kind and its parts (`Made.remarks_eq`), however deeply nodes with empty places are
nested.
-/

namespace LosslessSyntax

open SyntaxKind

/-- Whether a part is an expression. -/
def Part.isExpression : Part → Bool
  | word _ => false
  | node kind => kind.isExpr

/-- **What is missing in a node** of a kind with some parts, in the order of its places. -/
def lacking : SyntaxKind → List Part → List Complaint
  | variableDef, ps =>
      (if .node name ∈ ps then [] else [.expectedName]) ++
      (if .word eq ∈ ps then [] else [.expected eq]) ++
      (if ps.any Part.isExpression then [] else [.expectedExpression])
  | prefixExpr, ps => if ps.any Part.isExpression then [] else [.expectedExpression]
  | parenExpr, ps =>
      (if ps.any Part.isExpression then [] else [.expectedExpression]) ++
      (if .word rParen ∈ ps then [] else [.expected rParen])
  | binExpr, ps => if 2 ≤ ps.countP Part.isExpression then [] else [.expectedExpression]
  | _, _ => []

/-- The complaint with which a word is skipped between statements. -/
def skipping (kind : SyntaxKind) : Complaint :=
  if kind = rParen then .unmatchedParen else .expectedExpression

theorem ne_error_of_isExpr {kind : SyntaxKind} (h : kind.isExpr = true) : kind ≠ .error := by
  rintro rfl
  exact absurd h (by decide)

namespace Outline

/-- What an outline remarks about the node it stands in: a complaint, and the complaint with which a
word was skipped. -/
def remarks : Outline → List Complaint
  | word _ => []
  | error c => [c]
  | node kind os => if kind = .error then complaintsAll os else []

@[simp] theorem remarks_word (l : Lexeme) : (word l).remarks = [] := rfl

@[simp] theorem remarks_error (c : Complaint) : (error c).remarks = [c] := rfl

@[simp] theorem remarks_skipped (os : List Outline) : (node .error os).remarks = complaintsAll os :=
  by rw [remarks, if_pos rfl]

theorem remarks_node {kind : SyntaxKind} (h : kind ≠ .error) (os : List Outline) :
    (node kind os).remarks = [] :=
  if_neg h

end Outline

namespace Grammar

open Outline

/-! ## One place -/

/-- **A place of a node is filled**, or it is empty and there is one remark about it. -/
inductive Place (c : Complaint) (fits : Part → Prop) (os : List Outline) : Prop
  | filled {p : Part} (parts : os.filterMap part? = [p]) (fit : fits p)
      (quiet : os.flatMap remarks = [])
  | empty (parts : os.filterMap part? = [] ∨ os.filterMap part? = [.node error])
      (remark : os.flatMap remarks = [c])

section Places

variable {ls ws rest : List Lexeme} {os : List Outline} {fits : Part → Prop}

theorem place_of_recovery {c : Complaint} {stops : KindSet} (h : recovery c stops ls = (os, rest)) :
    Place c fits os := by
  cases ls with
  | nil =>
    obtain ⟨rfl, rfl⟩ := Prod.mk.inj h
    exact .empty (.inl rfl) rfl
  | cons l ls =>
    rw [recovery] at h
    split at h <;> obtain ⟨rfl, rfl⟩ := Prod.mk.inj h
    · exact .empty (.inl rfl) rfl
    · exact .empty (.inr rfl) (by simp)

theorem place_of_expectation {kind : SyntaxKind} (h : expectation kind ls = (os, rest)) :
    Place (.expected kind) (· = .word kind) os := by
  cases ls with
  | nil =>
    obtain ⟨rfl, rfl⟩ := Prod.mk.inj h
    exact .empty (.inl rfl) rfl
  | cons l ls =>
    rw [expectation] at h
    split at h <;> obtain ⟨rfl, rfl⟩ := Prod.mk.inj h
    · next hl => exact .filled rfl (congrArg Part.word hl) rfl
    · exact .empty (.inl rfl) rfl

theorem place_of_naming (h : naming ls = (os, rest)) :
    Place .expectedName (· = .node name) os := by
  cases ls with
  | nil =>
    rw [naming] at h
    exact place_of_recovery h
  | cons l ls =>
    rw [naming] at h
    split at h
    · obtain ⟨rfl, rfl⟩ := Prod.mk.inj h
      exact .filled rfl rfl rfl
    · exact place_of_recovery h

/-- What an expression was looked for but not found in is a recovery. -/
theorem Reads.exists_recovery {power : Nat} (h : Reads (.expression power) ls (.missed os) rest) :
    recovery .expectedExpression expressionStops ls = (os, rest) := by
  cases h with
  | absent first =>
    cases first with
    | missing _ recover => exact recover
  | present _ more =>
    obtain ⟨o, ho⟩ := more.found_of_operations
    exact absurd ho (by simp)

theorem Reads.place {power : Nat} {x : Outcome} (h : Reads (.expression power) ls x rest) :
    Place .expectedExpression (·.isExpression = true) x.items := by
  cases x with
  | missed os => exact place_of_recovery h.exists_recovery
  | found o =>
    obtain ⟨kind, qs, rfl, hk⟩ :=
      exists_node_of_isExpression (h.isExpression (List.forall_mem_nil _) o rfl)
    exact .filled rfl hk (by simp [remarks_node (ne_error_of_isExpr hk)])

/-! ## All places of a node -/

/-- In a place stands what fits it, or what was skipped. -/
theorem Place.mem {c : Complaint} (h : Place c fits os) :
    ∀ p ∈ os.filterMap part?, fits p ∨ p = .node .error := by
  obtain ⟨parts, fit, -⟩ | ⟨parts, -⟩ := h
  · simpa [parts] using Or.inl fit
  · rcases parts with parts | parts <;> simp [parts]

/-- The remark about a place for one kind of part. -/
theorem Place.remark_of_part {c : Complaint} {p : Part} (h : Place c (· = p) os)
    (hp : p ≠ .node .error) :
    os.flatMap remarks = if p ∈ os.filterMap part? then [] else [c] := by
  obtain ⟨parts, rfl, quiet⟩ | ⟨parts, remark⟩ := h
  · simp [parts, quiet]
  · rcases parts with parts | parts <;> simp [parts, remark, hp]

/-- The remark about the place of an expression. -/
theorem Place.remark_of_expression {c : Complaint} (h : Place c (·.isExpression = true) os) :
    os.flatMap remarks = if (os.filterMap part?).any Part.isExpression then [] else [c] := by
  obtain ⟨parts, fit, quiet⟩ | ⟨parts, remark⟩ := h
  · simp [parts, quiet, fit]
  · rcases parts with parts | parts <;> simp [parts, remark, Part.isExpression, isExpr]

theorem Place.notMem {c : Complaint} {p : Part} (h : Place c fits os) (hp : ¬fits p)
    (hne : p ≠ .node .error) : p ∉ os.filterMap part? :=
  fun hmem => (h.mem p hmem).elim hp hne

theorem Place.no_expression {c : Complaint} (h : Place c fits os)
    (hfits : ∀ p, fits p → p.isExpression = false) :
    (os.filterMap part?).any Part.isExpression = false := by
  refine List.any_eq_false.mpr fun p hp => Bool.eq_false_iff.mp ?_
  obtain hp | rfl := h.mem p hp
  · exact hfits p hp
  · rfl

theorem quiet_of_isExpression {o : Outline} (h : IsExpression o) :
    o.remarks = [] ∧ ∃ p, o.part? = some p ∧ p.isExpression = true := by
  obtain ⟨kind, qs, rfl, hk⟩ := exists_node_of_isExpression h
  exact ⟨remarks_node (ne_error_of_isExpr hk) qs, _, rfl, hk⟩

/-- Behind one expression and a word there is a second one if there is any. -/
theorem two_le_countP_isExpression {p : Part} (hp : p.isExpression = true) (kind : SyntaxKind)
    (ps : List Part) : 2 ≤ (p :: .word kind :: ps).countP Part.isExpression ↔
      ps.any Part.isExpression = true := by
  rw [List.countP_cons_of_pos hp, List.countP_cons_of_neg Bool.false_ne_true, Nat.succ_le_succ_iff,
    List.one_le_countP_iff, List.any_eq_true]

theorem filterMap_part?_word (l : Lexeme) (os : List Outline) :
    (word l :: os).filterMap part? = .word l.kind :: os.filterMap part? := rfl

/-- **What is remarked in a node is what is missing in it**; about a word that was skipped there is a
remark for the node around it. -/
theorem Made.remarks_eq {kind : SyntaxKind} (h : Made kind os ws) :
    (node kind os).remarks ++ lacking kind (os.filterMap part?) = os.flatMap remarks := by
  cases h with
  | number | reference | name => rfl
  | negation hl inner =>
    rw [remarks_node (by decide), filterMap_part?_word, List.flatMap_cons, remarks_word,
      inner.place.remark_of_expression]
    rfl
  | parenthesised hl inner close =>
    have hclose := place_of_expectation close
    have hword := inner.place.notMem (p := .word rParen) Bool.false_ne_true Part.noConfusion
    have hnone := hclose.no_expression (by rintro _ rfl; rfl)
    rw [remarks_node (by decide), filterMap_part?_word, List.flatMap_cons, remarks_word,
      List.flatMap_append, List.filterMap_append, inner.place.remark_of_expression,
      hclose.remark_of_part Part.noConfusion]
    simp only [lacking, List.any_cons, List.any_append, List.mem_cons, List.mem_append, hnone, hword,
      hl, Part.isExpression, Part.word.injEq, reduceCtorEq, Bool.false_or, Bool.or_false, false_or,
      List.nil_append]
  | operation hleft hop inner =>
    obtain ⟨quiet, p, hp, hexpr⟩ := quiet_of_isExpression hleft
    rw [remarks_node (by decide), List.filterMap_cons_some hp, filterMap_part?_word, List.flatMap_cons,
      List.flatMap_cons, quiet, remarks_word, inner.place.remark_of_expression]
    exact if_congr (two_le_countP_isExpression hexpr _ _) rfl rfl
  | definition hl named equals value =>
    have hname := place_of_naming named
    have hequals := place_of_expectation equals
    rw [remarks_node (by decide), filterMap_part?_word, List.flatMap_cons, remarks_word,
      List.flatMap_append, List.flatMap_append, List.filterMap_append, List.filterMap_append,
      hname.remark_of_part (by simp), hequals.remark_of_part (by simp),
      value.place.remark_of_expression]
    simp only [lacking, List.any_cons, List.any_append, List.mem_cons, List.mem_append, hl,
      hname.no_expression (by rintro _ rfl; rfl), hequals.no_expression (by rintro _ rfl; rfl),
      hname.notMem (p := .word eq) (by simp) (by simp),
      hequals.notMem (p := .node .name) (by simp) (by simp),
      value.place.notMem (p := .node .name) (by simp [Part.isExpression, isExpr]) (by simp),
      value.place.notMem (p := .word eq) (by simp [Part.isExpression]) (by simp),
      Part.isExpression, Part.word.injEq, reduceCtorEq, Bool.false_or, false_or, or_false,
      List.nil_append, List.append_assoc]
  | skipped | unmatched => rw [remarks_skipped]; rfl

/-! ## Between statements -/

/-- What stands between the statements of a file: a word or a node about which there is no remark, or a
word that was skipped. -/
inductive Between : Outline → Prop
  | word (l : Lexeme) : Between (.word l)
  | node {kind : SyntaxKind} (h : kind ≠ .error) (os : List Outline) : Between (.node kind os)
  | skipped (l : Lexeme) : Between (.node .error [.error (skipping l.kind), .word l])

theorem between_of_isExpression {o : Outline} (h : IsExpression o) : Between o := by
  obtain ⟨kind, qs, rfl, hk⟩ := exists_node_of_isExpression h
  exact .node (ne_error_of_isExpr hk) qs

theorem ReadsFile.between (h : ReadsFile ls os) : ∀ o ∈ os, Between o := by
  induction h with
  | nil => exact List.forall_mem_nil _
  | separator _ _ ih => exact List.forall_mem_cons.mpr ⟨.word _, ih⟩
  | @unmatched l _ _ hl _ ih =>
    have hskip : skipping l.kind = .unmatchedParen := if_pos hl
    exact List.forall_mem_cons.mpr ⟨hskip ▸ .skipped l, ih⟩
  | definition _ _ _ _ _ ih => exact List.forall_mem_cons.mpr ⟨.node (by decide) _, ih⟩
  | @expression l _ _ _ x hl value _ ih =>
    refine List.forall_mem_append.mpr ⟨?_, ih⟩
    cases x with
    | found o =>
      refine List.forall_mem_singleton.mpr (between_of_isExpression ?_)
      exact value.isExpression (List.forall_mem_nil _) _ rfl
    | missed ps =>
      have hparen : l.kind ≠ rParen := by
        intro hk
        rw [hk] at hl
        exact absurd hl (by decide)
      have hskip : skipping l.kind = .expectedExpression := if_neg hparen
      have hrec := value.exists_recovery
      rw [recovery, if_neg (by simp [hl])] at hrec
      obtain ⟨rfl, -⟩ := Prod.mk.inj hrec
      exact List.forall_mem_singleton.mpr (hskip ▸ .skipped l)

/-! ## All complaints -/

/-- **What the grammar may complain about.** -/
def repertoire : List Complaint :=
  [.expected eq, .expected rParen, .expectedName, .expectedExpression, .unmatchedParen]

theorem complaintsAll_expectation {kind : SyntaxKind} (h : expectation kind ls = (os, rest)) :
    complaintsAll os ⊆ [.expected kind] := by
  rcases ls with _ | ⟨l, ls⟩
  · obtain ⟨rfl, rfl⟩ := Prod.mk.inj h
    simp
  · rw [expectation] at h
    split at h <;> obtain ⟨rfl, rfl⟩ := Prod.mk.inj h <;> simp

theorem complaintsAll_naming (h : naming ls = (os, rest)) : complaintsAll os ⊆ [.expectedName] := by
  rcases ls with _ | ⟨l, ls⟩
  · rw [naming] at h
    rw [complaintsAll_recovery h]
    exact List.Subset.refl _
  · rw [naming] at h
    split at h
    · obtain ⟨rfl, rfl⟩ := Prod.mk.inj h
      simp
    · rw [complaintsAll_recovery h]
      exact List.Subset.refl _

theorem Reads.complaintsAll_subset {g : Goal} {x : Outcome} (h : Reads g ls x rest)
    (hbefore : complaintsAll g.before ⊆ repertoire) : complaintsAll x.items ⊆ repertoire := by
  induction h with
  | number | reference => simp
  | negation _ _ ih => simpa using ih (List.nil_subset _)
  | parenthesised _ _ close ih =>
    have hclose : complaintsAll _ ⊆ repertoire :=
      List.Subset.trans (complaintsAll_expectation close) (by simp [repertoire])
    simpa using ⟨ih (List.nil_subset _), hclose⟩
  | missing _ recover =>
    rw [Outcome.items_missed, complaintsAll_recovery recover]
    simp [repertoire]
  | done => exact hbefore
  | operation _ _ _ _ ih ih' =>
    refine ih' ?_
    simpa [Goal.before] using ⟨by simpa [Goal.before] using hbefore, ih (List.nil_subset _)⟩
  | absent _ ih => exact ih (List.nil_subset _)
  | present _ _ ih ih' => exact ih' (ih (List.nil_subset _))

/-- **The grammar complains about nothing else.** -/
theorem ReadsFile.complaintsAll_subset (h : ReadsFile ls os) : complaintsAll os ⊆ repertoire := by
  induction h with
  | nil => simp
  | separator _ _ ih => simpa using ih
  | unmatched _ _ ih => simpa [repertoire] using ih
  | definition _ named equals value _ ih =>
    have hname : complaintsAll _ ⊆ repertoire :=
      List.Subset.trans (complaintsAll_naming named) (by simp [repertoire])
    have hequals : complaintsAll _ ⊆ repertoire :=
      List.Subset.trans (complaintsAll_expectation equals) (by simp [repertoire])
    have hvalue := value.complaintsAll_subset (List.nil_subset _)
    simpa using ⟨hname, hequals, hvalue, ih⟩
  | expression _ value _ ih =>
    simpa using ⟨value.complaintsAll_subset (List.nil_subset _), ih⟩

end Places

end Grammar

end LosslessSyntax
