import LosslessSyntax.Proofs.Event.Describing
import LosslessSyntax.Proofs.Lexeme.Number
import LosslessSyntax.Proofs.Tree.Sinking
import LosslessSyntax.Proofs.Tree.Words

/-!
# Proofs/Tree/Realising — a sink builds the tree that its calls describe

Calls that describe one tree are the calls of an outline, over the words of a text if there are as many,
and a sink plants outlines.  The tree it builds is the one described once the trivia is taken out
(`SyntaxTree.calls`), and the trivia is in its place, since a planted node has none at its ends.
-/

namespace LosslessSyntax

open Lexeme (significant tokenize)
open SyntaxTree (leaf)

namespace Call

/-- The complaint that a call makes. -/
def complaint? : Call → Option Complaint
  | error c => some c
  | start _ | token | finish => none

@[simp] theorem complaint?_start (kind : SyntaxKind) : (start kind).complaint? = none := rfl

@[simp] theorem complaint?_token : token.complaint? = none := rfl

@[simp] theorem complaint?_finish : finish.complaint? = none := rfl

@[simp] theorem complaint?_error (c : Complaint) : (error c).complaint? = some c := rfl

end Call

section Errors

variable (es : List Complaint)

theorem count_token_map_error : (es.map Call.error).count .token = 0 := by
  simp [List.count_eq_zero]

theorem filter_map_error : (es.map Call.error).filter (·.complaint?.isNone) = [] := by
  simp [List.filter_eq_nil_iff]

theorem filterMap_map_error : (es.map Call.error).filterMap Call.complaint? = es := by
  rw [List.filterMap_map]
  exact List.filterMap_some

end Errors

/-! ## The calls that describe a tree -/

namespace SyntaxTree

mutual

/-- **The calls that describe a tree.** -/
def calls : SyntaxTree → List Call
  | leaf _ => [.token]
  | node kind ts => .start kind :: (callsAll ts ++ [.finish])

/-- The calls that describe trees one behind the other. -/
def callsAll : List SyntaxTree → List Call
  | [] => []
  | t :: ts => t.calls ++ callsAll ts

end

@[simp] theorem calls_leaf (l : Lexeme) : (leaf l).calls = [.token] := by rw [calls]

@[simp] theorem calls_node (kind : SyntaxKind) (ts : List SyntaxTree) :
    (node kind ts).calls = .start kind :: (callsAll ts ++ [.finish]) := by rw [calls]

@[simp] theorem callsAll_nil : callsAll [] = [] := by rw [callsAll]

@[simp] theorem callsAll_cons (t : SyntaxTree) (ts : List SyntaxTree) :
    callsAll (t :: ts) = t.calls ++ callsAll ts := by rw [callsAll]

@[simp] theorem callsAll_append (ts us : List SyntaxTree) :
    callsAll (ts ++ us) = callsAll ts ++ callsAll us := by
  induction ts with
  | nil => simp
  | cons t ts ih => simp [ih]

mutual

theorem leaves_bare : ∀ {t : SyntaxTree}, t.isTrivia = false → t.bare.leaves = significant t.leaves
  | leaf l, h => by
      rw [bare_leaf, leaves_leaf, Lexeme.significant_cons_of_word h]
      rfl
  | node kind ts, _ => by rw [bare_node, leaves_node, leaves_node, leavesAll_bareAll ts]

/-- The words of trees without trivia are those that are not trivia. -/
theorem leavesAll_bareAll : ∀ ts : List SyntaxTree,
    leavesAll (bareAll ts) = significant (leavesAll ts)
  | [] => by rw [bareAll_nil, leavesAll_nil, significant, List.filter_nil]
  | t :: ts => by
      rw [bareAll_cons, leavesAll_cons, Lexeme.significant_append]
      split
      · next ht =>
        rcases t with l | _
        · rw [leaves_leaf, Lexeme.significant_cons_of_trivia ht, leavesAll_bareAll ts]
          rfl
        · exact absurd ht (by simp)
      · next ht => rw [leavesAll_cons, leaves_bare (by simpa using ht), leavesAll_bareAll ts]

end

end SyntaxTree

namespace Outline

mutual

theorem callsAll_bare : ∀ o : Outline,
    SyntaxTree.callsAll o.bare = o.calls.filter (·.complaint?.isNone)
  | word _ => by simp [List.filter_cons]
  | error _ => by simp
  | node _ os => by simp [List.filter_cons, callsAll_bareAll os]

/-- The trees of outlines are described by the calls of the outlines, without the errors. -/
theorem callsAll_bareAll : ∀ os : List Outline,
    SyntaxTree.callsAll (bareAll os) = (callsAll os).filter (·.complaint?.isNone)
  | [] => by simp
  | o :: os => by simp [callsAll_bare o, callsAll_bareAll os]

end

mutual

theorem filterMap_complaint_calls : ∀ o : Outline, o.calls.filterMap Call.complaint? = o.complaints
  | word _ => by simp
  | error _ => by simp
  | node _ os => by simp [List.filterMap_cons, filterMap_complaint_callsAll os]

/-- The complaints of outlines are the errors among their calls. -/
theorem filterMap_complaint_callsAll : ∀ os : List Outline,
    (callsAll os).filterMap Call.complaint? = complaintsAll os
  | [] => by simp
  | o :: os => by simp [filterMap_complaint_calls o, filterMap_complaint_callsAll os]

end

/-- **Trivia is in its place** in a tree that is planted in a text, if there are words in every node. -/
theorem placesTrivia_rooted {P : SyntaxKind → List Outline → List Lexeme → Prop} (kind : SyntaxKind)
    {os : List Outline} {ls : List Lexeme} (h : significant ls = wordsAll os)
    (hpos : ∀ l ∈ ls, 0 < l.length) (hos : EveryAll P os [])
    (hP : ∀ kind os ws, P kind os ws → wordsAll os ≠ []) :
    (rooted kind os ls).placed.PlacesTrivia := by
  have hnodup : (rooted kind os ls).placed.words.Nodup := by
    refine SyntaxTree.nodup_words_placedAt 0 ?_
    rwa [leaves_rooted kind h]
  obtain ⟨es, trail, mid, stop, hplaced, row, htrail⟩ := exists_row_rooted kind h
  rw [hplaced] at hnodup ⊢
  refine Element.placesTrivia (Element.isNode_node ..) hnodup ?_
  intro n hn
  rw [Element.children, Element.nodesAll_append, Element.nodesAll_of_isTrivia htrail,
    List.append_nil] at hn
  obtain ⟨_, _, _, stands⟩ := row.exists_of_mem_nodes hos hn
  exact stands.isTrimmed hP

end Outline

/-! ## The tree of the calls -/

/-- **A tree realises calls over a text**, and so do the errors that were noted. -/
structure Realises (text : String) (cs : List Call) (t : SyntaxTree) (es : List SyntaxError) : Prop where
  text_eq : t.text = text
  /-- Without trivia, it is the tree that the calls describe… -/
  calls_eq : t.bare.calls = cs.filter (·.complaint?.isNone)
  /-- …with the words of the text in the places of the tokens. -/
  leaves_eq : t.bare.leaves = significant (tokenize text)
  trivia : t.placed.PlacesTrivia
  complaints_eq : es.map SyntaxError.complaint = cs.filterMap Call.complaint?

/-- **A sink realises its calls**: from calls that describe one tree, with as many tokens as there are
words in the text, it builds that tree over the text. -/
theorem Sink.realises {text : String} {cs : List Call} (h : DescribeTree cs)
    (hwords : cs.count .token = (significant (tokenize text)).length) :
    ∃ s t es, (ofLexemes (tokenize text)).calls cs = .ok s ∧ s.build = .ok (t, es) ∧
      Realises text cs t es := by
  obtain @⟨before, after, kind, inner, balanced, worded⟩ := h
  rw [List.count_append, count_token_map_error, Nat.zero_add, List.count_cons_of_ne (by simp),
    List.count_append, List.count_cons_of_ne (by simp), count_token_map_error] at hwords
  obtain ⟨os, rfl, hos⟩ := balanced.exists_callsAll hwords
  obtain ⟨s, hcalls, hbuild⟩ := build_rooted kind before after hos
  rw [Outline.calls_node, List.cons_append, List.append_assoc, List.singleton_append] at hcalls
  refine ⟨s, _, _, hcalls, hbuild, ?_, ?_, ?_, ?_, ?_⟩
  · rw [SyntaxTree.text, Outline.leaves_rooted kind hos, Lexeme.spell_tokenize]
  · rw [Outline.bare_rooted kind hos, SyntaxTree.calls_node, Outline.callsAll_bareAll]
    simp [List.filter_cons, filter_map_error]
  · rw [SyntaxTree.leaves_bare rfl, Outline.leaves_rooted kind hos]
  · exact Outline.placesTrivia_rooted kind hos (fun _ => Lexeme.length_pos_of_mem_tokenize)
      (Outline.everyAll_of_worded os worded) fun _ _ _ hne => hne
  · have hnoted : ∀ (es : List Complaint) (p : Location),
        (es.map fun c => SyntaxError.mk c p).map SyntaxError.complaint = es := by
      intro es p
      simp [Function.comp_def]
    rw [List.map_append, List.map_append, hnoted, hnoted, Outline.map_complaint_plantAll]
    simp only [List.filterMap_append, List.filterMap_cons, filterMap_map_error, Call.complaint?_start,
      Call.complaint?_finish, Outline.filterMap_complaint_callsAll]

theorem Sink.realises_sum :
    let text := " 1 /* one */+ 2 "
    let cs : List Call := [.start .sourceFile, .start .binExpr, .start .literal, .token, .finish, .token,
      .error .expectedExpression, .start .literal, .token, .finish, .finish, .finish]
    DescribeTree cs ∧ cs.count .token = (significant (tokenize text)).length ∧
      ∃ s t es, (ofLexemes (tokenize text)).calls cs = .ok s ∧ s.build = .ok (t, es) ∧
        Realises text cs t es := by
  intro text cs
  have balanced := Outline.balanced_callsAll [.node .binExpr [.node .literal [.word default],
    .word default, .error .expectedExpression, .node .literal [.word default]]]
  simp only [Outline.callsAll_cons, Outline.calls_node, Outline.calls_word, Outline.calls_error,
    Outline.callsAll_nil] at balanced
  have h : DescribeTree cs := .intro [] [] .sourceFile balanced (worded_of_wordFirst (by decide))
  have hwords : cs.count .token = (significant (tokenize text)).length := by decide +kernel
  exact ⟨h, hwords, realises h hwords⟩

end LosslessSyntax
