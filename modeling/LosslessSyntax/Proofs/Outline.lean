import LosslessSyntax.Event
import LosslessSyntax.Tree

/-!
# Proofs/Outline — what a parse amounts to, as a tree

An outline is the tree a parse describes, before white space and comments are put back: its leaves are
words the grammar has read and complaints it has made, in the order in which it did so.  It can be
written as building instructions (`calls`), and it says which words it is made of (`words`), which
complaints it holds (`complaints`) and what its nodes are like (`Every`).
-/

namespace LosslessSyntax

/-- The words of a text that the grammar reads. -/
def Lexeme.significant (ls : List Lexeme) : List Lexeme := ls.filter fun l => !l.isTrivia

/-- The tree that a parse describes. -/
inductive Outline
  /-- A word that was read. -/
  | word (lexeme : Lexeme)
  /-- A complaint that was made. -/
  | error (complaint : Complaint)
  /-- A node over what was read and complained about inside it. -/
  | node (kind : SyntaxKind) (children : List Outline)
  deriving Repr, Inhabited

namespace Outline

/-! ## As instructions -/

mutual

/-- The instructions that build an outline. -/
def calls : Outline → List Call
  | word _ => [.token]
  | error c => [.error c]
  | node kind os => .start kind :: (callsAll os ++ [.finish])

/-- The instructions that build outlines one behind the other. -/
def callsAll : List Outline → List Call
  | [] => []
  | o :: os => o.calls ++ callsAll os

end

@[simp] theorem calls_word (l : Lexeme) : (word l).calls = [.token] := by rw [calls]

@[simp] theorem calls_error (c : Complaint) : (error c).calls = [.error c] := by rw [calls]

@[simp] theorem calls_node (kind : SyntaxKind) (os : List Outline) :
    (node kind os).calls = .start kind :: (callsAll os ++ [.finish]) := by rw [calls]

@[simp] theorem callsAll_nil : callsAll [] = [] := by rw [callsAll]

@[simp] theorem callsAll_cons (o : Outline) (os : List Outline) :
    callsAll (o :: os) = o.calls ++ callsAll os := by rw [callsAll]

@[simp] theorem callsAll_append (os ps : List Outline) :
    callsAll (os ++ ps) = callsAll os ++ callsAll ps := by
  induction os with
  | nil => simp
  | cons o os ih => simp [ih]

/-! ## Its words -/

mutual

/-- The words of an outline, from left to right. -/
def words : Outline → List Lexeme
  | word l => [l]
  | error _ => []
  | node _ os => wordsAll os

/-- The words of outlines one behind the other. -/
def wordsAll : List Outline → List Lexeme
  | [] => []
  | o :: os => o.words ++ wordsAll os

end

@[simp] theorem words_word (l : Lexeme) : (word l).words = [l] := by rw [words]

@[simp] theorem words_error (c : Complaint) : (error c).words = [] := by rw [words]

@[simp] theorem words_node (kind : SyntaxKind) (os : List Outline) :
    (node kind os).words = wordsAll os := by rw [words]

@[simp] theorem wordsAll_nil : wordsAll [] = [] := by rw [wordsAll]

@[simp] theorem wordsAll_cons (o : Outline) (os : List Outline) :
    wordsAll (o :: os) = o.words ++ wordsAll os := by rw [wordsAll]

@[simp] theorem wordsAll_append (os ps : List Outline) :
    wordsAll (os ++ ps) = wordsAll os ++ wordsAll ps := by
  induction os with
  | nil => simp
  | cons o os ih => simp [ih]

/-! ## Its complaints -/

mutual

/-- The complaints of an outline, from left to right. -/
def complaints : Outline → List Complaint
  | word _ => []
  | error c => [c]
  | node _ os => complaintsAll os

/-- The complaints of outlines one behind the other. -/
def complaintsAll : List Outline → List Complaint
  | [] => []
  | o :: os => o.complaints ++ complaintsAll os

end

@[simp] theorem complaints_word (l : Lexeme) : (word l).complaints = [] := by rw [complaints]

@[simp] theorem complaints_error (c : Complaint) : (error c).complaints = [c] := by rw [complaints]

@[simp] theorem complaints_node (kind : SyntaxKind) (os : List Outline) :
    (node kind os).complaints = complaintsAll os := by rw [complaints]

@[simp] theorem complaintsAll_nil : complaintsAll [] = [] := by rw [complaintsAll]

@[simp] theorem complaintsAll_cons (o : Outline) (os : List Outline) :
    complaintsAll (o :: os) = o.complaints ++ complaintsAll os := by rw [complaintsAll]

@[simp] theorem complaintsAll_append (os ps : List Outline) :
    complaintsAll (os ++ ps) = complaintsAll os ++ complaintsAll ps := by
  induction os with
  | nil => simp
  | cons o os ih => simp [ih]

/-! ## Its nodes -/

section Every

variable (P : SyntaxKind → List Outline → List Lexeme → Prop)

mutual

/-- A property holds of every node of an outline: of its kind, its children and the words that follow
it. -/
def Every : Outline → List Lexeme → Prop
  | word _, _ => True
  | error _, _ => True
  | node kind os, ws => P kind os ws ∧ EveryAll os ws

/-- A property holds of every node of outlines one behind the other. -/
def EveryAll : List Outline → List Lexeme → Prop
  | [], _ => True
  | o :: os, ws => o.Every (wordsAll os ++ ws) ∧ EveryAll os ws

end

variable {P}

@[simp] theorem every_word (l : Lexeme) (ws : List Lexeme) : (word l).Every P ws := by
  rw [Every]
  trivial

@[simp] theorem every_error (c : Complaint) (ws : List Lexeme) : (error c).Every P ws := by
  rw [Every]
  trivial

@[simp] theorem every_node {kind : SyntaxKind} {os : List Outline} {ws : List Lexeme} :
    (node kind os).Every P ws ↔ P kind os ws ∧ EveryAll P os ws := by
  rw [Every]

@[simp] theorem everyAll_nil (ws : List Lexeme) : EveryAll P [] ws := by
  rw [EveryAll]
  trivial

@[simp] theorem everyAll_cons {o : Outline} {os : List Outline} {ws : List Lexeme} :
    EveryAll P (o :: os) ws ↔ o.Every P (wordsAll os ++ ws) ∧ EveryAll P os ws := by
  rw [EveryAll]

@[simp] theorem everyAll_append {os ps : List Outline} {ws : List Lexeme} :
    EveryAll P (os ++ ps) ws ↔ EveryAll P os (wordsAll ps ++ ws) ∧ EveryAll P ps ws := by
  induction os with
  | nil => simp
  | cons o os ih => simp [ih, and_assoc]

variable {Q : SyntaxKind → List Outline → List Lexeme → Prop}

mutual

/-- Two properties hold of every node if each of them does. -/
theorem every_and : ∀ (o : Outline) {ws : List Lexeme}, o.Every P ws → o.Every Q ws →
    o.Every (fun kind os ws => P kind os ws ∧ Q kind os ws) ws
  | word _, _, _, _ => every_word _ _
  | error _, _, _, _ => every_error _ _
  | node _ os, _, hP, hQ => by
      rw [every_node] at hP hQ ⊢
      exact ⟨⟨hP.1, hQ.1⟩, everyAll_and os hP.2 hQ.2⟩

theorem everyAll_and : ∀ (os : List Outline) {ws : List Lexeme}, EveryAll P os ws → EveryAll Q os ws →
    EveryAll (fun kind os ws => P kind os ws ∧ Q kind os ws) os ws
  | [], _, _, _ => everyAll_nil _
  | o :: os, _, hP, hQ => by
      rw [everyAll_cons] at hP hQ ⊢
      exact ⟨every_and o hP.1 hQ.1, everyAll_and os hP.2 hQ.2⟩

end

mutual

/-- Where there is no complaint, there is none in any node. -/
theorem every_of_complaints : ∀ (o : Outline) {ws : List Lexeme}, o.complaints = [] →
    o.Every (fun _ os _ => complaintsAll os = []) ws
  | word _, _, _ => every_word _ _
  | error _, _, h => absurd h (by simp)
  | node _ os, _, h => by
      rw [complaints_node] at h
      exact every_node.mpr ⟨h, everyAll_of_complaintsAll os h⟩

theorem everyAll_of_complaintsAll : ∀ (os : List Outline) {ws : List Lexeme}, complaintsAll os = [] →
    EveryAll (fun _ os _ => complaintsAll os = []) os ws
  | [], _, _ => everyAll_nil _
  | o :: os, _, h => by
      rw [complaintsAll_cons, List.append_eq_nil_iff] at h
      exact everyAll_cons.mpr ⟨every_of_complaints o h.1, everyAll_of_complaintsAll os h.2⟩

end

end Every

end Outline

end LosslessSyntax
