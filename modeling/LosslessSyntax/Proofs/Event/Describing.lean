import LosslessSyntax.Proofs.Event.Interleaving
import LosslessSyntax.Proofs.Outline
import Mathlib.Data.List.Infix

/-!
# Proofs/Event/Describing — what balanced calls describe

The calls of outlines are balanced, and balanced calls are those of outlines, whatever the words are
that they are given (`Balanced.exists_callsAll`).  Calls are read from left to right, and then nodes may
end in them that have begun before: such calls are made up of the outlines in front of each of these
ends and behind the last one (`Closes`).

Calls that describe one tree have a node around everything but errors (`DescribeTree`).
-/

namespace LosslessSyntax

variable {bs cs ds : List Call} {c : Call} {d : Nat} {kind : SyntaxKind}

/-! ## The calls of outlines -/

namespace Outline

mutual

theorem balanced_calls : ∀ o : Outline, Balanced o.calls
  | word _ => by
      rw [calls_word]
      exact balanced_of_forall (by simp [Call.isStart])
  | error _ => by
      rw [calls_error]
      exact balanced_of_forall (by simp [Call.isStart])
  | node kind os => by
      have h : Balanced ([] ++ callsAll os) := balanced_callsAll os
      rw [calls_node]
      exact h.insert kind

/-- **The calls of outlines are balanced.** -/
theorem balanced_callsAll : ∀ os : List Outline, Balanced (callsAll os)
  | [] => by
      rw [callsAll_nil]
      exact balanced_nil
  | o :: os => by
      rw [callsAll_cons]
      exact (balanced_calls o).append (balanced_callsAll os)

end

mutual

theorem count_token_calls : ∀ o : Outline, o.calls.count .token = o.words.length
  | word _ => by simp
  | error _ => by simp
  | node _ os => by simp [count_token_callsAll os]

/-- There is one `token` for each word. -/
theorem count_token_callsAll : ∀ os : List Outline,
    (callsAll os).count .token = (wordsAll os).length
  | [] => by simp
  | o :: os => by simp [count_token_calls o, count_token_callsAll os]

end

/-- Where there is a `token` there are words. -/
theorem token_mem_callsAll {os : List Outline} : .token ∈ callsAll os ↔ wordsAll os ≠ [] := by
  rw [← List.count_pos_iff, count_token_callsAll, List.length_pos_iff]

end Outline

/-! ## Calls that end nodes -/

/-- **Calls end `d` nodes that have begun before**, and each node that begins in them. -/
structure Closes (d : Nat) (cs : List Call) : Prop where
  never : ∀ n, (cs.take n).count .finish ≤ (cs.take n).countP Call.isStart + d
  even : cs.count .finish = cs.countP Call.isStart + d

theorem Balanced.closes (h : Balanced cs) : Closes 0 cs := ⟨h.never, h.even⟩

namespace Closes

theorem eq_zero (h : Closes d []) : d = 0 := by
  have := h.even
  rw [List.count_nil, List.countP_nil, Nat.zero_add] at this
  exact this.symm

theorem of_start (h : Closes d (.start kind :: cs)) : Closes (d + 1) cs := by
  have hstart : Call.isStart (.start kind) = true := rfl
  refine ⟨fun n => ?_, ?_⟩
  · have := h.never (n + 1)
    rw [List.take_succ_cons, List.count_cons_of_ne (by simp), List.countP_cons_of_pos hstart] at this
    omega
  · have := h.even
    rw [List.count_cons_of_ne (by simp), List.countP_cons_of_pos hstart] at this
    omega

theorem of_finish (h : Closes d (.finish :: cs)) : ∃ d', d = d' + 1 ∧ Closes d' cs := by
  have hfinish : ¬ Call.isStart .finish = true := Bool.false_ne_true
  have hfirst := h.never 1
  rw [List.take_succ_cons, List.take_zero, List.count_cons_self, List.countP_cons_of_neg hfinish,
    List.count_nil, List.countP_nil] at hfirst
  obtain ⟨d', rfl⟩ : ∃ d', d = d' + 1 := ⟨d - 1, by omega⟩
  refine ⟨d', rfl, fun n => ?_, ?_⟩
  · have := h.never (n + 1)
    rw [List.take_succ_cons, List.count_cons_self, List.countP_cons_of_neg hfinish] at this
    omega
  · have := h.even
    rw [List.count_cons_self, List.countP_cons_of_neg hfinish] at this
    omega

theorem of_plain (hs : c.isStart = false) (hf : c ≠ .finish) (h : Closes d (c :: cs)) :
    Closes d cs := by
  have hs' : ¬ c.isStart = true := by simp [hs]
  refine ⟨fun n => ?_, ?_⟩
  · have := h.never (n + 1)
    rwa [List.take_succ_cons, List.count_cons_of_ne (by simpa using hf), List.countP_cons_of_neg hs']
      at this
  · have := h.even
    rwa [List.count_cons_of_ne (by simpa using hf), List.countP_cons_of_neg hs'] at this

/-- **Calls that end nodes are made up of outlines**: of those in front of the first end, and of those
behind each end. -/
theorem exists_callsAll (h : Closes d cs) {ws : List Lexeme} (hws : cs.count .token = ws.length) :
    ∃ (os : List Outline) (oss : List (List Outline)), oss.length = d ∧
      cs = Outline.callsAll os ++ oss.flatMap (fun os => .finish :: Outline.callsAll os) ∧
      ws = Outline.wordsAll os ++ oss.flatMap Outline.wordsAll := by
  induction cs generalizing d ws with
  | nil =>
    obtain rfl := h.eq_zero
    obtain rfl := List.length_eq_zero_iff.mp hws.symm
    exact ⟨[], [], rfl, by simp, by simp⟩
  | cons c cs ih =>
    rcases c with kind | _ | _ | e
    · -- the node ends where the first of the nodes ends that are open behind its start
      obtain ⟨os, oss, hlength, rfl, rfl⟩ := ih h.of_start hws
      obtain ⟨ps, oss, rfl⟩ := List.exists_cons_of_length_eq_add_one hlength
      exact ⟨.node kind os :: ps, oss, by simpa using hlength, by simp, by simp⟩
    · rw [List.count_cons_self] at hws
      obtain ⟨w, ws, rfl⟩ := List.exists_cons_of_length_eq_add_one hws.symm
      obtain ⟨os, oss, hlength, rfl, rfl⟩ := ih (h.of_plain rfl (by simp)) (by simpa using hws)
      exact ⟨.word w :: os, oss, hlength, by simp, by simp⟩
    · obtain ⟨d, rfl, hrest⟩ := h.of_finish
      obtain ⟨os, oss, hlength, rfl, rfl⟩ := ih hrest hws
      exact ⟨[], os :: oss, by simp [hlength], by simp, by simp⟩
    · obtain ⟨os, oss, hlength, rfl, rfl⟩ := ih (h.of_plain rfl (by simp)) hws
      exact ⟨.error e :: os, oss, hlength, by simp, by simp⟩

end Closes

/-- **Balanced calls are the calls of outlines**, over whatever words there are for them. -/
theorem Balanced.exists_callsAll (h : Balanced cs) {ws : List Lexeme}
    (hws : cs.count .token = ws.length) :
    ∃ os, cs = Outline.callsAll os ∧ ws = Outline.wordsAll os := by
  obtain ⟨os, oss, hlength, hcs, hws⟩ := h.closes.exists_callsAll hws
  obtain rfl := List.length_eq_zero_iff.mp hlength
  exact ⟨os, by simpa using hcs, by simpa using hws⟩

/-! ## Words in every node -/

/-- **There is a word in every node** that begins and ends in some calls. -/
def Worded (cs : List Call) : Prop :=
  ∀ kind bs, .start kind :: (bs ++ [.finish]) <:+: cs → Balanced bs → .token ∈ bs

theorem Worded.of_infix (h : Worded cs) (hds : ds <:+: cs) : Worded ds :=
  fun kind bs hbs => h kind bs (hbs.trans hds)

namespace Outline

mutual

theorem every_of_worded : ∀ (o : Outline) {ws : List Lexeme}, Worded o.calls →
    o.Every (fun _ os _ => wordsAll os ≠ []) ws
  | word _, _, _ => every_word _ _
  | error _, _, _ => every_error _ _
  | node kind os, _, h => by
      rw [calls_node] at h
      have htoken := h kind (callsAll os) List.infix_rfl (balanced_callsAll os)
      have hinside : callsAll os <:+: .start kind :: (callsAll os ++ [.finish]) :=
        ⟨[.start kind], [.finish], by simp⟩
      exact every_node.mpr ⟨token_mem_callsAll.mp htoken, everyAll_of_worded os (h.of_infix hinside)⟩

/-- Where there is a word in every node of the calls, there is one in every node of the outlines. -/
theorem everyAll_of_worded : ∀ (os : List Outline) {ws : List Lexeme}, Worded (callsAll os) →
    EveryAll (fun _ os _ => wordsAll os ≠ []) os ws
  | [], _, _ => everyAll_nil _
  | o :: os, _, h => by
      rw [callsAll_cons] at h
      exact everyAll_cons.mpr ⟨every_of_worded o (h.of_infix (List.prefix_append ..).isInfix),
        everyAll_of_worded os (h.of_infix (List.suffix_append ..).isInfix)⟩

end

end Outline

/-- Whether a word comes before any node ends. -/
def Call.wordFirst : List Call → Bool
  | .token :: _ => true
  | .finish :: _ | [] => false
  | .start _ :: cs | .error _ :: cs => wordFirst cs

theorem token_mem_of_wordFirst (h : Call.wordFirst (bs ++ .finish :: cs) = true) : .token ∈ bs := by
  induction bs with
  | nil => exact absurd h (by simp [Call.wordFirst])
  | cons b bs ih =>
    rcases b with kind | _ | _ | e
    · exact List.mem_cons_of_mem _ (ih h)
    · exact List.mem_cons_self
    · exact absurd h (by simp [Call.wordFirst])
    · exact List.mem_cons_of_mem _ (ih h)

/-- There is a word in every node if behind each start a word comes first. -/
theorem worded_of_wordFirst
    (h : ∀ t ∈ cs.tails, ∀ c ∈ t.head?, c.isStart = true → Call.wordFirst t.tail = true) :
    Worded cs := by
  rintro kind bs ⟨front, back, rfl⟩ -
  have hsuffix : .start kind :: (bs ++ .finish :: back) <:+
      front ++ .start kind :: (bs ++ [.finish]) ++ back := ⟨front, by simp⟩
  have hword : Call.wordFirst (bs ++ .finish :: back) = true :=
    h _ ((List.mem_tails ..).mpr hsuffix) (.start kind) rfl rfl
  exact token_mem_of_wordFirst hword

/-! ## One tree -/

/-- **Calls describe one tree**: a node is around all others, which are balanced and have words in
them.  Errors may be noted before it begins and after it has ended. -/
inductive DescribeTree : List Call → Prop
  | intro (before after : List Complaint) (kind : SyntaxKind) {inner : List Call}
      (balanced : Balanced inner) (worded : Worded inner) :
      DescribeTree (before.map .error ++ .start kind :: (inner ++ .finish :: after.map .error))

end LosslessSyntax
