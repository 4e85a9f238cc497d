import LosslessSyntax.Proofs.Event.Link

/-!
# Proofs/Event/Playback — a linked record is replayed to its end

The replay climbs the chain of each start it comes to and leaves holes behind.  Punching a hole into
the first place of a chain keeps a record linked and changes what two entries stand for: that one, and
the one it links to, which is now first (`Linked.punch`, `callsAt_punch`).  So the replay makes at each
entry the calls that `callsAt` says, and never breaks off (`replay_of_linked`).
-/

namespace LosslessSyntax.Event

variable {log : Array Event}

/-! ## Punching a hole -/

theorem linksTo_setIfInBounds_hole {p i j : Nat} :
    LinksTo (log.setIfInBounds p .hole) i j ↔ i ≠ p ∧ LinksTo log i j := by
  simp only [LinksTo, Array.getElem?_setIfInBounds]
  by_cases h : p = i
  · subst h
    simp
  · simp [h, Ne.symm h]

theorem getElem?_punch_of_ne {p j : Nat} (h : j ≠ p) :
    (log.setIfInBounds p .hole)[j]? = log[j]? :=
  Array.getElem?_setIfInBounds_ne (Ne.symm h)

/-- A start that nothing links to can be taken out of a linked record. -/
theorem Linked.punch (h : Linked log) {p : Nat} (hp : ∀ j, ¬ LinksTo log j p) :
    Linked (log.setIfInBounds p .hole) where
  forward hl := h.forward (linksTo_setIfInBounds_hole.mp hl).2
  lands {i j} hl := by
    obtain ⟨-, hl⟩ := linksTo_setIfInBounds_hole.mp hl
    have hj : j ≠ p := fun he => hp i (he ▸ hl)
    rw [getElem?_punch_of_ne hj]
    exact h.lands hl
  injective hl hl' :=
    h.injective (linksTo_setIfInBounds_hole.mp hl).2 (linksTo_setIfInBounds_hole.mp hl').2

/-- …without changing the chain from a later entry. -/
theorem chain_punch_of_lt (h : Linked log) {p i : Nat} (hi : p < i) :
    chain (log.setIfInBounds p .hole) i = chain log i :=
  chain_congr h.threaded fun j hj => getElem?_punch_of_ne (by have := hj.le h.threaded; omega)

/-- **What the other entries stand for is the same**, but for the one linked to, which comes first on
its chain from now on. -/
theorem callsAt_punch (h : Linked log) {p i : Nat} (hp : ∀ j, ¬ LinksTo log j p) (hi : i ≠ p)
    (hl : ¬ LinksTo log p i) : callsAt (log.setIfInBounds p .hole) i = callsAt log i := by
  have hw : isWrapper (log.setIfInBounds p .hole) i = isWrapper log i := by
    rw [Bool.eq_iff_iff, isWrapper_eq_true_iff (h.punch hp).threaded,
      isWrapper_eq_true_iff h.threaded]
    refine exists_congr fun j => linksTo_setIfInBounds_hole.trans (and_iff_right_of_imp fun hj => ?_)
    rintro rfl
    exact hl hj
  simp only [callsAt, getElem?_punch_of_ne hi, hw]
  by_cases hfirst : isWrapper log i = true
  · simp [hfirst]
  · -- the chain from `i` cannot pass `p`, to which nothing links
    have hc : chain (log.setIfInBounds p .hole) i = chain log i := by
      refine chain_congr h.threaded fun j hj => getElem?_punch_of_ne ?_
      rintro rfl
      rcases hj.cases_tail with rfl | ⟨m, -, hm⟩
      · exact hi rfl
      · exact hp m hm
    rw [hc]

/-! ## Climbing a chain -/

/-- What is left of a record, and what has been opened, after a chain was climbed from entry `next`. -/
structure Climbed (log : Array Event) (next : Nat) (kinds : List SyntaxKind)
    (left : Array Event) (opened : List SyntaxKind) : Prop where
  opened_eq : opened = (chain log next).reverse ++ kinds
  size_eq : left.size = log.size
  linked : Linked left
  starts : ∀ {i : Nat} {kind w}, left[i]? = some (.start kind w) →
    i ≠ next ∧ log[i]? = some (.start kind w)
  silent : callsAt left next = []
  others : ∀ {i}, i ≠ next → callsAt left i = callsAt log i

/-- A chain of one start is climbed by taking it out. -/
theorem Climbed.last (h : Linked log) {next : Nat} {kind : SyntaxKind} (kinds : List SyntaxKind)
    (hs : log[next]? = some (.start kind none)) (hfirst : ∀ j, ¬ LinksTo log j next) :
    Climbed log next kinds (log.setIfInBounds next .hole) (kind :: kinds) where
  opened_eq := by simp [chain_of_start_none hs]
  size_eq := Array.size_setIfInBounds
  linked := h.punch hfirst
  starts {i _ _} hi := by
    by_cases hne : i = next
    · subst hne
      simp [Array.getElem?_setIfInBounds] at hi
    · exact ⟨hne, by rwa [getElem?_punch_of_ne hne] at hi⟩
  silent := callsAt_of_hole
    (Array.getElem?_setIfInBounds_self_of_lt (Array.getElem?_eq_some_iff.mp hs).1)
  others {i} hi := callsAt_punch h hfirst hi fun hl => by
    obtain ⟨kind', d, hs', -⟩ := hl
    simp [hs] at hs'

/-- A longer chain is climbed by taking out its first start and climbing on from the one it links
to. -/
theorem Climbed.step (h : Linked log) {next d : Nat} {kind : SyntaxKind} {kinds : List SyntaxKind}
    {left : Array Event} {opened : List SyntaxKind}
    (hs : log[next]? = some (.start kind (some d))) (hfirst : ∀ j, ¬ LinksTo log j next)
    (hr : Climbed (log.setIfInBounds next .hole) (next + d) (kind :: kinds) left opened) :
    Climbed log next kinds left opened := by
  have hl := linksTo_of_getElem? hs
  have hd : 0 < d := by have := h.forward hl; omega
  have hpunched : (log.setIfInBounds next .hole)[next]? = some .hole :=
    Array.getElem?_setIfInBounds_self_of_lt hl.lt_size
  refine ⟨?_, ?_, hr.linked, fun {i kind' w} hi => ?_, ?_, fun {i} hi => ?_⟩
  · rw [hr.opened_eq, chain_of_start_some hd hs, chain_punch_of_lt h (by omega)]
    simp
  · rw [hr.size_eq, Array.size_setIfInBounds]
  · have hi' := (hr.starts hi).2
    have hne : i ≠ next := by
      rintro rfl
      simp [hpunched] at hi'
    exact ⟨hne, by rwa [getElem?_punch_of_ne hne] at hi'⟩
  · rw [hr.others (by omega), callsAt_of_hole hpunched]
  · by_cases hi' : i = next + d
    · subst hi'
      rw [hr.silent, callsAt_of_isWrapper
        ((isWrapper_eq_true_iff h.threaded).mpr ⟨next, hl⟩) (h.lands hl)]
    · rw [hr.others hi', callsAt_punch h hfirst hi fun hl' => hi' (hl'.eq_of_getElem? hs)]

/-- **A chain is climbed to its end.**  Taking out a start lets the one it links to be first on its
chain, so the induction is up the chain and over all records. -/
theorem climb_of_first (h : Linked log) (entry here : Nat) (kinds : List SyntaxKind) {d : Nat}
    (hl : (∃ kind w, log[here + d]? = some (.start kind w)) ∧ 0 < d)
    (hfirst : ∀ j, ¬ LinksTo log j (here + d)) :
    ∃ left opened, Replay.climb entry log here kinds (some d) = .ok (left, opened) ∧
      Climbed log (here + d) kinds left opened := by
  induction hn : log.size - here using Nat.strongRecOn generalizing log here kinds d with
  | ind n ih =>
    obtain ⟨⟨kind, w, hs⟩, hd⟩ := hl
    obtain ⟨hlt, hget⟩ := Array.getElem?_eq_some_iff.mp hs
    obtain ⟨e, rfl⟩ : ∃ e, d = e + 1 := ⟨d - 1, by omega⟩
    rw [Replay.climb]
    simp only [hlt, ↓reduceDIte, hget]
    cases w with
    | none =>
      refine ⟨_, _, ?_, .last h kinds hs hfirst⟩
      rw [Replay.climb]
    | some d' =>
      have hl := linksTo_of_getElem? hs
      have hforward := h.forward hl
      have hnext : ∃ kind w, (log.setIfInBounds (here + (e + 1)) .hole)[here + (e + 1) + d']?
          = some (.start kind w) := by
        rw [getElem?_punch_of_ne (by omega)]
        exact h.lands hl
      have hfirst' : ∀ j, ¬ LinksTo (log.setIfInBounds (here + (e + 1)) .hole) j
          (here + (e + 1) + d') := fun j hj => by
        obtain ⟨hne, hj⟩ := linksTo_setIfInBounds_hole.mp hj
        exact hne (h.injective hj hl)
      obtain ⟨left, opened, hclimb, hr⟩ := ih _ (by rw [Array.size_setIfInBounds]; omega)
        (h.punch hfirst) (here + (e + 1)) (kind :: kinds) ⟨hnext, by omega⟩ hfirst' rfl
      exact ⟨left, opened, hclimb, .step h hs hfirst hr⟩

/-! ## The whole record -/

/-- **A start whose turn has come opens its chain**, and what later entries stand for is the same
afterwards. -/
theorem climb_of_turn (h : Linked log) {here : Nat} {kind : SyntaxKind} {w : Option Nat}
    (hs : log[here]? = some (.start kind w)) (hfirst : ∀ j, ¬ LinksTo log j here) :
    ∃ left opened, Replay.climb here (log.setIfInBounds here .hole) here [kind] w
        = .ok (left, opened) ∧ Climbed log here [] left opened := by
  cases w with
  | none =>
    refine ⟨_, _, ?_, .last h [] hs hfirst⟩
    rw [Replay.climb]
  | some d =>
    have hl := linksTo_of_getElem? hs
    have hd : 0 < d := by have := h.forward hl; omega
    have hnext : ∃ kind w, (log.setIfInBounds here .hole)[here + d]? = some (.start kind w) := by
      rw [getElem?_punch_of_ne (by omega)]
      exact h.lands hl
    have hfirst' : ∀ j, ¬ LinksTo (log.setIfInBounds here .hole) j (here + d) := fun j hj => by
      obtain ⟨hne, hj⟩ := linksTo_setIfInBounds_hole.mp hj
      exact hne (h.injective hj hl)
    obtain ⟨left, opened, hclimb, hr⟩ :=
      climb_of_first (h.punch hfirst) here here [kind] ⟨hnext, hd⟩ hfirst'
    exact ⟨left, opened, hclimb, .step h hs hfirst hr⟩

/-- Replaying some entries of a record whose starts have all been dealt with before `here`. -/
theorem entries_of_linked (left here : Nat) (calls : Array Call) (h : Linked log)
    (hsize : here + left ≤ log.size)
    (hdone : ∀ i < here, ∀ kind w, log[i]? ≠ some (.start kind w)) :
    Replay.entries left here log calls
      = ⟨calls ++ (callsBetween log here (here + left)).toArray, none⟩ := by
  induction left generalizing here log calls with
  | zero => simp [Replay.entries]
  | succ left ih =>
    have hlt : here < log.size := by omega
    have hsum : here + (left + 1) = here + 1 + left := by omega
    rw [callsBetween_succ (by omega), hsum]
    by_cases hs : ∃ kind w, log[here]? = some (.start kind w)
    · obtain ⟨kind, w, hs⟩ := hs
      have hfirst : ∀ j, ¬ LinksTo log j here := fun j hj => by
        obtain ⟨kind', d, hs', -⟩ := id hj
        exact hdone j (h.forward hj) _ _ hs'
      obtain ⟨log', opened, hclimb, hr⟩ := climb_of_turn h hs hfirst
      have hlater : callsBetween log' (here + 1) (here + 1 + left) =
          callsBetween log (here + 1) (here + 1 + left) :=
        callsBetween_congr fun i hi _ => hr.others (by omega)
      have hdone' : ∀ i < here + 1, ∀ kind w, log'[i]? ≠ some (.start kind w) := by
        intro i hi kind' w' hi'
        obtain ⟨hne, hi'⟩ := hr.starts hi'
        exact hdone i (by omega) _ _ hi'
      simp only [Replay.entries, hs, hclimb]
      rw [ih (here + 1) _ hr.linked (by rw [hr.size_eq]; omega) hdone', hlater,
        callsAt_of_first h.threaded hs hfirst, hr.opened_eq]
      exact congrArg (Playback.mk · none) (Array.toList_inj.mp (by simp))
    · have hdone' : ∀ i < here + 1, ∀ kind w, log[i]? ≠ some (.start kind w) := by
        intro i hi kind w hi'
        rcases Nat.lt_succ_iff_lt_or_eq.mp hi with hi | rfl
        · exact hdone i hi _ _ hi'
        · exact hs ⟨kind, w, hi'⟩
      have hrest (calls : Array Call) := ih (here + 1) calls h (by omega) hdone'
      cases he : log[here]? with
      | none => simp [hlt] at he
      | some e =>
        cases e with
        | start kind w => exact absurd ⟨kind, w, he⟩ hs
        | _ => simp [Replay.entries, callsAt, he, hrest]

/-- **A linked record is replayed as far as one likes**, and each entry makes the calls it stands
for. -/
theorem entries_eq (h : Linked log) {n : Nat} (hn : n ≤ log.size) :
    Replay.entries n 0 log #[] = ⟨(callsBetween log 0 n).toArray, none⟩ := by
  rw [entries_of_linked n 0 #[] h (by omega) fun i hi => absurd hi i.not_lt_zero]
  simp

/-- **A linked record is replayed to its end**, and each entry makes the calls it stands for. -/
theorem replay_of_linked (h : Linked log) :
    replay log = ⟨(callsBetween log 0 log.size).toArray, none⟩ :=
  entries_eq h (Nat.le_refl _)

end LosslessSyntax.Event
