import LosslessSyntax.Proofs.Event.Interleaving

/-!
# Proofs/Event/Unbroken — the records that can be replayed

A replay follows every link of the record, each exactly once: a start is taken out of the record when it
is opened, and its link is followed then and there.  So a replay that is not broken off has found a start
at the end of every link, and no two links have met, which would have found a hole
(`Event.broken_eq_none_iff`).  Going back over it, each start that is put back into a linked record leaves
it linked (`Linked.unpunch`).

What is made of each entry when its turn comes is said by `Causes`, and that nothing is made twice or left
out by `PlayedInOrder`.
-/

namespace LosslessSyntax.Event

variable {log left : Array Event} {p here : Nat} {kind : SyntaxKind} {w : Option Nat}
  {kinds opened : List SyntaxKind} {calls : Array Call}

/-! ## Putting a start back -/

/-- Where a start has been taken out there is none. -/
theorem not_start_punched (hlt : p < log.size) (kind : SyntaxKind) (w : Option Nat) :
    (log.setIfInBounds p .hole)[p]? ≠ some (.start kind w) := by
  simp [Array.getElem?_setIfInBounds_self_of_lt hlt]

/-- **A link is free** if it leads forward to a start that nothing links to. -/
def IsFree (log : Array Event) (p : Nat) (w : Option Nat) : Prop :=
  ∀ d, w = some d → 0 < d ∧ (∃ kind w, log[p + d]? = some (.start kind w)) ∧
    ∀ j, ¬ LinksTo log j (p + d)

theorem isFree_none : IsFree log p none := fun _ h => absurd h (by simp)

/-- **A start that is put back** leaves a record linked if its link is free, and nothing links to it. -/
theorem Linked.unpunch (hs : log[p]? = some (.start kind w)) (h : Linked (log.setIfInBounds p .hole))
    (hw : IsFree (log.setIfInBounds p .hole) p w) : Linked log ∧ ∀ j, ¬ LinksTo log j p := by
  have gone := not_start_punched (Array.getElem?_eq_some_iff.mp hs).1
  have kept : ∀ {i j : Nat}, i ≠ p → LinksTo log i j → LinksTo (log.setIfInBounds p .hole) i j :=
    fun hne hl => linksTo_setIfInBounds_hole.mpr ⟨hne, hl⟩
  have own : ∀ {j : Nat}, LinksTo log p j → ∃ d, w = some d ∧ j = p + d := by
    rintro j ⟨kind', d, hs', rfl⟩
    obtain ⟨-, rfl⟩ := Event.start.inj (Option.some.inj (hs.symm.trans hs'))
    exact ⟨d, rfl, rfl⟩
  have start_of_punched : ∀ {j : Nat}, (∃ kind w, (log.setIfInBounds p .hole)[j]? =
      some (.start kind w)) → ∃ kind w, log[j]? = some (.start kind w) := by
    rintro j ⟨kind', w', hj⟩
    have hne : j ≠ p := by
      rintro rfl
      exact gone kind' w' hj
    exact ⟨kind', w', (getElem?_punch_of_ne hne).symm.trans hj⟩
  have alone : ∀ {i j : Nat}, LinksTo log p j → LinksTo log i j → i = p := by
    intro i j hl hl'
    by_contra hne
    obtain ⟨d, hd, rfl⟩ := own hl
    exact (hw d hd).2.2 i (kept hne hl')
  refine ⟨⟨?_, ?_, ?_⟩, ?_⟩
  · intro i j hl
    by_cases hi : i = p
    · obtain ⟨d, hd, rfl⟩ := own (hi ▸ hl)
      have := (hw d hd).1
      omega
    · exact h.forward (kept hi hl)
  · intro i j hl
    by_cases hi : i = p
    · obtain ⟨d, hd, rfl⟩ := own (hi ▸ hl)
      exact start_of_punched (hw d hd).2.1
    · exact start_of_punched (h.lands (kept hi hl))
  · intro i i' j hl hl'
    by_cases hi : i = p
    · rw [hi, alone (hi ▸ hl) hl']
    by_cases hi' : i' = p
    · rw [hi', alone (hi' ▸ hl') hl]
    exact h.injective (kept hi hl) (kept hi' hl')
  · intro j hl
    by_cases hj : j = p
    · obtain ⟨d, hd, hself⟩ := own (hj ▸ hl)
      have := (hw d hd).1
      omega
    · obtain ⟨kind', w', hp⟩ := h.lands (kept hj hl)
      exact gone kind' w' hp

/-! ## Climbing back down -/

/-- **What a climb takes out of a record** it adds to the kinds met so far; all other entries are left. -/
structure Takes (log : Array Event) (kinds : List SyntaxKind) (left : Array Event)
    (opened : List SyntaxKind) : Prop where
  begun : (opened ++ left.toList.filterMap begun?).Perm (kinds ++ log.toList.filterMap begun?)
  plain : left.toList.map plain? = log.toList.map plain?
  starts : ∀ {i : Nat} {kind w}, left[i]? = some (.start kind w) → log[i]? = some (.start kind w)

theorem Takes.refl (log : Array Event) (kinds : List SyntaxKind) : Takes log kinds log kinds :=
  ⟨.refl _, rfl, id⟩

theorem Takes.trans {mid : Array Event} {met : List SyntaxKind} (h : Takes log kinds mid met)
    (h' : Takes mid met left opened) : Takes log kinds left opened :=
  ⟨h'.begun.trans h.begun, h'.plain.trans h.plain, fun hi => h.starts (h'.starts hi)⟩

theorem Takes.size_eq (h : Takes log kinds left opened) : left.size = log.size := by
  simpa using congrArg List.length h.plain

/-- One start is taken out. -/
theorem takes_punch (hs : log[p]? = some (.start kind w)) (kinds : List SyntaxKind) :
    Takes log kinds (log.setIfInBounds p .hole) (kind :: kinds) := by
  obtain ⟨xs, ys, hlog, hpunched⟩ := exists_toList_eq hs
  have hkind : begun? (.start kind w) = some kind := rfl
  refine ⟨?_, ?_, fun {i kind' w'} hi => ?_⟩
  · rw [hlog, hpunched, List.filterMap_append, List.filterMap_append, List.filterMap_cons_none rfl,
      List.filterMap_cons_some hkind, List.cons_append, ← List.append_assoc, ← List.append_assoc]
    exact List.perm_middle.symm
  · rw [hlog, hpunched, List.map_append, List.map_append]
    rfl
  · have hne : i ≠ p := by
      rintro rfl
      exact not_start_punched (Array.getElem?_eq_some_iff.mp hs).1 kind' w' hi
    rwa [getElem?_punch_of_ne hne] at hi

/-- **A climb that is not broken off** takes starts out of the record.  If what it leaves is linked, then
so was the record, and the link it set out from was free. -/
theorem of_climb {entry : Nat} (h : Replay.climb entry log here kinds w = .ok (left, opened)) :
    Takes log kinds left opened ∧ (Linked left → Linked log ∧ IsFree log here w) := by
  -- the climb only goes forward, so what lies ahead of it gets shorter
  induction hn : log.size - here using Nat.strongRecOn generalizing log here kinds w with
  | ind n ih =>
    rcases w with _ | _ | d
    · rw [Replay.climb] at h
      obtain ⟨rfl, rfl⟩ := Prod.mk.inj (Except.ok.inj h)
      exact ⟨.refl log kinds, fun hlinked => ⟨hlinked, isFree_none⟩⟩
    · rw [Replay.climb] at h
      exact absurd h (by simp)
    · rw [Replay.climb] at h
      split at h
      · next hlt =>
        split at h
        · next kind w hget =>
          have hs : log[here + (d + 1)]? = some (.start kind w) :=
            Array.getElem?_eq_some_iff.mpr ⟨hlt, hget⟩
          obtain ⟨takes, back⟩ := ih _ (by rw [Array.size_setIfInBounds]; omega) h rfl
          refine ⟨(takes_punch hs kinds).trans takes, fun hleft => ?_⟩
          obtain ⟨hlinked, hfree⟩ := back hleft
          obtain ⟨hlog, hfirst⟩ := hlinked.unpunch hs hfree
          refine ⟨hlog, fun e he => ?_⟩
          obtain rfl := Option.some.inj he
          exact ⟨Nat.succ_pos d, ⟨kind, w, hs⟩, hfirst⟩
        · exact absurd h (by simp)
      · exact absurd h (by simp)

/-! ## The whole record -/

/-- **What has come of a replay** from place `here` on, and of the calls made before, when it is not
broken off. -/
structure Completes (log : Array Event) (here : Nat) (before after : List Call) : Prop where
  linked : Linked log
  begun : (after.filterMap Call.begun?).Perm
    (before.filterMap Call.begun? ++ log.toList.filterMap Event.begun?)
  others : (after.filter fun c => !c.isStart) =
    (before.filter fun c => !c.isStart) ++ (log.toList.drop here).filterMap Event.plain?

/-- **The replay is past some entries** of a record: no start is left among them. -/
def IsPast (log : Array Event) (here : Nat) : Prop :=
  ∀ i < here, ∀ kind w, log[i]? ≠ some (.start kind w)

theorem isPast_zero (log : Array Event) : IsPast log 0 := fun i hi => absurd hi i.not_lt_zero

theorem IsPast.succ (h : IsPast log here) (hs : ∀ kind w, log[here]? ≠ some (.start kind w)) :
    IsPast log (here + 1) := by
  intro i hi
  rcases Nat.lt_succ_iff_lt_or_eq.mp hi with hi | rfl
  · exact h i hi
  · exact hs

theorem IsPast.of_takes (h : IsPast log here) (ht : Takes log kinds left opened) : IsPast left here :=
  fun i hi kind w hs => h i hi kind w (ht.starts hs)

/-- At the end of the record no start is left. -/
theorem completes_of_isPast (h : IsPast log log.size) (hsize : here = log.size) (calls : List Call) :
    Completes log here calls calls := by
  have hno : ∀ (i : Nat) kind w, log[i]? ≠ some (.start kind w) := fun i kind w hi =>
    h i (Array.getElem?_eq_some_iff.mp hi).1 kind w hi
  have hbegun : log.toList.filterMap Event.begun? = [] := by
    refine List.filterMap_eq_nil_iff.mpr fun e he => ?_
    obtain ⟨i, hi⟩ := List.mem_iff_getElem?.mp he
    rw [Array.getElem?_toList] at hi
    cases e with
    | start kind w => exact absurd hi (hno i kind w)
    | _ => rfl
  refine ⟨⟨?_, ?_, ?_⟩, ?_, ?_⟩
  · rintro i j ⟨kind, d, hi, -⟩
    exact absurd hi (hno i kind _)
  · rintro i j ⟨kind, d, hi, -⟩
    exact absurd hi (hno i kind _)
  · rintro i i' j ⟨kind, d, hi, -⟩
    exact absurd hi (hno i kind _)
  · rw [hbegun, List.append_nil]
  · rw [hsize, List.drop_of_length_le (by simp)]
    exact (List.append_nil _).symm

theorem drop_toList {e : Event} (he : log[here]? = some e) :
    log.toList.drop here = e :: log.toList.drop (here + 1) := by
  obtain ⟨hlt, rfl⟩ := Array.getElem?_eq_some_iff.mp he
  rw [List.drop_eq_getElem_cons (by simpa using hlt), Array.getElem_toList]

/-- An entry that is no start makes its own call, if any. -/
theorem Completes.of_plain {e : Event} {before after : List Call} (he : log[here]? = some e)
    (hs : e.isStart = false) (h : Completes log (here + 1) (before ++ e.plain?.toList) after) :
    Completes log here before after := by
  have hbegun : e.plain?.toList.filterMap Call.begun? = [] := by cases e <;> rfl
  have hother : (e.plain?.toList.filter fun c => !c.isStart) = e.plain?.toList := by cases e <;> rfl
  refine ⟨h.linked, ?_, ?_⟩
  · simpa [hbegun] using h.begun
  · rw [h.others, List.filter_append, hother, drop_toList he, List.filterMap_cons, List.append_assoc]
    cases e.plain? <;> rfl

/-- A start opens its chain. -/
theorem Completes.of_start {before after : List Call} {kinds : List SyntaxKind}
    (hs : log[here]? = some (.start kind w))
    (hclimb : Replay.climb here (log.setIfInBounds here .hole) here [kind] w = .ok (left, kinds))
    (h : Completes left (here + 1) (before ++ kinds.map Call.start) after) :
    Completes log here before after := by
  obtain ⟨takes, back⟩ := of_climb hclimb
  have takes := (takes_punch hs []).trans takes
  obtain ⟨hlinked, hfree⟩ := back h.linked
  have hplain : (left.toList.drop (here + 1)).filterMap plain? =
      (log.toList.drop here).filterMap plain? := by
    have hmap := congrArg (fun xs => (xs.drop (here + 1)).filterMap id) takes.plain
    simp only [← List.map_drop, List.filterMap_map, Function.id_comp] at hmap
    rw [drop_toList hs, List.filterMap_cons_none rfl]
    exact hmap
  have hkinds : (kinds.map Call.start).filterMap Call.begun? = kinds := by
    rw [List.filterMap_map]
    exact List.filterMap_some
  have hnone : ((kinds.map Call.start).filter fun c => !c.isStart) = [] := by
    simp [List.filter_eq_nil_iff, Call.isStart]
  refine ⟨(hlinked.unpunch hs hfree).1, ?_, ?_⟩
  · refine h.begun.trans ?_
    rw [List.filterMap_append, hkinds, List.append_assoc]
    exact takes.begun.append_left _
  · rw [h.others, List.filter_append, hnone, List.append_nil, hplain]

/-- **A replay that is not broken off** has followed every link and made every call once. -/
theorem completes_of_entries (left here : Nat) {log : Array Event} {calls : Array Call}
    (h : (Replay.entries left here log calls).broken = none) (hsize : here + left = log.size)
    (hpast : IsPast log here) :
    Completes log here calls.toList (Replay.entries left here log calls).calls.toList := by
  induction left generalizing here log calls with
  | zero => exact completes_of_isPast (hsize ▸ hpast) hsize _
  | succ left ih =>
    obtain ⟨e, hget⟩ : ∃ e, log[here]? = some e := ⟨_, Array.getElem?_eq_getElem (by omega)⟩
    by_cases hs : e.isStart = true
    · obtain ⟨kind, w, rfl⟩ : ∃ kind w, e = .start kind w := by
        cases e with
        | start kind w => exact ⟨kind, w, rfl⟩
        | _ => exact absurd hs (by simp [isStart])
      rcases hclimb : Replay.climb here (log.setIfInBounds here .hole) here [kind] w with b | ⟨log', kinds⟩
      · rw [Replay.entries, hget] at h
        simp [hclimb] at h
      · simp only [Replay.entries, hget, hclimb] at h ⊢
        have climbed := (of_climb hclimb).1
        have takes := (takes_punch hget []).trans climbed
        -- the climb takes out starts and puts none in, so none comes back behind it
        have hnext : IsPast log' (here + 1) := ((hpast.of_takes (takes_punch hget [])).succ
          (not_start_punched (Array.getElem?_eq_some_iff.mp hget).1)).of_takes climbed
        have hlater := ih (here + 1) h (by rw [takes.size_eq]; omega) hnext
        exact .of_start hget hclimb (by simpa using hlater)
    · have hs := Bool.eq_false_iff.mpr hs
      have hnext : IsPast log (here + 1) := hpast.succ fun kind w hi => by
        obtain rfl := Option.some.inj (hget.symm.trans hi)
        exact absurd hs (by simp [isStart])
      have hlater {calls : Array Call} (h : (Replay.entries left (here + 1) log calls).broken = none) :=
        ih (here + 1) h (by omega) hnext
      refine .of_plain hget hs ?_
      cases e with
      | start => exact absurd hs (by simp [isStart])
      | _ =>
        simp only [Replay.entries, hget] at h ⊢
        simpa [plain?] using hlater h

theorem completes_of_replay (h : (replay log).broken = none) :
    Completes log 0 [] (replay log).calls.toList :=
  completes_of_entries log.size 0 h (Nat.zero_add _) (isPast_zero log)

theorem broken_eq_none_iff : (replay log).broken = none ↔ Linked log :=
  ⟨fun h => (completes_of_replay h).linked, fun h => by rw [replay_of_linked h]⟩

theorem length_calls (cs : List Call) : cs.length =
    (cs.filterMap Call.begun?).length + (cs.filter fun c => !c.isStart).length := by
  induction cs with
  | nil => rfl
  | cons c cs ih =>
    cases c <;> simp only [List.length_cons, ih, Call.begun?, Call.isStart, List.filterMap_cons,
      List.filter_cons, Bool.not_true, Bool.not_false, if_true, Bool.false_eq_true, if_false] <;> omega

theorem length_entries {es : List Event} (h : .hole ∉ es) : es.length =
    (es.filterMap begun?).length + (es.filterMap plain?).length := by
  induction es with
  | nil => rfl
  | cons e es ih =>
    have ih := ih fun hmem => h (List.mem_cons_of_mem e hmem)
    cases e with
    | hole => exact absurd List.mem_cons_self h
    | _ =>
      simp only [List.length_cons, ih, begun?, plain?, List.filterMap_cons]
      omega

/-- **A record without holes has as many entries as it makes calls**, if it can be replayed. -/
theorem size_eq_of_replay (h : (replay log).broken = none) (hholes : ∀ i : Nat, log[i]? ≠ some .hole) :
    log.size = (replay log).calls.toList.length := by
  have completes := completes_of_replay h
  have hnone : Event.hole ∉ log.toList := fun hmem => by
    obtain ⟨i, hi⟩ := List.mem_iff_getElem?.mp hmem
    exact hholes i (Array.getElem?_toList ▸ hi)
  rw [length_calls, completes.begun.length_eq, completes.others, ← Array.length_toList,
    length_entries hnone]
  rfl

/-! ## What each entry causes -/

/-- The calls that have been made once so many entries have been replayed. -/
def callsUpTo (log : Array Event) (n : Nat) : List Call := (Replay.entries n 0 log #[]).calls.toList

/-- **An entry causes calls**: they are made when its turn comes, behind those made before. -/
def Causes (log : Array Event) (i : Nat) (cs : List Call) : Prop :=
  i < log.size ∧ callsUpTo log (i + 1) = callsUpTo log i ++ cs

/-- **A record is played in order**: what each entry causes, and what comes of all of them. -/
structure PlayedInOrder (log : Array Event) : Prop where
  /-- A start that nothing links to opens its whole chain, the outermost node first. -/
  opens : ∀ {i : Nat} {kind w}, log[i]? = some (.start kind w) → (∀ j, ¬ LinksTo log j i) →
    Causes log i ((chain log i).reverse.map .start)
  /-- A start that something links to has been opened before its turn. -/
  wrapped : ∀ {i j : Nat}, LinksTo log j i → Causes log i []
  hole : ∀ {i : Nat}, log[i]? = some .hole → Causes log i []
  plain : ∀ {i : Nat} {e : Event} {c : Call}, log[i]? = some e → e.plain? = some c → Causes log i [c]
  /-- Each start is on the chain of one start only that nothing links to. -/
  opener : ∀ {i : Nat} {kind w}, log[i]? = some (.start kind w) →
    ∃! q, Root log q i ∧ ∃ kind w, log[q]? = some (.start kind w)
  /-- There is one start for every start in the record, of the same kind. -/
  once : ((replay log).calls.toList.filterMap Call.begun?).Perm (log.toList.filterMap begun?)
  /-- The other calls are in the order of the record. -/
  others : ((replay log).calls.toList.filter fun c => !c.isStart) = log.toList.filterMap plain?

theorem Linked.callsUpTo_eq (h : Linked log) {n : Nat} (hn : n ≤ log.size) :
    callsUpTo log n = callsBetween log 0 n := by
  rw [callsUpTo, entries_eq h hn, List.toList_toArray]

theorem Linked.causes (h : Linked log) {i : Nat} {e : Event} (he : log[i]? = some e) :
    Causes log i (callsAt log i) := by
  have hlt : i < log.size := (Array.getElem?_eq_some_iff.mp he).1
  refine ⟨hlt, ?_⟩
  rw [h.callsUpTo_eq hlt, h.callsUpTo_eq (Nat.le_of_lt hlt),
    callsBetween_append (Nat.zero_le i) (Nat.le_succ i), callsBetween_succ (Nat.lt_succ_self i),
    callsBetween_self, List.append_nil]

theorem Linked.existsUnique_opener (h : Linked log) {i : Nat}
    (hs : ∃ kind w, log[i]? = some (.start kind w)) :
    ∃! q, Root log q i ∧ ∃ kind w, log[q]? = some (.start kind w) := by
  obtain ⟨q, hq⟩ := h.threaded.exists_root i
  refine ⟨q, ⟨hq, ?_⟩, fun q' hq' => hq'.1.unique h.threaded hq⟩
  rcases hq.climbs.cases_head with rfl | ⟨m, ⟨kind, d, hl, -⟩, -⟩
  · exact hs
  · exact ⟨kind, some d, hl⟩

theorem playedInOrder (h : (replay log).broken = none) : PlayedInOrder log := by
  have completes := completes_of_replay h
  have linked := completes.linked
  refine ⟨?_, ?_, ?_, ?_, ?_, ?_, ?_⟩
  · intro i kind w hs hfirst
    rw [← callsAt_of_first linked.threaded hs hfirst]
    exact linked.causes hs
  · intro i j hl
    obtain ⟨kind, w, hs⟩ := linked.lands hl
    have hnone := callsAt_of_isWrapper ((isWrapper_eq_true_iff linked.threaded).mpr ⟨j, hl⟩)
      ⟨kind, w, hs⟩
    exact hnone ▸ linked.causes hs
  · intro i hole
    exact callsAt_of_hole hole ▸ linked.causes hole
  · intro i e c he hc
    have hcall : callsAt log i = [c] := by
      cases e <;> simp_all [callsAt, plain?]
    exact hcall ▸ linked.causes he
  · intro i kind w hs
    exact linked.existsUnique_opener ⟨kind, w, hs⟩
  · exact completes.begun
  · exact completes.others

/-- **A record can be replayed exactly if it is linked**: if every link leads forward, and to a start,
and no two links lead to the same one.  When it can, each start causes one start, all starts of a chain
when the turn of its first comes, and the other calls are made in their order. -/
theorem replays_iff_linked (log : Array Event) : ((replay log).broken = none ↔ Linked log) ∧
    ((replay log).broken = none → PlayedInOrder log) :=
  ⟨broken_eq_none_iff, playedInOrder⟩

/-- The second of two links to one start finds a hole. -/
example : (replay #[.start .literal (some 2), .start .name (some 1), .start .binExpr none]).broken =
    some (.notStart 1 2 .hole) := by decide +kernel

end LosslessSyntax.Event
