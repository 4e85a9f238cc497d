import LosslessSyntax.Proofs.Event.Growth
import LosslessSyntax.Proofs.Event.Playback

/-!
# Proofs/Event/Interleaving — records of nodes in any order

Nodes may be closed before the nodes inside them, and enclosed long after the nodes around them were
closed.  Whatever the order, a record grows in three ways: by an entry for a call, by a hole that is
filled in while a `finish` is added, and by a link to a new hole.  To fill a hole in puts a start in
front of some of the calls and a finish behind all of them (`calls_closeAt`); a new link changes no call
(`calls_encloseAt`).  So the calls stay balanced, and they tell what the record holds (`Tells`).
-/

namespace LosslessSyntax

/-! ## Calls and entries -/

/-- Whether a call begins a node. -/
def Call.isStart : Call → Bool
  | start _ => true
  | _ => false

/-- The kind of the node that a call begins. -/
def Call.begun? : Call → Option SyntaxKind
  | start kind => some kind
  | _ => none

/-- The kind of the node that an entry begins. -/
def Event.begun? : Event → Option SyntaxKind
  | start kind _ => some kind
  | _ => none

/-- The call that an entry stands for by itself. -/
def Event.plain? : Event → Option Call
  | token => some .token
  | finish => some .finish
  | error c => some (.error c)
  | start .. | hole => none

/-- **Calls are balanced**: no node ends before it begins, and in the end none is left. -/
structure Balanced (cs : List Call) : Prop where
  never : ∀ n, (cs.take n).count .finish ≤ (cs.take n).countP Call.isStart
  even : cs.count .finish = cs.countP Call.isStart

/-- **Calls tell a record**: one start for every start in the record, of the same kind, and the other
calls in the order of the record. -/
structure Tells (cs : List Call) (es : List Event) : Prop where
  balanced : Balanced cs
  begun : (cs.filterMap Call.begun?).Perm (es.filterMap Event.begun?)
  others : (cs.filter fun c => !c.isStart) = es.filterMap Event.plain?

section Lists

variable {as bs cs : List Call} {es xs ys : List Event} {kind : SyntaxKind}

theorem balanced_nil : Balanced [] := ⟨fun n => by simp, rfl⟩

/-- Calls that neither begin nor end a node are balanced. -/
theorem balanced_of_forall (h : ∀ c ∈ cs, c.isStart = false ∧ c ≠ .finish) : Balanced cs := by
  have hnone : ∀ ds ⊆ cs, ds.count .finish = 0 ∧ ds.countP Call.isStart = 0 := by
    intro ds hds
    refine ⟨List.count_eq_zero.mpr fun hc => (h _ (hds hc)).2 rfl, List.countP_eq_zero.mpr ?_⟩
    intro c hc
    simp [(h c (hds hc)).1]
  refine ⟨fun n => ?_, ?_⟩
  · rw [(hnone _ (List.take_subset n cs)).1]
    exact Nat.zero_le _
  · obtain ⟨hfinish, hstart⟩ := hnone cs (List.Subset.refl cs)
    rw [hfinish, hstart]

/-- Balanced calls may follow. -/
theorem Balanced.append (h : Balanced cs) (h' : Balanced bs) : Balanced (cs ++ bs) := by
  refine ⟨fun n => ?_, ?_⟩
  · rw [List.take_append, List.count_append, List.countP_append]
    exact Nat.add_le_add (h.never n) (h'.never _)
  · rw [List.count_append, List.countP_append, h.even, h'.even]

/-- **A node may begin anywhere if it ends at the end.** -/
theorem Balanced.insert (h : Balanced (as ++ bs)) (kind : SyntaxKind) :
    Balanced (as ++ .start kind :: (bs ++ [.finish])) := by
  refine ⟨fun n => ?_, ?_⟩
  · by_cases hn : n ≤ as.length
    · have hfirst := h.never n
      rw [List.take_append_of_le_length hn] at hfirst ⊢
      exact hfirst
    · obtain ⟨k, rfl⟩ : ∃ k, n = as.length + (k + 1) := ⟨n - as.length - 1, by omega⟩
      have hfirst := h.never (as.length + k)
      have hlast : ([Call.finish].take (k - bs.length)).count .finish ≤ 1 :=
        (List.take_sublist ..).count_le _
      have hstart : Call.isStart (.start kind) = true := rfl
      rw [List.take_length_add_append, List.count_append, List.countP_append] at hfirst ⊢
      rw [List.take_succ_cons, List.take_append, List.count_cons_of_ne (by simp),
        List.countP_cons_of_pos hstart, List.count_append, List.countP_append]
      omega
  · have heven := h.even
    have hstart : Call.isStart (.start kind) = true := rfl
    have hfinish : Call.isStart .finish = false := rfl
    rw [List.count_append, List.countP_append] at heven ⊢
    rw [List.count_cons_of_ne (by simp), List.countP_cons_of_pos hstart, List.count_append,
      List.countP_append, List.count_singleton_self, List.countP_singleton, hfinish]
    simp only [Bool.false_eq_true, if_false]
    omega

/-- An entry is added that neither begins nor ends a node. -/
theorem Tells.push {e : Event} (h : Tells cs es) (hs : e.isStart = false) (hf : e ≠ .finish) :
    Tells (cs ++ e.plain?.toList) (es ++ [e]) where
  balanced := h.balanced.append <| balanced_of_forall <| by
    cases e <;> simp_all [Event.plain?, Event.isStart, Call.isStart]
  begun := by
    have hcall : e.plain?.toList.filterMap Call.begun? = [] := by cases e <;> rfl
    have hentry : [e].filterMap Event.begun? = [] := by
      cases e with
      | start => exact absurd hs (by simp [Event.isStart])
      | _ => rfl
    rw [List.filterMap_append, List.filterMap_append, hcall, hentry]
    exact h.begun.append_right []
  others := by
    have hcall : (e.plain?.toList.filter fun c => !c.isStart) = e.plain?.toList := by cases e <;> rfl
    have hentry : [e].filterMap Event.plain? = e.plain?.toList := by cases e <;> rfl
    rw [List.filter_append, List.filterMap_append, hcall, hentry, h.others]

/-- A hole is filled in, and the end of its node is added. -/
theorem Tells.close (h : Tells (as ++ bs) (xs ++ .hole :: ys)) (kind : SyntaxKind) :
    Tells (as ++ .start kind :: (bs ++ [.finish])) (xs ++ .start kind none :: ys ++ [.finish]) where
  balanced := h.balanced.insert kind
  begun := by
    have hbegun := h.begun
    simp only [List.filterMap_append, List.filterMap_cons, Event.begun?, Call.begun?,
      List.filterMap_nil, List.append_nil] at hbegun ⊢
    exact (List.perm_middle.trans (hbegun.cons kind)).trans List.perm_middle.symm
  others := by
    have hothers := h.others
    simp only [List.filterMap_append, List.filterMap_cons, Event.plain?, List.filterMap_nil] at hothers ⊢
    rw [← hothers]
    simp [Call.isStart]

/-- A start is linked to a new hole. -/
theorem Tells.enclose {w : Option Nat} (h : Tells cs (xs ++ .start kind none :: ys)) :
    Tells cs (xs ++ .start kind w :: ys ++ [.hole]) := by
  refine ⟨h.balanced, ?_, ?_⟩
  · simpa [List.filterMap_cons, Event.begun?] using h.begun
  · simpa [List.filterMap_cons, Event.plain?] using h.others

/-- A record that balanced calls tell has as many starts as ends. -/
theorem Tells.paired (h : Tells cs es) : es.countP Event.isStart = es.count .finish := by
  have hstarts : (es.filterMap Event.begun?).length = es.countP Event.isStart := by
    rw [List.length_filterMap_eq_countP]
    exact List.countP_congr fun e _ => by cases e <;> simp [Event.begun?, Event.isStart]
  have hcalls : (cs.filterMap Call.begun?).length = cs.countP Call.isStart := by
    rw [List.length_filterMap_eq_countP]
    exact List.countP_congr fun c _ => by cases c <;> simp [Call.begun?, Call.isStart]
  have hfinishes : (es.filterMap Event.plain?).count .finish = es.count .finish := by
    rw [List.count, List.countP_filterMap]
    exact List.countP_congr fun e _ => by cases e <;> simp [Event.plain?]
  calc es.countP Event.isStart
    _ = cs.countP Call.isStart := by rw [← hstarts, ← h.begun.length_eq, hcalls]
    _ = cs.count .finish := h.balanced.even.symm
    _ = (cs.filter fun c => !c.isStart).count .finish := (List.count_filter rfl).symm
    _ = es.count .finish := by rw [h.others, hfinishes]

end Lists

/-! ## What a record says -/

namespace Event

variable {log : Array Event} {p : Nat} {kind : SyntaxKind}

/-- **The calls that a record stands for**, entry by entry. -/
def calls (log : Array Event) : List Call := callsBetween log 0 log.size

theorem calls_push (h : Threaded log) {e : Event} (he : e.isStart = false) :
    calls (log.push e) = calls log ++ e.plain?.toList := by
  have hunlinked : e.Unlinked := fun kind d hd => absurd he (by simp [hd, isStart])
  have hlast : callsAt (log.push e) log.size = e.plain?.toList := by
    cases e with
    | start => exact absurd he (by simp [isStart])
    | _ => simp [callsAt, plain?]
  have hbefore : callsBetween (log.push e) 0 log.size = callsBetween log 0 log.size :=
    callsBetween_congr fun i _ hi => callsAt_push h hunlinked hi
  rw [calls, Array.size_push, callsBetween_append (Nat.zero_le log.size) (Nat.le_succ _), hbefore,
    callsBetween_succ (Nat.lt_succ_self _), hlast, callsBetween_self, List.append_nil, calls]

/-- What leads to an entry starts somewhere. -/
theorem Threaded.exists_root (h : Threaded log) (p : Nat) : ∃ q, Root log q p := by
  induction p using Nat.strongRecOn with
  | ind p ih =>
    by_cases hp : ∃ j, LinksTo log j p
    · obtain ⟨j, hj⟩ := hp
      obtain ⟨q, hq⟩ := ih j (h.forward hj)
      exact ⟨q, hq.climbs.tail hj, hq.first⟩
    · exact ⟨p, .refl, not_exists.mp hp⟩

/-- **To close a node puts its start in front of some calls**, and its end behind all of them. -/
theorem calls_closeAt (h : Threaded log) (hole : log[p]? = some .hole) (kind : SyntaxKind) :
    ∃ as bs, calls log = as ++ bs ∧
      calls (closeAt log p kind) = as ++ .start kind :: (bs ++ [.finish]) := by
  obtain ⟨q, hq⟩ := h.exists_root p
  have hp : p < log.size := (Array.getElem?_eq_some_iff.mp hole).1
  have hqs : q < log.size := Nat.lt_of_le_of_lt (hq.climbs.le h) hp
  have hothers : ∀ i < log.size, i ≠ q → callsAt (closeAt log p kind) i = callsAt log i :=
    fun i hi hne => callsAt_closeAt_of_ne hole h hq hi hne
  have hbefore : callsBetween (closeAt log p kind) 0 q = callsBetween log 0 q :=
    callsBetween_congr fun i _ hi => hothers i (by omega) (by omega)
  have hbehind : callsBetween (closeAt log p kind) (q + 1) log.size = callsBetween log (q + 1) log.size :=
    callsBetween_congr fun i hi hlt => hothers i hlt (by omega)
  refine ⟨callsBetween log 0 q, callsBetween log q log.size, ?_, ?_⟩
  · exact callsBetween_append (Nat.zero_le _) (Nat.le_of_lt hqs)
  · rw [calls, size_closeAt, callsBetween_append (Nat.zero_le q) (by omega),
      callsBetween_append (Nat.le_of_lt hqs) (Nat.le_succ _), callsBetween_succ hqs, hbefore,
      hbehind, callsAt_closeAt_root hole h hq, callsBetween_succ (Nat.lt_succ_self _),
      callsAt_closeAt_size, callsBetween_self, callsBetween_succ hqs]
    simp

/-- **To enclose a node changes none of the calls.** -/
theorem calls_encloseAt (h : Threaded log) (closed : log[p]? = some (.start kind none)) :
    calls (encloseAt log p kind) = calls log := by
  have hlast : callsAt (encloseAt log p kind) log.size = [] := callsAt_of_hole getElem?_encloseAt_size
  have hbefore : callsBetween (encloseAt log p kind) 0 log.size = callsBetween log 0 log.size :=
    callsBetween_congr fun i _ hi => callsAt_encloseAt closed h hi
  rw [calls, size_encloseAt, callsBetween_append (Nat.zero_le log.size) (Nat.le_succ _), hbefore,
    callsBetween_succ (Nat.lt_succ_self _), hlast, callsBetween_self]
  exact List.append_nil _

/-- The entries around one of a record. -/
theorem exists_toList_eq {e : Event} (h : log[p]? = some e) : ∃ xs ys, log.toList = xs ++ e :: ys ∧
    ∀ e', (log.setIfInBounds p e').toList = xs ++ e' :: ys := by
  obtain ⟨hp, rfl⟩ := Array.getElem?_eq_some_iff.mp h
  refine ⟨log.toList.take p, log.toList.drop (p + 1), ?_, fun e' => ?_⟩
  · have hdrop := List.drop_eq_getElem_cons (l := log.toList) (i := p) (by simpa using hp)
    rw [Array.getElem_toList] at hdrop
    rw [← hdrop, List.take_append_drop]
  · rw [Array.toList_setIfInBounds, List.set_eq_take_append_cons_drop, if_pos (by simpa using hp)]

/-! ## Holes and handles -/

/-- **A record is tended** if its holes are the places of the open nodes, and the nodes that may still
be enclosed are not enclosed yet. -/
structure Tended (log : Array Event) (opened closed : Nat → Prop) : Prop where
  threaded : Threaded log
  hole_iff : ∀ p : Nat, log[p]? = some .hole ↔ opened p
  free : ∀ p, closed p → ∃ kind, log[p]? = some (.start kind none)
  tells : Tells (calls log) log.toList

variable {opened opened' closed closed' : Nat → Prop}

theorem tended_empty : Tended #[] (fun _ => False) fun _ => False where
  threaded :=
    ⟨fun hl => absurd hl.lt_size (Nat.not_lt_zero _), fun hl => absurd hl.lt_size (Nat.not_lt_zero _),
      fun hl => absurd hl.lt_size (Nat.not_lt_zero _)⟩
  hole_iff p := by simp
  free p hp := hp.elim
  tells := ⟨balanced_nil, .nil, rfl⟩

theorem Tended.mono (h : Tended log opened closed) (ho : ∀ p, opened p ↔ opened' p)
    (hc : ∀ p, closed' p → closed p) : Tended log opened' closed' :=
  ⟨h.threaded, fun p => (h.hole_iff p).trans (ho p), fun p hp => h.free p (hc p hp), h.tells⟩

/-- The place of an open node lies in the log. -/
theorem Tended.lt_size (h : Tended log opened closed) (hp : opened p) : p < log.size :=
  (Array.getElem?_eq_some_iff.mp ((h.hole_iff p).mpr hp)).1

/-- An entry is added that is neither a hole nor the end of a node. -/
theorem Tended.push (h : Tended log opened closed) {e : Event} (hs : e.isStart = false)
    (hf : e ≠ .finish) (hh : e ≠ .hole) : Tended (log.push e) opened closed where
  threaded := h.threaded.push fun kind d hd => absurd hs (by simp [hd, isStart])
  hole_iff p := by
    rw [← h.hole_iff, Array.getElem?_push]
    split
    · next hp => simp [hp, hh]
    · rfl
  free p hp := by
    obtain ⟨kind, hkind⟩ := h.free p hp
    exact ⟨kind, (getElem?_push_of_lt (Array.getElem?_eq_some_iff.mp hkind).1).trans hkind⟩
  tells := by
    rw [calls_push h.threaded hs, Array.toList_push]
    exact h.tells.push hs hf

/-- A node is opened. -/
theorem Tended.start (h : Tended log opened closed) :
    Tended (log.push .hole) (fun p => p = log.size ∨ opened p) closed where
  threaded := h.threaded.push unlinked_hole
  hole_iff p := by
    rw [← h.hole_iff, Array.getElem?_push]
    split
    · next hp => simp [hp]
    · next hp => simp [hp]
  free p hp := by
    obtain ⟨kind, hkind⟩ := h.free p hp
    exact ⟨kind, (getElem?_push_of_lt (Array.getElem?_eq_some_iff.mp hkind).1).trans hkind⟩
  tells := by
    rw [calls_push h.threaded rfl, Array.toList_push]
    exact h.tells.push rfl (by simp)

/-- **An open node is closed**, whatever was opened after it. -/
theorem Tended.close (h : Tended log opened closed) (hp : opened p) (kind : SyntaxKind) :
    Tended (closeAt log p kind) (fun r => r ≠ p ∧ opened r) (fun r => r = p ∨ closed r) := by
  have hole := (h.hole_iff p).mpr hp
  refine ⟨h.threaded.close hole, fun r => ⟨fun hr => ?_, ?_⟩, ?_, ?_⟩
  · obtain ⟨hne, hr⟩ := hole_of_closeAt hole hr
    exact ⟨Ne.symm hne, (h.hole_iff r).mp hr⟩
  · rintro ⟨hne, hr⟩
    have hr := (h.hole_iff r).mpr hr
    rw [getElem?_closeAt_of_ne (Array.getElem?_eq_some_iff.mp hr).1 (Ne.symm hne), hr]
  · rintro r (rfl | hr)
    · exact ⟨kind, getElem?_closeAt_self hole⟩
    · obtain ⟨k, hk⟩ := h.free r hr
      have hne : p ≠ r := fun he => by simp [← he, hole] at hk
      exact ⟨k, by rw [getElem?_closeAt_of_ne (Array.getElem?_eq_some_iff.mp hk).1 hne, hk]⟩
  · obtain ⟨as, bs, hcalls, hcalls'⟩ := calls_closeAt h.threaded hole kind
    obtain ⟨xs, ys, hlog, hlog'⟩ := exists_toList_eq hole
    have tells := h.tells
    rw [hcalls, hlog] at tells
    rw [hcalls', closeAt, Array.toList_push, hlog']
    exact tells.close kind

/-- **A closed node is enclosed**, whatever was closed around it. -/
theorem Tended.enclose (h : Tended log opened closed) (hp : closed p) :
    ∃ kind, log[p]? = some (.start kind none) ∧ Tended (encloseAt log p kind)
      (fun r => r = log.size ∨ opened r) (fun r => r ≠ p ∧ closed r) := by
  obtain ⟨kind, hkind⟩ := h.free p hp
  have hlt := (Array.getElem?_eq_some_iff.mp hkind).1
  refine ⟨kind, hkind, h.threaded.enclose hkind, fun r => ⟨fun hr => ?_, ?_⟩, ?_, ?_⟩
  · exact (hole_of_encloseAt hlt hr).imp_right (h.hole_iff r).mp
  · rintro (rfl | hr)
    · exact getElem?_encloseAt_size
    · have hr := (h.hole_iff r).mpr hr
      have hne : p ≠ r := fun he => by simp [← he, hkind] at hr
      rw [getElem?_encloseAt_of_ne (Array.getElem?_eq_some_iff.mp hr).1 hne, hr]
  · rintro r ⟨hne, hr⟩
    obtain ⟨k, hk⟩ := h.free r hr
    exact ⟨k, by rw [getElem?_encloseAt_of_ne (Array.getElem?_eq_some_iff.mp hk).1 (Ne.symm hne), hk]⟩
  · obtain ⟨xs, ys, hlog, hlog'⟩ := exists_toList_eq hkind
    have tells := h.tells
    rw [hlog] at tells
    rw [calls_encloseAt h.threaded hkind, encloseAt, Array.toList_push, hlog']
    exact tells.enclose

/-! ## Records in which every node is closed -/

/-- **A record is well formed**: every node in it is closed, every link leads to a later start of its
own, and it is replayed to the end, with one call for each entry, balanced all along. -/
structure WellFormed (log : Array Event) : Prop where
  noHole : ∀ p : Nat, log[p]? ≠ some .hole
  paired : log.countP isStart = log.count .finish
  linked : Linked log
  unbroken : (replay log).broken = none
  tells : Tells (replay log).calls.toList log.toList

theorem Tended.wellFormed (h : Tended log (fun _ => False) closed) : WellFormed log := by
  have noHole : ∀ p : Nat, log[p]? ≠ some .hole := fun p hp => (h.hole_iff p).mp hp
  have linked := h.threaded.linked noHole
  have hreplay := replay_of_linked linked
  refine ⟨noHole, ?_, linked, by rw [hreplay], ?_⟩
  · rw [← Array.countP_toList, ← Array.count_toList]
    exact h.tells.paired
  · rw [hreplay, List.toList_toArray]
    exact h.tells

end Event

end LosslessSyntax
