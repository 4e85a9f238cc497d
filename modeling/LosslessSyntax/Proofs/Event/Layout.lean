import LosslessSyntax.Proofs.Event.Growth
import LosslessSyntax.Proofs.Event.Nest

/-!
# Proofs/Event/Layout — where the items of a nest stand in a record

A record in progress says, from left to right, what the nest that was built with it holds: the items
before each open node, then those of the innermost one.  An item stands where the calls of its outline
are made; between two items there may be entries that say nothing, such as the place of a wrapper.
`Agrees` adds what a wrapper needs to know: the chain of a closed node ends at its start, and the chain
of an open one at its hole, where the calls of its content begin.
-/

namespace LosslessSyntax.Event

variable {log log' : Array Event}

/-- An item stands between two places of a record, with nothing said in front of it.  If it may be
enclosed, its chain begins where it begins. -/
structure Stands (log : Array Event) (it : Item) (a q b : Nat) : Prop where
  le : a ≤ q
  lt : q < b
  silent : callsBetween log a q = []
  calls : callsBetween log q b = it.outline.calls
  root : ∀ p, it.handle = some p → Root log q p
  closed : ∀ p, it.handle = some p → ∃ kind, log[p]? = some (.start kind none)

/-- Items stand one behind the other between two places of a record. -/
inductive Lays (log : Array Event) : Nat → List Item → Nat → Prop
  | nil {a b : Nat} (le : a ≤ b) (silent : callsBetween log a b = []) : Lays log a [] b
  | cons {a q m b : Nat} {it : Item} {its : List Item} (stands : Stands log it a q m)
      (lays : Lays log m its b) : Lays log a (it :: its) b

/-- The items before the open nodes stand one behind the other up to the place where the content of
the innermost one begins, which is where its chain begins. -/
inductive Holds (log : Array Event) : List Scope → Nat → Prop
  | nil : Holds log [] 0
  | cons {s : Scope} {ss : List Scope} {a q : Nat} (holds : Holds log ss a)
      (lays : Lays log a s.before q) (root : Root log q s.opened)
      (hole : log[s.opened]? = some .hole) : Holds log (s :: ss) q

/-- **A record says what a nest holds.**  Open and closed nodes are numbered by their places in the
record. -/
structure Agrees (log : Array Event) (g : Nest) : Prop where
  threaded : Threaded log
  holes : ∀ p : Nat, log[p]? = some .hole → p ∈ g.scopes.map Scope.opened
  sorted : (g.scopes.map Scope.opened).Pairwise (· > ·)
  laid : ∃ q, Holds log g.scopes q ∧ Lays log q g.current log.size

/-! ## Items in a row -/

theorem Stands.silent_append {it : Item} {a m q b : Nat} (ham : a ≤ m)
    (hs : callsBetween log a m = []) (h : Stands log it m q b) : Stands log it a q b where
  le := Nat.le_trans ham h.le
  lt := h.lt
  silent := by rw [callsBetween_append ham h.le, hs, h.silent, List.nil_append]
  calls := h.calls
  root := h.root
  closed := h.closed

theorem Lays.le {a b : Nat} {its : List Item} (h : Lays log a its b) : a ≤ b := by
  induction h with
  | nil le _ => exact le
  | cons stands _ ih =>
    have := stands.le
    have := stands.lt
    omega

theorem Lays.silent_append {a m b : Nat} {its : List Item} (ham : a ≤ m)
    (hs : callsBetween log a m = []) (h : Lays log m its b) : Lays log a its b := by
  cases h with
  | nil le silent =>
    exact .nil (Nat.le_trans ham le) (by rw [callsBetween_append ham le, hs, silent, List.nil_append])
  | cons stands lays => exact .cons (stands.silent_append ham hs) lays

theorem Lays.append {a m b : Nat} {its its' : List Item} (h : Lays log a its m)
    (h' : Lays log m its' b) : Lays log a (its ++ its') b := by
  induction h with
  | nil le silent => exact h'.silent_append le silent
  | cons stands _ ih => exact .cons stands (ih h')

theorem Lays.of_append {a b : Nat} {its its' : List Item} (h : Lays log a (its ++ its') b) :
    ∃ m, Lays log a its m ∧ Lays log m its' b := by
  induction its generalizing a with
  | nil => exact ⟨a, .nil (Nat.le_refl a) (callsBetween_self log a), h⟩
  | cons it its ih =>
    cases h with
    | cons stands lays =>
      obtain ⟨m, hm, hm'⟩ := ih lays
      exact ⟨m, .cons stands hm, hm'⟩

/-- **Items in a row make the calls of their outlines.** -/
theorem Lays.calls_eq {a b : Nat} {its : List Item} (h : Lays log a its b) :
    callsBetween log a b = Outline.callsAll (its.map Item.outline) := by
  induction h with
  | nil _ silent => simp [silent]
  | @cons a q m b it its stands lays ih =>
    have hmb := lays.le
    have hqm := stands.lt
    rw [callsBetween_append stands.le (by omega), callsBetween_append (m := m) (by omega) hmb,
      stands.silent, stands.calls, ih]
    simp

/-- A row of items stays in place if what the entries there say stays the same, and so do the chains
that begin there. -/
theorem Lays.congr {a b : Nat} {its : List Item} (h : Lays log a its b)
    (hcalls : ∀ i, a ≤ i → i < b → callsAt log' i = callsAt log i)
    (hclosed : ∀ q p kind, a ≤ q → q < b → Root log q p → log[p]? = some (.start kind none) →
      Root log' q p ∧ log'[p]? = some (.start kind none)) : Lays log' a its b := by
  induction h with
  | nil le silent => exact .nil le (by rw [callsBetween_congr hcalls, silent])
  | @cons a q m b it its stands lays ih =>
    have hmb := lays.le
    have haq := stands.le
    have hqm := stands.lt
    refine .cons ⟨haq, hqm, ?_, ?_, fun p hp => ?_, fun p hp => ?_⟩
      (ih (fun i hi => hcalls i (by omega)) fun q' p kind hq' => hclosed q' p kind (by omega))
    · rw [callsBetween_congr fun i hi hi' => hcalls i hi (by omega), stands.silent]
    · rw [callsBetween_congr fun i hi hi' => hcalls i (by omega) (by omega), stands.calls]
    · obtain ⟨kind, hk⟩ := stands.closed p hp
      exact (hclosed q p kind haq (by omega) (stands.root p hp) hk).1
    · obtain ⟨kind, hk⟩ := stands.closed p hp
      exact ⟨kind, (hclosed q p kind haq (by omega) (stands.root p hp) hk).2⟩

/-! ## Open nodes -/

theorem Holds.lt_size {ss : List Scope} {q : Nat} (h : Holds log ss q) {s : Scope} (hs : s ∈ ss) :
    s.opened < log.size := by
  induction h with
  | nil => exact absurd hs (by simp)
  | cons _ _ _ hole ih =>
    rcases List.mem_cons.mp hs with rfl | hs
    · exact (Array.getElem?_eq_some_iff.mp hole).1
    · exact ih hs

/-- Open nodes stay in place if what the entries before say stays the same, and so do the chains that
begin there. -/
theorem Holds.congr {ss : List Scope} {q : Nat} (h : Holds log ss q)
    (hcalls : ∀ i < q, callsAt log' i = callsAt log i)
    (hclosed : ∀ q' p kind, q' < q → Root log q' p → log[p]? = some (.start kind none) →
      Root log' q' p ∧ log'[p]? = some (.start kind none))
    (hopen : ∀ s ∈ ss, ∀ q', Root log q' s.opened → log[s.opened]? = some .hole →
      Root log' q' s.opened ∧ log'[s.opened]? = some .hole) : Holds log' ss q := by
  induction h with
  | nil => exact .nil
  | @cons s ss a q holds lays root hole ih =>
    have haq := lays.le
    obtain ⟨hroot, hhole⟩ := hopen s List.mem_cons_self q root hole
    refine .cons (ih (fun i hi => hcalls i (by omega)) (fun q' p kind hq' => hclosed q' p kind (by omega))
      fun s' hs' => hopen s' (List.mem_cons_of_mem _ hs')) ?_ hroot hhole
    exact lays.congr (fun i _ hi => hcalls i hi) fun q' p kind _ => hclosed q' p kind

/-! ## Recording an entry -/

/-- What an entry added to a record leaves in place. -/
theorem Agrees.laid_push {g : Nest} (h : Agrees log g) {e : Event} (he : e.Unlinked) :
    ∃ q, Holds (log.push e) g.scopes q ∧ Lays (log.push e) q g.current log.size := by
  obtain ⟨q, holds, lays⟩ := h.laid
  have hle := lays.le
  have hclosed (q' p : Nat) (kind : SyntaxKind) (hr : Root log q' p)
      (hp : log[p]? = some (.start kind none)) :
      Root (log.push e) q' p ∧ (log.push e)[p]? = some (.start kind none) :=
    ⟨hr.push he, (getElem?_push_of_lt (Array.getElem?_eq_some_iff.mp hp).1).trans hp⟩
  refine ⟨q, holds.congr (fun i hi => callsAt_push h.threaded he (by omega))
    (fun q' p kind _ => hclosed q' p kind) fun s _ q' hr hp => ⟨hr.push he, ?_⟩,
    lays.congr (fun i _ hi => callsAt_push h.threaded he hi) fun q' p kind _ _ => hclosed q' p kind⟩
  exact (getElem?_push_of_lt (Array.getElem?_eq_some_iff.mp hp).1).trans hp

/-- **An entry that makes one call adds its leaf.** -/
theorem Agrees.push {g : Nest} (h : Agrees log g) {e : Event} {o : Outline} (he : e.Unlinked)
    (hole : e ≠ .hole) (hcalls : callsAt (log.push e) log.size = o.calls) :
    Agrees (log.push e) (g.add o) where
  threaded := h.threaded.push he
  holes p hp := by
    rw [Array.getElem?_push] at hp
    split at hp
    · exact absurd (Option.some.inj hp) hole
    · exact h.holes p hp
  sorted := h.sorted
  laid := by
    obtain ⟨q, holds, lays⟩ := h.laid_push he
    refine ⟨q, holds, ?_⟩
    rw [Array.size_push]
    refine lays.append (.cons ⟨Nat.le_refl _, Nat.lt_succ_self _, callsBetween_self _ _, ?_, ?_, ?_⟩
      (.nil (Nat.le_refl _) (callsBetween_self _ _)))
    · rw [callsBetween_succ (Nat.lt_succ_self _), callsBetween_self, List.append_nil, hcalls]
    · exact fun p hp => absurd hp (by simp)
    · exact fun p hp => absurd hp (by simp)

theorem Agrees.token {g : Nest} (h : Agrees log g) (l : Lexeme) :
    Agrees (log.push .token) (g.add (.word l)) :=
  h.push (by simp [Unlinked]) (by simp) (by simp [callsAt])

theorem Agrees.error {g : Nest} (h : Agrees log g) (c : Complaint) :
    Agrees (log.push (.error c)) (g.add (.error c)) :=
  h.push (by simp [Unlinked]) (by simp) (by simp [callsAt])

/-- **A hole opens a node.** -/
theorem Agrees.start {g : Nest} (h : Agrees log g) : Agrees (log.push .hole) (g.start log.size) where
  threaded := h.threaded.push (by simp [Unlinked])
  holes p hp := by
    rw [Array.getElem?_push] at hp
    split at hp
    · next he => simp [Nest.start, he]
    · exact List.mem_cons_of_mem _ (h.holes p hp)
  sorted := by
    obtain ⟨q, holds, -⟩ := h.laid
    refine List.pairwise_cons.mpr ⟨fun p hp => ?_, h.sorted⟩
    obtain ⟨s, hs, rfl⟩ := List.mem_map.mp hp
    exact holds.lt_size hs
  laid := by
    obtain ⟨q, holds, lays⟩ := h.laid_push (e := .hole) (by simp [Unlinked])
    have hole : (log.push .hole)[log.size]? = some .hole := by simp
    refine ⟨log.size, .cons holds lays ⟨.refl, fun j hl => ?_⟩ hole, .nil (by simp) ?_⟩
    · exact absurd (h.threaded.lt_size ((linksTo_push (by simp [Unlinked])).mp hl)) (by omega)
    · rw [Array.size_push, callsBetween_succ (Nat.lt_succ_self _), callsBetween_self,
        callsAt_of_hole hole, List.append_nil]

/-! ## Closing a node -/

/-- A closed node stands from where its chain begins to the end of the record. -/
theorem Stands.close (h : Threaded log) {cur : List Item} {p q : Nat} {kind : SyntaxKind}
    (hole : log[p]? = some .hole) (root : Root log q p) (lays : Lays log q cur log.size) :
    Stands (closeAt log p kind) ⟨some p, .node kind (cur.map Item.outline)⟩ q q (log.size + 1) := by
  have hp : p < log.size := (Array.getElem?_eq_some_iff.mp hole).1
  have hqp := root.climbs.le h
  refine ⟨Nat.le_refl q, by omega, callsBetween_self _ _, ?_, fun r hr => ?_, fun r hr => ?_⟩
  · have hcontent := lays.calls_eq
    rw [callsBetween_succ (by omega)] at hcontent
    have hlater : callsBetween (closeAt log p kind) (q + 1) log.size
        = callsBetween log (q + 1) log.size :=
      callsBetween_congr fun i hi hi' => callsAt_closeAt_of_ne hole h root hi' (by omega)
    have hend : callsBetween (closeAt log p kind) log.size (log.size + 1) = [.finish] := by
      rw [callsBetween_succ (Nat.lt_succ_self _), callsBetween_self, callsAt_closeAt_size,
        List.append_nil]
    rw [callsBetween_append (m := log.size) (by omega) (by omega), callsBetween_succ (by omega),
      callsAt_closeAt_root hole h root, hlater, hend, List.cons_append, hcontent, Outline.calls_node,
      List.cons_append]
  · obtain rfl : p = r := by simpa using hr
    exact root.close hole
  · obtain rfl : p = r := by simpa using hr
    exact ⟨kind, getElem?_closeAt_self hole⟩

/-- A row of items in front of a node stays in place when the node is closed. -/
theorem Lays.close (h : Threaded log) {its : List Item} {a b p q : Nat} {kind : SyntaxKind}
    (hole : log[p]? = some .hole) (root : Root log q p) (lays : Lays log a its b) (hb : b ≤ q) :
    Lays (closeAt log p kind) a its b := by
  have hp : p < log.size := (Array.getElem?_eq_some_iff.mp hole).1
  have hqp := root.climbs.le h
  refine lays.congr (fun i _ hi => callsAt_closeAt_of_ne hole h root (by omega) (by omega))
    fun q' r k _ _ hr hk => ⟨hr.close hole, ?_⟩
  have hne : p ≠ r := fun he => by simp [← he, hole] at hk
  exact (getElem?_closeAt_of_ne (Array.getElem?_eq_some_iff.mp hk).1 hne).trans hk

/-- The nodes around a node stay open when the node is closed. -/
theorem Holds.close (h : Threaded log) {ss : List Scope} {a p q : Nat} {kind : SyntaxKind}
    (hole : log[p]? = some .hole) (root : Root log q p) (holds : Holds log ss a) (ha : a ≤ q)
    (outside : ∀ s ∈ ss, s.opened < p) : Holds (closeAt log p kind) ss a := by
  have hp : p < log.size := (Array.getElem?_eq_some_iff.mp hole).1
  induction holds with
  | nil => exact .nil
  | @cons s ss a b holds lays root' hole' ih =>
    have hlt := outside s List.mem_cons_self
    refine .cons (ih (Nat.le_trans lays.le ha) fun s' hs' => outside s' (List.mem_cons_of_mem _ hs'))
      (lays.close h hole root ha) (root'.close hole) ?_
    exact (getElem?_closeAt_of_ne (by omega) (by omega)).trans hole'

/-- **Filling its hole in and recording the end closes the innermost node.** -/
theorem Agrees.close {cur before : List Item} {ss : List Scope} {p : Nat}
    (h : Agrees log ⟨cur, ⟨p, before⟩ :: ss⟩) (kind : SyntaxKind) :
    log[p]? = some .hole ∧ Agrees (closeAt log p kind)
      ⟨before ++ [⟨some p, .node kind (cur.map Item.outline)⟩], ss⟩ := by
  obtain ⟨q, holds, lays⟩ := h.laid
  obtain ⟨outside, inner⟩ := List.pairwise_cons.mp h.sorted
  cases holds with
  | @cons _ _ a _ holds lays' root hole =>
    replace hole : log[p]? = some .hole := hole
    replace root : Root log q p := root
    refine ⟨hole, h.threaded.close hole, fun r hr => ?_, inner, a,
      holds.close h.threaded hole root lays'.le fun s hs => outside _ (List.mem_map_of_mem hs), ?_⟩
    · obtain ⟨hne, hr⟩ := hole_of_closeAt hole hr
      exact (List.mem_cons.mp (h.holes r hr)).resolve_left (Ne.symm hne)
    · rw [size_closeAt]
      exact (lays'.close h.threaded hole root (Nat.le_refl q)).append
        (.cons (.close h.threaded hole root lays) (.nil (Nat.le_refl _) (callsBetween_self _ _)))

/-! ## Enclosing a node -/

section Enclose

variable {its : List Item} {a b p q : Nat} {kind : SyntaxKind}

/-- A row of items beside a node stays in place when the node is enclosed: no other chain ends where
its chain does. -/
theorem Lays.enclose (h : Threaded log) (closed : log[p]? = some (.start kind none))
    (root : Root log q p) (lays : Lays log a its b) (hb : b ≤ log.size) (hq : b ≤ q ∨ q < a) :
    Lays (encloseAt log p kind) a its b := by
  refine lays.congr (fun i _ hi => callsAt_encloseAt closed h (by omega))
    fun q' r k hle hlt hr hk => ⟨hr.enclose closed (by omega), ?_⟩
  have hne : p ≠ r := by
    rintro rfl
    have := hr.unique h root
    omega
  exact (getElem?_encloseAt_of_ne (Array.getElem?_eq_some_iff.mp hk).1 hne).trans hk

/-- The nodes around a node stay open when the node is enclosed. -/
theorem Holds.enclose (h : Threaded log) (closed : log[p]? = some (.start kind none))
    (root : Root log q p) {ss : List Scope} (holds : Holds log ss a) (ha : a ≤ q) :
    Holds (encloseAt log p kind) ss a := by
  have hp : p < log.size := (Array.getElem?_eq_some_iff.mp closed).1
  have hqp := root.climbs.le h
  induction holds with
  | nil => exact .nil
  | @cons s ss a b holds lays root' hole ih =>
    have hne : p ≠ s.opened := fun he => by simp [← he, closed] at hole
    refine .cons (ih (Nat.le_trans lays.le ha)) (lays.enclose h closed root (by omega) (.inl ha))
      (root'.enclose closed (by omega)) ?_
    exact (getElem?_encloseAt_of_ne (Array.getElem?_eq_some_iff.mp hole).1 hne).trans hole

/-- A node that is enclosed stands where it stood, with nothing said in front of it. -/
theorem Stands.enclose (h : Threaded log) (closed : log[p]? = some (.start kind none)) {o : Outline}
    (stands : Stands log ⟨some p, o⟩ a q b) (hb : b ≤ log.size) :
    callsBetween (encloseAt log p kind) a q = [] ∧
      Stands (encloseAt log p kind) ⟨none, o⟩ q q b := by
  have hlt := stands.lt
  have hcalls (i : Nat) (hi : i < b) : callsAt (encloseAt log p kind) i = callsAt log i :=
    callsAt_encloseAt closed h (by omega)
  refine ⟨?_, Nat.le_refl q, hlt, callsBetween_self _ _, ?_, ?_, ?_⟩
  · rw [callsBetween_congr fun i _ hi => hcalls i (by omega), stands.silent]
  · rw [callsBetween_congr fun i _ hi => hcalls i hi, stands.calls]
  · exact fun r hr => absurd hr (by simp)
  · exact fun r hr => absurd hr (by simp)

end Enclose

/-- **Linking its start to a new hole opens a node that encloses a closed one** and what stands behind
it. -/
theorem Agrees.enclose {before after : List Item} {o : Outline} {ss : List Scope} {p : Nat}
    (h : Agrees log ⟨before ++ ⟨some p, o⟩ :: after, ss⟩) :
    ∃ kind, log[p]? = some (.start kind none) ∧ Agrees (encloseAt log p kind)
      ⟨⟨none, o⟩ :: after, ⟨log.size, before⟩ :: ss⟩ := by
  obtain ⟨q₀, holds, lays⟩ := h.laid
  obtain ⟨m, hbefore, lays⟩ := lays.of_append
  cases lays with
  | @cons _ q b _ _ _ stands hafter =>
    obtain ⟨kind, closed⟩ := stands.closed p rfl
    have root := stands.root p rfl
    have hqm := hbefore.le
    have hmq := stands.le
    have hqb := stands.lt
    have hbs := hafter.le
    have hp : p < log.size := (Array.getElem?_eq_some_iff.mp closed).1
    have hole : (encloseAt log p kind)[log.size]? = some .hole := getElem?_encloseAt_size
    have hgap : callsBetween (encloseAt log p kind) log.size (log.size + 1) = [] := by
      rw [callsBetween_succ (Nat.lt_succ_self _), callsBetween_self, callsAt_of_hole hole,
        List.append_nil]
    obtain ⟨hsilent, hfirst⟩ := stands.enclose h.threaded closed hbs
    have houter := holds.enclose h.threaded closed root (by omega)
    have hfront := hbefore.enclose h.threaded closed root (by omega) (.inl hmq)
    have hback := hafter.enclose h.threaded closed root (Nat.le_refl _) (.inr hqb)
    refine ⟨kind, closed, h.threaded.enclose closed, fun r hr => ?_, ?_, q, ?_, ?_⟩
    · rcases hole_of_encloseAt hp hr with rfl | hr
      · exact List.mem_cons_self
      · exact List.mem_cons_of_mem _ (h.holes r hr)
    · refine List.pairwise_cons.mpr ⟨fun r hr => ?_, h.sorted⟩
      obtain ⟨s, hs, rfl⟩ := List.mem_map.mp hr
      exact holds.lt_size hs
    · refine .cons houter ?_ (root.enclose_top closed h.threaded) hole
      simpa using hfront.append (.nil hmq hsilent)
    · rw [size_encloseAt]
      simpa using (Lays.cons hfirst hback).append (.nil (Nat.le_succ _) hgap)

/-! ## The end -/

/-- Nothing is recorded of an empty nest. -/
theorem Agrees.empty : Agrees #[] .empty where
  threaded := ⟨fun hl => absurd hl.lt_size (by simp), fun hl => absurd hl.lt_size (by simp),
    fun hl _ => absurd hl.lt_size (by simp)⟩
  holes p hp := absurd hp (by simp)
  sorted := .nil
  laid := ⟨0, .nil, .nil (Nat.le_refl 0) (callsBetween_self _ _)⟩

/-- **When every node is closed, the record is linked and makes the calls of what was built.** -/
theorem Agrees.linked {its : List Item} (h : Agrees log ⟨its, []⟩) :
    Linked log ∧ callsBetween log 0 log.size = Outline.callsAll (its.map Item.outline) := by
  obtain ⟨q, holds, lays⟩ := h.laid
  cases holds
  exact ⟨h.threaded.linked fun p hp => absurd (h.holes p hp) (by simp), lays.calls_eq⟩

end LosslessSyntax.Event
