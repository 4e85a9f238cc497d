import LosslessSyntax.Event.Replay
import Mathlib.Data.List.Basic
import Mathlib.Logic.Relation

/-!
# Proofs/Event/Link — where the links of a record lead, and what the record says

A start links to the start of its wrapper, that one to the start of *its* wrapper, and so on: a
**chain** (`chain`), which the replay opens at its innermost end, outermost node first.  So every
entry of a record stands for the calls made when its turn comes (`callsAt`), and a stretch of a record
for the calls of its entries (`callsBetween`).

While a record is being written, a chain may still end at a hole.  `Threaded` says that the links can
be followed nevertheless; once no hole is left, the record is `Linked`.
-/

namespace LosslessSyntax.Event

/-- Entry `i` links to entry `j`. -/
def LinksTo (log : Array Event) (i j : Nat) : Prop :=
  ∃ kind d, log[i]? = some (.start kind (some d)) ∧ i + d = j

/-- **Every link can be followed**, to the start of a wrapper or to the hole that keeps its place. -/
structure Threaded (log : Array Event) : Prop where
  forward : ∀ {i j}, LinksTo log i j → i < j
  lands : ∀ {i j}, LinksTo log i j → (∃ kind w, log[j]? = some (.start kind w)) ∨ log[j]? = some .hole
  injective : ∀ {i i' j}, LinksTo log i j → LinksTo log i' j → i = i'

/-- **Every link leads forward to a start of its own.** -/
structure Linked (log : Array Event) : Prop where
  forward : ∀ {i j}, LinksTo log i j → i < j
  lands : ∀ {i j}, LinksTo log i j → ∃ kind w, log[j]? = some (.start kind w)
  injective : ∀ {i i' j}, LinksTo log i j → LinksTo log i' j → i = i'

theorem Linked.threaded {log : Array Event} (h : Linked log) : Threaded log :=
  ⟨h.forward, fun hl => .inl (h.lands hl), h.injective⟩

theorem Threaded.linked {log : Array Event} (h : Threaded log)
    (noHole : ∀ p : Nat, log[p]? ≠ some .hole) : Linked log :=
  ⟨h.forward, fun hl => (h.lands hl).resolve_right (noHole _), h.injective⟩

theorem Threaded.lt_size {log : Array Event} (h : Threaded log) {i j : Nat}
    (hl : LinksTo log i j) : j < log.size := by
  rcases h.lands hl with ⟨kind, w, hj⟩ | hj <;> exact (Array.getElem?_eq_some_iff.mp hj).1

theorem LinksTo.lt_size {log : Array Event} {i j : Nat} (hl : LinksTo log i j) : i < log.size := by
  obtain ⟨kind, d, hi, -⟩ := hl
  exact (Array.getElem?_eq_some_iff.mp hi).1

theorem linksTo_of_getElem? {log : Array Event} {i d : Nat} {kind : SyntaxKind}
    (h : log[i]? = some (.start kind (some d))) : LinksTo log i (i + d) := ⟨kind, d, h, rfl⟩

/-- An entry has one link at most. -/
theorem LinksTo.eq_of_getElem? {log : Array Event} {i j d : Nat} {kind : SyntaxKind}
    (hl : LinksTo log i j) (h : log[i]? = some (.start kind (some d))) : j = i + d := by
  obtain ⟨kind', d', h', rfl⟩ := hl
  obtain ⟨rfl, rfl⟩ : kind' = kind ∧ d' = d := by simpa [h] using h'.symm
  rfl

/-! ## Chains -/

/-- The kinds on the chain of wrappers from entry `i`, the innermost first.  A hole ends the chain,
and so does a link that leads nowhere. -/
def chain (log : Array Event) (i : Nat) : List SyntaxKind :=
  if _h : i < log.size then
    match log[i] with
    | .start kind none => [kind]
    | .start kind (some 0) => [kind]
    | .start kind (some (d + 1)) => kind :: chain log (i + (d + 1))
    | _ => []
  else []
termination_by log.size - i

theorem chain_of_start_none {log : Array Event} {i : Nat} {kind : SyntaxKind}
    (h : log[i]? = some (.start kind none)) : chain log i = [kind] := by
  obtain ⟨hi, h⟩ := Array.getElem?_eq_some_iff.mp h
  rw [chain, dif_pos hi, h]

theorem chain_of_start_some {log : Array Event} {i d : Nat} {kind : SyntaxKind} (hd : 0 < d)
    (h : log[i]? = some (.start kind (some d))) : chain log i = kind :: chain log (i + d) := by
  obtain ⟨hi, h⟩ := Array.getElem?_eq_some_iff.mp h
  obtain ⟨e, rfl⟩ : ∃ e, d = e + 1 := ⟨d - 1, by omega⟩
  rw [chain, dif_pos hi, h]

theorem chain_of_not_start {log : Array Event} {i : Nat}
    (h : ∀ kind w, log[i]? ≠ some (.start kind w)) : chain log i = [] := by
  rw [chain]
  split
  · next hi =>
    have hne : ∀ kind w, log[i] ≠ .start kind w := fun kind w he =>
      h kind w (Array.getElem?_eq_some_iff.mpr ⟨hi, he⟩)
    split <;> simp_all
  · rfl

/-- Entry `j` is on the chain from entry `i`. -/
abbrev Climbs (log : Array Event) : Nat → Nat → Prop := Relation.ReflTransGen (LinksTo log)

theorem Climbs.le {log : Array Event} (h : Threaded log) {i j : Nat} (c : Climbs log i j) :
    i ≤ j := by
  induction c with
  | refl => exact Nat.le_refl _
  | tail _ hl ih => exact Nat.le_trans ih (Nat.le_of_lt (h.forward hl))

/-- Induction up a chain: links lead forward, and so come to an end. -/
theorem Threaded.climb_induction {log : Array Event} (h : Threaded log) {motive : Nat → Prop}
    (stop : ∀ i, (∀ j, ¬ LinksTo log i j) → motive i)
    (step : ∀ i j, LinksTo log i j → motive j → motive i) (i : Nat) : motive i := by
  induction hn : log.size - i using Nat.strongRecOn generalizing i with
  | ind n ih =>
    by_cases hl : ∃ j, LinksTo log i j
    · obtain ⟨j, hl⟩ := hl
      have hlt := h.forward hl
      have hj := h.lt_size hl
      exact step i j hl (ih _ (by omega) j rfl)
    · exact stop i (not_exists.mp hl)

/-- A chain depends only on the entries that are on it. -/
theorem chain_congr {log log' : Array Event} (h : Threaded log) {i : Nat}
    (hc : ∀ j, Climbs log i j → log'[j]? = log[j]?) : chain log' i = chain log i := by
  induction i using h.climb_induction with
  | stop i hstop =>
    have hi := hc i .refl
    by_cases hs : ∃ kind, log[i]? = some (.start kind none)
    · obtain ⟨kind, hs⟩ := hs
      rw [chain_of_start_none hs, chain_of_start_none (hi.trans hs)]
    · have hnot : ∀ kind w, log[i]? ≠ some (.start kind w) := by
        rintro kind (_ | d) hs'
        · exact hs ⟨kind, hs'⟩
        · exact hstop _ (linksTo_of_getElem? hs')
      rw [chain_of_not_start hnot, chain_of_not_start fun kind w he => hnot kind w (hi ▸ he)]
  | step i j hl ih =>
    obtain ⟨kind, d, hs, rfl⟩ := id hl
    have hd : 0 < d := by have := h.forward hl; omega
    rw [chain_of_start_some hd hs, chain_of_start_some hd ((hc i .refl).trans hs),
      ih fun j hj => hc j (.head hl hj)]

/-- The first entry of the chain that leads to entry `p`. -/
structure Root (log : Array Event) (q p : Nat) : Prop where
  climbs : Climbs log q p
  first : ∀ j, ¬ LinksTo log j q

/-- **Chains do not merge**: what leads to an entry starts at one place. -/
theorem Root.unique {log : Array Event} (h : Threaded log) {q q' p : Nat} (hq : Root log q p)
    (hq' : Root log q' p) : q = q' := by
  have top {q r : Nat} (hr : Root log r p) (c : Climbs log q r) : q = r := by
    rcases c.cases_tail with rfl | ⟨m, -, hl⟩
    · rfl
    · exact absurd hl (hr.first m)
  have swapped : Relator.RightUnique (Function.swap (LinksTo log)) := fun _ _ _ => h.injective
  have c := Relation.reflTransGen_swap.mpr hq.climbs
  have c' := Relation.reflTransGen_swap.mpr hq'.climbs
  rcases Relation.ReflTransGen.total_of_right_unique swapped c c' with hc | hc
  · exact (top hq (Relation.reflTransGen_swap.mp hc)).symm
  · exact top hq' (Relation.reflTransGen_swap.mp hc)

/-! ## What an entry stands for -/

/-- Whether an earlier entry links to entry `i`. -/
def isWrapper (log : Array Event) (i : Nat) : Bool :=
  (List.range i).any fun j =>
    match log[j]? with
    | some (.start _ (some d)) => j + d == i
    | _ => false

theorem isWrapper_eq_true_iff {log : Array Event} (h : Threaded log) {i : Nat} :
    isWrapper log i = true ↔ ∃ j, LinksTo log j i := by
  simp only [isWrapper, List.any_eq_true, List.mem_range]
  constructor
  · rintro ⟨j, -, hj⟩
    split at hj
    · next kind d hs => exact ⟨j, kind, d, hs, by simpa using hj⟩
    · exact absurd hj (by simp)
  · rintro ⟨j, hl⟩
    obtain ⟨kind, d, hs, hd⟩ := id hl
    exact ⟨j, h.forward hl, by simp [hs, hd]⟩

theorem isWrapper_eq_false_iff {log : Array Event} (h : Threaded log) {i : Nat} :
    isWrapper log i = false ↔ ∀ j, ¬ LinksTo log j i := by
  rw [← Bool.not_eq_true, isWrapper_eq_true_iff h, not_exists]

/-- **The calls an entry stands for**: a start that wraps nothing opens its whole chain, the
outermost node first; one that wraps something has been opened with what it wraps. -/
def callsAt (log : Array Event) (i : Nat) : List Call :=
  match log[i]? with
  | some (.start ..) => if isWrapper log i then [] else (chain log i).reverse.map .start
  | some .token => [.token]
  | some .finish => [.finish]
  | some (.error c) => [.error c]
  | some .hole | none => []

/-- The calls the entries from `a` up to `b` stand for. -/
def callsBetween (log : Array Event) (a b : Nat) : List Call :=
  (List.range' a (b - a)).flatMap (callsAt log)

@[simp] theorem callsBetween_self (log : Array Event) (a : Nat) : callsBetween log a a = [] := by
  simp [callsBetween]

theorem callsBetween_succ {log : Array Event} {a b : Nat} (h : a < b) :
    callsBetween log a b = callsAt log a ++ callsBetween log (a + 1) b := by
  rw [callsBetween, callsBetween, show b - a = (b - (a + 1)) + 1 by omega, List.range'_succ,
    List.flatMap_cons]

theorem callsBetween_append {log : Array Event} {a m b : Nat} (hm : a ≤ m) (hb : m ≤ b) :
    callsBetween log a b = callsBetween log a m ++ callsBetween log m b := by
  have hsplit : List.range' a (b - a) = List.range' a (m - a) ++ List.range' m (b - m) := by
    have := List.range'_append_1 (s := a) (m := m - a) (n := b - m)
    rw [show a + (m - a) = m by omega, show m - a + (b - m) = b - a by omega] at this
    exact this.symm
  rw [callsBetween, hsplit, List.flatMap_append, callsBetween, callsBetween]

theorem callsBetween_congr {log log' : Array Event} {a b : Nat}
    (h : ∀ i, a ≤ i → i < b → callsAt log' i = callsAt log i) :
    callsBetween log' a b = callsBetween log a b := by
  refine List.flatMap_congr fun i hi => ?_
  rw [List.mem_range'_1] at hi
  exact h i hi.1 (by omega)

theorem callsAt_of_isWrapper {log : Array Event} {i : Nat} (h : isWrapper log i = true)
    (hs : ∃ kind w, log[i]? = some (.start kind w)) : callsAt log i = [] := by
  obtain ⟨kind, w, hs⟩ := hs
  simp [callsAt, hs, h]

theorem callsAt_of_hole {log : Array Event} {i : Nat} (h : log[i]? = some .hole) :
    callsAt log i = [] := by simp [callsAt, h]

/-- A start that nothing links to opens its chain. -/
theorem callsAt_of_first {log : Array Event} (h : Threaded log) {i : Nat} {kind : SyntaxKind}
    {w : Option Nat} (hs : log[i]? = some (.start kind w)) (hi : ∀ j, ¬ LinksTo log j i) :
    callsAt log i = (chain log i).reverse.map .start := by
  simp [callsAt, hs, (isWrapper_eq_false_iff h).mpr hi]

end LosslessSyntax.Event
