import LosslessSyntax.Proofs.Event.Link

/-!
# Proofs/Event/Growth — how a record grows, and what it says meanwhile

A recorder adds an entry to its record (`push`), fills a hole in with a start, or lets a start link to
a hole.  Each keeps a record threaded.  Adding an entry leaves alone what the others stand for, and so
does a new link, since the hole at its end says nothing yet; filling a hole in puts one call in front
of the entry at which its chain is opened.
-/

namespace LosslessSyntax.Event

variable {log : Array Event}

/-! ## Adding an entry -/

/-- An entry that does not link anywhere. -/
def Unlinked (e : Event) : Prop := ∀ kind d, e ≠ .start kind (some d)

theorem linksTo_push {e : Event} (he : e.Unlinked) {i j : Nat} :
    LinksTo (log.push e) i j ↔ LinksTo log i j := by
  simp only [LinksTo, Array.getElem?_push]
  by_cases hi : i = log.size
  · subst hi
    simp [he _ _]
  · simp [hi]

theorem getElem?_push_of_lt {e : Event} {i : Nat} (h : i < log.size) :
    (log.push e)[i]? = log[i]? := by
  rw [Array.getElem?_push, if_neg (by omega)]

theorem Threaded.push (h : Threaded log) {e : Event} (he : e.Unlinked) : Threaded (log.push e) where
  forward hl := h.forward ((linksTo_push he).mp hl)
  lands hl := by
    have hl := (linksTo_push he).mp hl
    rw [getElem?_push_of_lt (h.lt_size hl)]
    exact h.lands hl
  injective hl hl' := h.injective ((linksTo_push he).mp hl) ((linksTo_push he).mp hl')

theorem Climbs.lt_size (h : Threaded log) {i j : Nat} (c : Climbs log i j) (hi : i < log.size) :
    j < log.size := by
  rcases c.cases_tail with rfl | ⟨m, -, hl⟩
  · exact hi
  · exact h.lt_size hl

theorem climbs_push {e : Event} (he : e.Unlinked) : Climbs (log.push e) = Climbs log := by
  have : LinksTo (log.push e) = LinksTo log := funext₂ fun _ _ => propext (linksTo_push he)
  rw [Climbs, this]

theorem Root.push {e : Event} (he : e.Unlinked) {q p : Nat} (h : Root log q p) :
    Root (log.push e) q p :=
  ⟨(climbs_push he).symm ▸ h.climbs, fun j hl => h.first j ((linksTo_push he).mp hl)⟩

/-- What two records say is the same at an entry they share, if the same entries link to it and its
chain is the same. -/
theorem callsAt_congr {log' : Array Event} (h : Threaded log) (h' : Threaded log') {i : Nat}
    (hget : log'[i]? = log[i]?) (hlinks : (∃ j, LinksTo log' j i) ↔ ∃ j, LinksTo log j i)
    (hchain : chain log' i = chain log i) : callsAt log' i = callsAt log i := by
  have hw : isWrapper log' i = isWrapper log i := by
    rw [Bool.eq_iff_iff, isWrapper_eq_true_iff h', isWrapper_eq_true_iff h, hlinks]
  simp only [callsAt, hget, hw, hchain]

theorem callsAt_push (h : Threaded log) {e : Event} (he : e.Unlinked) {i : Nat}
    (hi : i < log.size) : callsAt (log.push e) i = callsAt log i :=
  callsAt_congr h (h.push he) (getElem?_push_of_lt hi) (exists_congr fun _ => linksTo_push he)
    (chain_congr h fun _ hj => getElem?_push_of_lt (hj.lt_size h hi))

/-! ## Filling a hole in -/

section Fill

variable {p : Nat} {kind : SyntaxKind} (hole : log[p]? = some .hole)
include hole

theorem linksTo_fill {i j : Nat} :
    LinksTo (log.setIfInBounds p (.start kind none)) i j ↔ LinksTo log i j := by
  simp only [LinksTo, Array.getElem?_setIfInBounds]
  by_cases hi : p = i
  · subst hi
    simp [hole]
  · simp [hi]

theorem Threaded.fill (h : Threaded log) :
    Threaded (log.setIfInBounds p (.start kind none)) where
  forward hl := h.forward ((linksTo_fill hole).mp hl)
  lands {i j} hl := by
    have hl := (linksTo_fill hole).mp hl
    by_cases hj : p = j
    · subst hj
      exact .inl ⟨kind, none, Array.getElem?_setIfInBounds_self_of_lt (h.lt_size hl)⟩
    · rw [Array.getElem?_setIfInBounds_ne hj]
      exact h.lands hl
  injective hl hl' := h.injective ((linksTo_fill hole).mp hl) ((linksTo_fill hole).mp hl')

theorem Root.fill {q r : Nat} (h : Root log q r) :
    Root (log.setIfInBounds p (.start kind none)) q r := by
  have : LinksTo (log.setIfInBounds p (.start kind none)) = LinksTo log :=
    funext₂ fun _ _ => propext (linksTo_fill hole)
  refine ⟨?_, fun j hl => h.first j ((linksTo_fill hole).mp hl)⟩
  rw [Climbs, this]
  exact h.climbs

/-- The chain that ended at the hole gets one more wrapper, the outermost. -/
theorem chain_fill_of_climbs (h : Threaded log) {i : Nat} (c : Climbs log i p) :
    chain (log.setIfInBounds p (.start kind none)) i = chain log i ++ [kind] := by
  have hp : p < log.size := (Array.getElem?_eq_some_iff.mp hole).1
  induction c using Relation.ReflTransGen.head_induction_on with
  | refl =>
    rw [chain_of_start_none (Array.getElem?_setIfInBounds_self_of_lt hp),
      chain_of_not_start (by simp [hole]), List.nil_append]
  | @head i _ hl _ ih =>
    obtain ⟨kind', d, hs, rfl⟩ := id hl
    have hd : 0 < d := by have := h.forward hl; omega
    have hne : p ≠ i := fun he => by simp [← he, hole] at hs
    rw [chain_of_start_some hd hs,
      chain_of_start_some hd ((Array.getElem?_setIfInBounds_ne hne).trans hs), ih, List.cons_append]

/-- The entry at which the chain to the hole is opened stands for one more call. -/
theorem callsAt_fill_root (h : Threaded log) {q : Nat} (hq : Root log q p) :
    callsAt (log.setIfInBounds p (.start kind none)) q = .start kind :: callsAt log q := by
  have hchain : chain (log.setIfInBounds p (.start kind none)) q = chain log q ++ [kind] :=
    chain_fill_of_climbs hole h hq.climbs
  have hfirst : ∀ j, ¬ LinksTo (log.setIfInBounds p (.start kind none)) j q := fun j hl =>
    hq.first j ((linksTo_fill hole).mp hl)
  rcases hq.climbs.cases_head with rfl | ⟨m, hl, -⟩
  · have hp : q < log.size := (Array.getElem?_eq_some_iff.mp hole).1
    rw [callsAt_of_first (h.fill hole) (Array.getElem?_setIfInBounds_self_of_lt hp) hfirst, hchain,
      callsAt_of_hole hole, chain_of_not_start (by simp [hole])]
    rfl
  · obtain ⟨kind', d, hs, -⟩ := id hl
    have hne : p ≠ q := fun he => by simp [← he, hole] at hs
    rw [callsAt_of_first (h.fill hole) ((Array.getElem?_setIfInBounds_ne hne).trans hs) hfirst,
      callsAt_of_first h hs hq.first, hchain]
    simp

/-- …and no other entry does. -/
theorem callsAt_fill_of_ne (h : Threaded log) {q i : Nat} (hq : Root log q p) (hi : i ≠ q) :
    callsAt (log.setIfInBounds p (.start kind none)) i = callsAt log i := by
  have hlinks : (∃ j, LinksTo (log.setIfInBounds p (.start kind none)) j i) ↔ ∃ j, LinksTo log j i :=
    exists_congr fun _ => linksTo_fill hole
  by_cases hw : ∃ j, LinksTo log j i
  · have hw' := (isWrapper_eq_true_iff (h.fill hole)).mpr (hlinks.mpr hw)
    obtain ⟨j, hl⟩ := hw
    rcases h.lands hl with hs | hs
    · rw [callsAt_of_isWrapper ((isWrapper_eq_true_iff h).mpr ⟨j, hl⟩) hs]
      refine callsAt_of_isWrapper hw' ?_
      exact (h.fill hole).lands ((linksTo_fill hole).mpr hl) |>.resolve_right fun he => by
        obtain ⟨kind', w, hs⟩ := hs
        have hne : p ≠ i := fun hp => by simp [← hp, hole] at hs
        rw [Array.getElem?_setIfInBounds_ne hne, hs] at he
        simp at he
    · rw [callsAt_of_hole hs]
      by_cases hp : p = i
      · subst hp
        exact callsAt_of_isWrapper hw' ⟨kind, none, Array.getElem?_setIfInBounds_self_of_lt
          (Array.getElem?_eq_some_iff.mp hole).1⟩
      · exact callsAt_of_hole ((Array.getElem?_setIfInBounds_ne hp).trans hs)
  · -- `i` is first on its chain, which does not lead to `p`
    have hnot : ¬ Climbs log i p := fun c => hi (Root.unique h ⟨c, not_exists.mp hw⟩ hq)
    have hget : ∀ j, Climbs log i j →
        (log.setIfInBounds p (.start kind none))[j]? = log[j]? := fun j c =>
      Array.getElem?_setIfInBounds_ne fun he : p = j => hnot (he ▸ c)
    exact callsAt_congr h (h.fill hole) (hget i .refl) hlinks (chain_congr h hget)

/-! ### …and recording the end of its node -/

/-- The record after the node with its hole at `p` was closed. -/
def closeAt (log : Array Event) (p : Nat) (kind : SyntaxKind) : Array Event :=
  (log.setIfInBounds p (.start kind none)).push .finish

omit hole in
@[simp] theorem size_closeAt : (closeAt log p kind).size = log.size + 1 := by simp [closeAt]

omit hole in
theorem getElem?_closeAt_of_ne {i : Nat} (hi : i < log.size) (hne : p ≠ i) :
    (closeAt log p kind)[i]? = log[i]? := by
  rw [closeAt, getElem?_push_of_lt (by simpa using hi), Array.getElem?_setIfInBounds_ne hne]

theorem getElem?_closeAt_self : (closeAt log p kind)[p]? = some (.start kind none) := by
  have hp : p < log.size := (Array.getElem?_eq_some_iff.mp hole).1
  rw [closeAt, getElem?_push_of_lt (by simpa using hp), Array.getElem?_setIfInBounds_self_of_lt hp]

omit hole in
theorem getElem?_closeAt_size : (closeAt log p kind)[log.size]? = some .finish := by
  rw [closeAt, Array.getElem?_push, if_pos Array.size_setIfInBounds.symm]

/-- No hole is new. -/
theorem hole_of_closeAt {r : Nat} (hr : (closeAt log p kind)[r]? = some .hole) :
    p ≠ r ∧ log[r]? = some .hole := by
  have hne : p ≠ r := fun he => by simp [← he, getElem?_closeAt_self hole] at hr
  have hsize : r ≠ log.size := fun he => by
    rw [he, getElem?_closeAt_size] at hr
    exact absurd hr (by simp)
  have hlt := (Array.getElem?_eq_some_iff.mp hr).1
  rw [size_closeAt] at hlt
  exact ⟨hne, by rwa [getElem?_closeAt_of_ne (by omega) hne] at hr⟩

omit hole in
theorem unlinked_finish : Event.finish.Unlinked := by simp [Unlinked]

theorem Threaded.close (h : Threaded log) : Threaded (closeAt log p kind) :=
  (h.fill hole).push unlinked_finish

theorem Root.close {q r : Nat} (h : Root log q r) : Root (closeAt log p kind) q r :=
  (h.fill hole).push unlinked_finish

omit hole in
theorem callsAt_closeAt_size : callsAt (closeAt log p kind) log.size = [.finish] := by
  simp only [callsAt, getElem?_closeAt_size]

theorem callsAt_closeAt_root (h : Threaded log) {q : Nat} (hq : Root log q p) :
    callsAt (closeAt log p kind) q = .start kind :: callsAt log q := by
  have hp : p < log.size := (Array.getElem?_eq_some_iff.mp hole).1
  have hqp := hq.climbs.le h
  rw [closeAt, callsAt_push (h.fill hole) unlinked_finish (by simp; omega),
    callsAt_fill_root hole h hq]

theorem callsAt_closeAt_of_ne (h : Threaded log) {q i : Nat} (hq : Root log q p) (hi : i < log.size)
    (hne : i ≠ q) : callsAt (closeAt log p kind) i = callsAt log i := by
  rw [closeAt, callsAt_push (h.fill hole) unlinked_finish (by simpa using hi),
    callsAt_fill_of_ne hole h hq hne]

end Fill

/-! ## Linking to a hole -/

section Join

variable {p d : Nat} {kind : SyntaxKind} (closed : log[p]? = some (.start kind none)) (hd : 0 < d)
  (hole : log[p + d]? = some .hole) (free : ∀ j, ¬ LinksTo log j (p + d))
include closed

theorem linksTo_join {i j : Nat} :
    LinksTo (log.setIfInBounds p (.start kind (some d))) i j ↔
      LinksTo log i j ∨ i = p ∧ j = p + d := by
  have hp : p < log.size := (Array.getElem?_eq_some_iff.mp closed).1
  by_cases hi : p = i
  · subst hi
    simp only [LinksTo, Array.getElem?_setIfInBounds_self_of_lt hp, closed]
    simp [eq_comm]
  · simp [LinksTo, Array.getElem?_setIfInBounds_ne hi, Ne.symm hi]

include hd hole free

theorem Threaded.join (h : Threaded log) :
    Threaded (log.setIfInBounds p (.start kind (some d))) where
  forward {i j} hl := by
    rcases (linksTo_join closed).mp hl with hl | ⟨rfl, rfl⟩
    · exact h.forward hl
    · omega
  lands {i j} hl := by
    rcases (linksTo_join closed).mp hl with hl | ⟨rfl, rfl⟩
    · by_cases hj : p = j
      · subst hj
        exact .inl ⟨kind, some d, Array.getElem?_setIfInBounds_self_of_lt (h.lt_size hl)⟩
      · rw [Array.getElem?_setIfInBounds_ne hj]
        exact h.lands hl
    · exact .inr ((Array.getElem?_setIfInBounds_ne (by omega)).trans hole)
  injective {i i' j} hl hl' := by
    rcases (linksTo_join closed).mp hl with hl | ⟨hi, hj⟩ <;>
      rcases (linksTo_join closed).mp hl' with hl' | ⟨hi', hj'⟩
    · exact h.injective hl hl'
    · exact absurd (hj' ▸ hl) (free i)
    · exact absurd (hj ▸ hl') (free i')
    · exact hi.trans hi'.symm

omit hd hole free in
theorem Root.join {q r : Nat} (h : Root log q r) (hq : q ≠ p + d) :
    Root (log.setIfInBounds p (.start kind (some d))) q r := by
  have hsub : LinksTo log ≤ LinksTo (log.setIfInBounds p (.start kind (some d))) := fun _ _ hl =>
    (linksTo_join closed).mpr (.inl hl)
  refine ⟨Relation.ReflTransGen.mono hsub _ _ h.climbs, fun j hl => ?_⟩
  rcases (linksTo_join closed).mp hl with hl | ⟨-, rfl⟩
  · exact h.first j hl
  · exact hq rfl

omit hole free in
/-- The new wrapper is reached from where the node it encloses is opened. -/
theorem Root.join_top (h : Threaded log) {q : Nat} (hq : Root log q p) :
    Root (log.setIfInBounds p (.start kind (some d))) q (p + d) := by
  have hne : q ≠ p + d := by have := hq.climbs.le h; omega
  exact ⟨(hq.join closed hne).climbs.tail ((linksTo_join closed).mpr (.inr ⟨rfl, rfl⟩)),
    (hq.join closed hne).first⟩

omit free in
/-- A chain that comes to the hole ends where it ended before. -/
theorem chain_join (h : Threaded log) (i : Nat) :
    chain (log.setIfInBounds p (.start kind (some d))) i = chain log i := by
  have hp : p < log.size := (Array.getElem?_eq_some_iff.mp closed).1
  induction i using h.climb_induction with
  | stop i hstop =>
    by_cases hi : p = i
    · subst hi
      have hgap : (log.setIfInBounds p (.start kind (some d)))[p + d]? = some .hole :=
        (Array.getElem?_setIfInBounds_ne (by omega)).trans hole
      rw [chain_of_start_some hd (Array.getElem?_setIfInBounds_self_of_lt hp),
        chain_of_start_none closed, chain_of_not_start (by simp [hgap])]
    · refine chain_congr h fun j hj => ?_
      rcases hj.cases_head with rfl | ⟨m, hl, -⟩
      · exact Array.getElem?_setIfInBounds_ne hi
      · exact absurd hl (hstop m)
  | step i j hl ih =>
    obtain ⟨kind', e, hs, rfl⟩ := id hl
    have he : 0 < e := by have := h.forward hl; omega
    have hne : p ≠ i := fun hp => by simp [← hp, closed] at hs
    rw [chain_of_start_some he hs,
      chain_of_start_some he ((Array.getElem?_setIfInBounds_ne hne).trans hs), ih]

/-- **A new link changes nothing of what is said so far.** -/
theorem callsAt_join (h : Threaded log) (i : Nat) :
    callsAt (log.setIfInBounds p (.start kind (some d))) i = callsAt log i := by
  have h' := h.join closed hd hole free
  by_cases hi : i = p + d
  · subst hi
    rw [callsAt_of_hole hole,
      callsAt_of_hole ((Array.getElem?_setIfInBounds_ne (by omega)).trans hole)]
  · have hw : isWrapper (log.setIfInBounds p (.start kind (some d))) i = isWrapper log i := by
      rw [Bool.eq_iff_iff, isWrapper_eq_true_iff h', isWrapper_eq_true_iff h]
      refine exists_congr fun j => (linksTo_join closed).trans (or_iff_left ?_)
      exact fun hj => hi hj.2
    have hp : p < log.size := (Array.getElem?_eq_some_iff.mp closed).1
    by_cases hip : p = i
    · subst hip
      simp only [callsAt, Array.getElem?_setIfInBounds_self_of_lt hp, closed, hw,
        chain_join closed hd hole h]
    · simp [callsAt, Array.getElem?_setIfInBounds_ne hip, hw, chain_join closed hd hole h]

end Join

/-! ### …that was left for it -/

section Enclose

/-- The record after a node was opened to enclose the one that starts at `p`. -/
def encloseAt (log : Array Event) (p : Nat) (kind : SyntaxKind) : Array Event :=
  (log.setIfInBounds p (.start kind (some (log.size - p)))).push .hole

variable {p : Nat} {kind : SyntaxKind}

@[simp] theorem size_encloseAt : (encloseAt log p kind).size = log.size + 1 := by simp [encloseAt]

theorem getElem?_encloseAt_of_ne {i : Nat} (hi : i < log.size) (hne : p ≠ i) :
    (encloseAt log p kind)[i]? = log[i]? := by
  rw [encloseAt, getElem?_push_of_lt (by simpa using hi), Array.getElem?_setIfInBounds_ne hne]

theorem getElem?_encloseAt_size : (encloseAt log p kind)[log.size]? = some .hole := by
  rw [encloseAt, Array.getElem?_push, if_pos Array.size_setIfInBounds.symm]

/-- Only the new hole is new. -/
theorem hole_of_encloseAt {r : Nat} (hp : p < log.size)
    (hr : (encloseAt log p kind)[r]? = some .hole) : r = log.size ∨ log[r]? = some .hole := by
  have hlt := (Array.getElem?_eq_some_iff.mp hr).1
  rw [size_encloseAt] at hlt
  by_cases hsize : r = log.size
  · exact .inl hsize
  · have hne : p ≠ r := fun he => by
      rw [← he, encloseAt, getElem?_push_of_lt (by simpa using hp),
        Array.getElem?_setIfInBounds_self_of_lt hp] at hr
      exact absurd hr (by simp)
    exact .inr (by rwa [getElem?_encloseAt_of_ne (by omega) hne] at hr)

theorem unlinked_hole : Event.hole.Unlinked := by simp [Unlinked]

/-- The hole may as well be left first and linked to afterwards. -/
theorem encloseAt_eq (hp : p < log.size) :
    encloseAt log p kind = (log.push .hole).setIfInBounds p (.start kind (some (log.size - p))) := by
  refine Array.ext_getElem? fun i => ?_
  by_cases hi : p = i
  · subst hi
    rw [encloseAt, getElem?_push_of_lt (by simpa using hp), Array.getElem?_setIfInBounds_self_of_lt hp,
      Array.getElem?_setIfInBounds_self_of_lt (by simp; omega)]
  · rw [encloseAt, Array.getElem?_setIfInBounds_ne hi, Array.getElem?_push, Array.getElem?_push,
      Array.size_setIfInBounds, Array.getElem?_setIfInBounds_ne hi]

variable (closed : log[p]? = some (.start kind none))
include closed

theorem start_push : (log.push .hole)[p]? = some (.start kind none) :=
  (getElem?_push_of_lt (Array.getElem?_eq_some_iff.mp closed).1).trans closed

theorem hole_push : (log.push .hole)[p + (log.size - p)]? = some .hole := by
  have hp := (Array.getElem?_eq_some_iff.mp closed).1
  rw [show p + (log.size - p) = log.size by omega, Array.getElem?_push_size]

omit closed in
theorem free_push (h : Threaded log) (j : Nat) :
    ¬ LinksTo (log.push .hole) j (p + (log.size - p)) := fun hl => by
  have := h.lt_size ((linksTo_push unlinked_hole).mp hl)
  omega

theorem Threaded.enclose (h : Threaded log) : Threaded (encloseAt log p kind) := by
  have hp := (Array.getElem?_eq_some_iff.mp closed).1
  rw [encloseAt_eq hp]
  exact (h.push unlinked_hole).join (start_push closed) (by omega) (hole_push closed)
    (free_push h)

theorem Root.enclose {q r : Nat} (hq : Root log q r) (hlt : q < log.size) :
    Root (encloseAt log p kind) q r := by
  have hp := (Array.getElem?_eq_some_iff.mp closed).1
  rw [encloseAt_eq hp]
  exact (hq.push unlinked_hole).join (start_push closed) (by omega)

/-- The new node opens where the one it encloses did. -/
theorem Root.enclose_top (h : Threaded log) {q : Nat} (hq : Root log q p) :
    Root (encloseAt log p kind) q log.size := by
  have hp := (Array.getElem?_eq_some_iff.mp closed).1
  have htop := (hq.push unlinked_hole).join_top (start_push closed)
    (show 0 < log.size - p by omega) (h.push unlinked_hole)
  rw [encloseAt_eq hp]
  rwa [show p + (log.size - p) = log.size by omega] at htop

/-- **To enclose a node changes nothing of what is said so far.** -/
theorem callsAt_encloseAt (h : Threaded log) {i : Nat} (hi : i < log.size) :
    callsAt (encloseAt log p kind) i = callsAt log i := by
  have hp := (Array.getElem?_eq_some_iff.mp closed).1
  rw [encloseAt_eq hp, callsAt_join (start_push closed) (by omega) (hole_push closed)
    (free_push h) (h.push unlinked_hole), callsAt_push h unlinked_hole hi]

end Enclose

end LosslessSyntax.Event
