import LosslessSyntax.Event.Recorder
import Mathlib.Algebra.Ring.Nat
import Mathlib.Logic.Relation

/-!
# Proofs/Event/Positions — places of a record in 32 bits

A handle names a place of the record, and a link the distance between two.  Both are numbers of 32 bits
where they are kept: a place is cut down to them when a node is opened (`start32`), and so is a distance
when one is enclosed (`enclose32`).  A record never gets shorter and its links never lead out of it, so as
long as it ends with fewer than `2 ^ 32` entries nothing is cut off anywhere on the way (`Reaches.fits`).
-/

namespace LosslessSyntax.Recorder

variable {r s t : Recorder}

/-! ## On the way -/

/-- **One operation of a recorder**, whether or not it fits. -/
inductive Move : Recorder → Recorder → Prop
  | peek (r : Recorder) : Move r r.peek.2
  | blame (r : Recorder) (m : Misuse) : Move r (r.blame m)
  | start (r : Recorder) : Move r r.start.2
  | close (r : Recorder) (n : OpenNode) (kind : SyntaxKind) : Move r (r.close n kind).2
  | enclose (r : Recorder) (n : ClosedNode) : Move r (r.enclose n).2
  | take (r : Recorder) : Move r r.take
  | complain (r : Recorder) (c : Complaint) : Move r (r.complain c)

/-- **A recorder gets to be another** by some operations. -/
def Reaches : Recorder → Recorder → Prop := Relation.ReflTransGen Move

namespace Reaches

theorem refl (r : Recorder) : r.Reaches r := Relation.ReflTransGen.refl

theorem trans (h : r.Reaches s) (h' : s.Reaches t) : r.Reaches t := Relation.ReflTransGen.trans h h'

/-- What an operation answers along with the recorder does not matter. -/
theorem of_eq {α : Type} {p : α × Recorder} {a : α} (h : r.Reaches p.2) (hp : p = (a, s)) :
    r.Reaches s := by
  subst hp
  exact h

theorem peek (h : r.Reaches s) : r.Reaches s.peek.2 := h.tail (.peek s)

theorem start (h : r.Reaches s) : r.Reaches s.start.2 := h.tail (.start s)

theorem close (h : r.Reaches s) (n : OpenNode) (kind : SyntaxKind) : r.Reaches (s.close n kind).2 :=
  h.tail (.close s n kind)

theorem enclose (h : r.Reaches s) (n : ClosedNode) : r.Reaches (s.enclose n).2 := h.tail (.enclose s n)

theorem take (h : r.Reaches s) : r.Reaches s.take := h.tail (.take s)

theorem complain (h : r.Reaches s) (c : Complaint) : r.Reaches (s.complain c) := h.tail (.complain s c)

theorem insist (h : r.Reaches s) (kind : SyntaxKind) : r.Reaches (s.insist kind) := by
  have hlook : r.Reaches (s.isAt kind).2 := h.peek
  rw [Recorder.insist]
  dsimp only
  split
  · exact hlook
  · exact hlook.tail (.blame _ _)

theorem eat (h : r.Reaches s) (kind : SyntaxKind) : r.Reaches (s.eat kind).2 := by
  have hlook : r.Reaches (s.isAt kind).2 := h.peek
  rw [Recorder.eat]
  split
  · next heq => exact (hlook.of_eq heq).take
  · next heq => exact hlook.of_eq heq

theorem expect (h : r.Reaches s) (kind : SyntaxKind) : r.Reaches (s.expect kind).2 := by
  rw [Recorder.expect]
  split
  · next heq => exact (h.eat kind).of_eq heq
  · next heq => exact ((h.eat kind).of_eq heq).complain _

theorem recover (h : r.Reaches s) (c : Complaint) (stops : KindSet) :
    r.Reaches (s.recover c stops) := by
  have hend : r.Reaches s.isAtEnd.2 := h.peek
  rw [Recorder.recover]
  split
  · next heq => exact (hend.of_eq heq).complain c
  · next s' heq =>
    have hany : r.Reaches (s'.isAtAny stops).2 := (hend.of_eq heq).peek
    split
    · next heq => exact (hany.of_eq heq).complain c
    · next heq => exact (((hany.of_eq heq).start.complain c).take).close _ _

end Reaches

/-! ## Records grow -/

/-- Links lead to places below a bound. -/
def LinksBelow (bound : Nat) (log : Array Event) : Prop :=
  ∀ (i : Nat) (kind : SyntaxKind) (d : Nat), log[i]? = some (.start kind (some d)) → i + d < bound

section Growth

variable {log : Array Event} {e : Event} {p bound bound' : Nat}

theorem LinksBelow.mono (h : LinksBelow bound log) (hb : bound ≤ bound') : LinksBelow bound' log :=
  fun i kind d hi => Nat.lt_of_lt_of_le (h i kind d hi) hb

theorem LinksBelow.push (h : LinksBelow bound log) (he : ∀ kind d, e ≠ .start kind (some d)) :
    LinksBelow bound (log.push e) := by
  intro i kind d hi
  rw [Array.getElem?_push] at hi
  split at hi
  · exact absurd (Option.some.inj hi) (he kind d)
  · exact h i kind d hi

theorem LinksBelow.set (h : LinksBelow bound log)
    (he : ∀ kind d, e = .start kind (some d) → p + d < bound) :
    LinksBelow bound (log.setIfInBounds p e) := by
  intro i kind d hi
  rw [Array.getElem?_setIfInBounds] at hi
  split at hi
  · next hp =>
    obtain rfl := hp
    split at hi
    · exact he kind d (Option.some.inj hi)
    · exact absurd hi (by simp)
  · exact h i kind d hi

end Growth

/-- **The links of a record stay inside it.** -/
def Contained (r : Recorder) : Prop := LinksBelow r.log.size r.log

theorem Contained.record (h : r.Contained) {e : Event} (he : ∀ kind d, e ≠ .start kind (some d)) :
    (r.record e).Contained :=
  (h.push he).mono (by simp [Recorder.record])

@[simp] theorem log_blame (r : Recorder) (m : Misuse) : (r.blame m).log = r.log := rfl

@[simp] theorem log_record (r : Recorder) (e : Event) : (r.record e).log = r.log.push e := rfl

/-- No operation makes a record shorter. -/
theorem Move.size_le (h : Move r s) : r.log.size ≤ s.log.size := by
  cases h with
  | peek | blame => exact Nat.le_refl _
  | start | complain => exact (Array.size_push ..).symm ▸ Nat.le_succ _
  | close n kind =>
    rw [Recorder.close]
    split <;> simp
  | enclose n =>
    rw [Recorder.enclose]
    split <;> simp
  | take =>
    rw [Recorder.take]
    split <;> simp

theorem Reaches.size_le (h : r.Reaches s) : r.log.size ≤ s.log.size := by
  induction h with
  | refl => exact Nat.le_refl _
  | tail _ hmove ih => exact Nat.le_trans ih hmove.size_le

/-- **No operation makes a link that leads out of the record.** -/
theorem Move.contained (h : Move r s) (hr : r.Contained) : s.Contained := by
  cases h with
  | peek | blame => exact hr
  | start => exact hr.record (by simp)
  | complain c => exact hr.record (by simp)
  | close n kind =>
    rw [Recorder.close]
    split
    · exact ((hr.set (by simp)).push (by simp)).mono (by simp)
    · exact hr
  | enclose n =>
    rw [Recorder.enclose]
    split
    · next kind w hs =>
      -- the new link leads to the hole that is recorded with it
      have hlt : n.slot < r.log.size := (Array.getElem?_eq_some_iff.mp hs).1
      have hlink (kind' : SyntaxKind) (d : Nat)
          (he : Event.start kind (some (r.log.size - n.slot)) = .start kind' (some d)) :
          n.slot + d < r.log.size + 1 := by
        simp only [Event.start.injEq, Option.some.injEq] at he
        omega
      exact (((hr.mono (Nat.le_succ _)).set hlink).push (by simp)).mono (by simp)
    · exact hr.record (by simp)
  | take =>
    rw [Recorder.take]
    split
    · exact hr
    · exact (hr.push (by simp)).mono (by simp)

theorem Reaches.contained (h : r.Reaches s) (hr : r.Contained) : s.Contained := by
  induction h with
  | refl => exact hr
  | tail _ hmove ih => exact hmove.contained ih

theorem contained_ofTokens (ts : List Token) : (ofTokens ts).Contained := by
  intro i kind d hi
  exact absurd hi (by simp [ofTokens, ofStream])

/-! ## In 32 bits -/

/-- Opens a node; the place that its handle keeps is cut to 32 bits. -/
def start32 (r : Recorder) : OpenNode × Recorder :=
  (⟨(UInt32.ofNat r.log.size).toNat⟩, r.record .hole)

/-- Opens a node that encloses a closed one; the place that its handle keeps and the distance between
the two are cut to 32 bits. -/
def enclose32 (r : Recorder) (n : ClosedNode) : OpenNode × Recorder :=
  let m := UInt32.ofNat r.log.size
  (⟨m.toNat⟩,
    match r.log[n.slot]? with
    | some (.start kind _) =>
      let distance := (m - UInt32.ofNat n.slot).toNat
      { r with log := (r.log.setIfInBounds n.slot (.start kind (some distance))).push .hole }
    | found => (r.record .hole).blame (.noStart n.slot found))

/-- **A recorder whose positions fit into 32 bits**: nothing is cut off when a node is opened, whether
or not it encloses another, and every link is short enough to be kept. -/
structure Fits (r : Recorder) : Prop where
  start : r.start32 = r.start
  enclose : ∀ n, r.enclose32 n = r.enclose n
  slot : r.start.1.slot < 2 ^ 32
  link : ∀ (i : Nat) (kind : SyntaxKind) (d : Nat), r.log[i]? = some (.start kind (some d)) → d < 2 ^ 32

theorem toNat_ofNat {n : Nat} (h : n < 2 ^ 32) : (UInt32.ofNat n).toNat = n :=
  UInt32.toNat_ofNat_of_lt' h

/-- The distance between two places that fit is cut to itself. -/
theorem toNat_sub {m n : Nat} (hn : n ≤ m) (hm : m < 2 ^ 32) :
    (UInt32.ofNat m - UInt32.ofNat n).toNat = m - n := by
  have hle : UInt32.ofNat n ≤ UInt32.ofNat m := by
    rwa [UInt32.le_iff_toNat_le, toNat_ofNat hm, toNat_ofNat (Nat.lt_of_le_of_lt hn hm)]
  rw [UInt32.toNat_sub_of_le _ _ hle, toNat_ofNat hm, toNat_ofNat (Nat.lt_of_le_of_lt hn hm)]

theorem start32_eq (h : r.log.size < 2 ^ 32) : r.start32 = r.start := by
  rw [start32, start, toNat_ofNat h]

theorem enclose32_eq (h : r.log.size < 2 ^ 32) (n : ClosedNode) : r.enclose32 n = r.enclose n := by
  rw [enclose32, enclose]
  rcases hs : r.log[n.slot]? with _ | e
  · simp only [toNat_ofNat h]
  · have hlt : n.slot < r.log.size := (Array.getElem?_eq_some_iff.mp hs).1
    cases e <;> simp only [toNat_ofNat h, toNat_sub (Nat.le_of_lt hlt) h]

/-- **On the way to a record of fewer than `2 ^ 32` entries everything fits.** -/
theorem Reaches.fits (h : r.Reaches s) (h' : s.Reaches t) (hr : r.Contained)
    (ht : t.log.size < 2 ^ 32) : s.Fits := by
  have hs : s.log.size < 2 ^ 32 := Nat.lt_of_le_of_lt h'.size_le ht
  refine ⟨start32_eq hs, enclose32_eq hs, hs, fun i kind d hi => ?_⟩
  have := h.contained hr i kind d hi
  omega

end LosslessSyntax.Recorder
