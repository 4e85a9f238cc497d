import LosslessSyntax.Proofs.Event.Interleaving
import LosslessSyntax.Proofs.Event.Nesting

/-!
# Proofs/Event/Handles — any script leaves a well formed record

A handle that has been given out and not been used leads where it should: that of an open node to a hole,
that of a closed one to a start without a wrapper.  Every operation keeps this (`Session.Tends.perform`),
in whatever order nodes are closed and enclosed, so nothing is ever misused, and a script that closes
every node leaves a well formed record (`Recorder.wellFormed_of_script`).
-/

namespace LosslessSyntax

open Recorder Event

/-! ## Tables of handles -/

section Table

variable {α : Type} {place : α → Nat} {xs : Array (Option α)} {i p : Nat} {x : α}

/-- **A table has a handle for a place.** -/
def HasHandle (place : α → Nat) (xs : Array (Option α)) (p : Nat) : Prop :=
  ∃ (i : Nat) (x : α), xs[i]? = some (some x) ∧ place x = p

/-- No two handles of a table are for the same place. -/
def Distinct (place : α → Nat) (xs : Array (Option α)) : Prop :=
  ∀ (i j : Nat) (x y : α), xs[i]? = some (some x) → xs[j]? = some (some y) → place x = place y → i = j

theorem hasHandle_push :
    HasHandle place (xs.push (some x)) p ↔ p = place x ∨ HasHandle place xs p := by
  constructor
  · rintro ⟨i, y, hy, rfl⟩
    obtain ⟨-, rfl⟩ | hy := getElem?_push_some.mp hy
    · exact .inl rfl
    · exact .inr ⟨i, y, hy, rfl⟩
  · rintro (rfl | ⟨i, y, hy, rfl⟩)
    · exact ⟨xs.size, x, getElem?_push_some.mpr (.inl ⟨rfl, rfl⟩), rfl⟩
    · exact ⟨i, y, getElem?_push_some.mpr (.inr hy), rfl⟩

theorem Distinct.hasHandle_takeBack (h : Distinct place xs) (hx : xs[i]? = some (some x)) :
    HasHandle place (xs.setIfInBounds i none) p ↔ p ≠ place x ∧ HasHandle place xs p := by
  constructor
  · rintro ⟨j, y, hy, rfl⟩
    obtain ⟨hne, hy⟩ := getElem?_setIfInBounds_none.mp hy
    exact ⟨fun he => hne (h j i y x hy hx he), j, y, hy, rfl⟩
  · rintro ⟨hne, j, y, hy, rfl⟩
    refine ⟨j, y, getElem?_setIfInBounds_none.mpr ⟨?_, hy⟩, rfl⟩
    rintro rfl
    obtain rfl : y = x := by simpa [hx] using hy.symm
    exact hne rfl

theorem Distinct.push (h : Distinct place xs) (hx : ¬HasHandle place xs (place x)) :
    Distinct place (xs.push (some x)) := by
  intro i j y z hy hz hplace
  obtain ⟨rfl, rfl⟩ | hy := getElem?_push_some.mp hy <;>
    obtain ⟨rfl, rfl⟩ | hz := getElem?_push_some.mp hz
  · rfl
  · exact absurd ⟨j, z, hz, hplace.symm⟩ hx
  · exact absurd ⟨i, y, hy, hplace⟩ hx
  · exact h i j y z hy hz hplace

theorem Distinct.takeBack (h : Distinct place xs) : Distinct place (xs.setIfInBounds i none) := by
  intro j k y z hy hz hplace
  obtain ⟨-, hy⟩ := getElem?_setIfInBounds_none.mp hy
  obtain ⟨-, hz⟩ := getElem?_setIfInBounds_none.mp hz
  exact h j k y z hy hz hplace

end Table

/-! ## The operations of a recorder -/

namespace Recorder

/-- **A recorder tends its record**, and nothing was misused. -/
structure Tends (r : Recorder) (opened closed : Nat → Prop) : Prop where
  tended : Tended r.log opened closed
  misuse : r.misuse = none

namespace Tends

variable {r : Recorder} {opened opened' closed closed' : Nat → Prop}

theorem mono (h : r.Tends opened closed) (ho : ∀ p, opened p ↔ opened' p)
    (hc : ∀ p, closed' p → closed p) : r.Tends opened' closed' :=
  ⟨h.tended.mono ho hc, h.misuse⟩

theorem peek (h : r.Tends opened closed) : r.peek.2.Tends opened closed := ⟨h.tended, h.misuse⟩

theorem complain (h : r.Tends opened closed) (c : Complaint) :
    (r.complain c).Tends opened closed :=
  ⟨h.tended.push rfl (by simp) (by simp), h.misuse⟩

theorem take (h : r.Tends opened closed) : r.take.Tends opened closed := by
  rw [Recorder.take]
  split
  · exact h
  · exact ⟨h.tended.push rfl (by simp) (by simp), h.misuse⟩

theorem eat (h : r.Tends opened closed) (kind : SyntaxKind) :
    (r.eat kind).2.Tends opened closed := by
  have hlook : (r.isAt kind).2.Tends opened closed := h.peek
  rw [Recorder.eat]
  split
  · next hr => exact (hr ▸ hlook).take
  · next hr => exact hr ▸ hlook

theorem expect (h : r.Tends opened closed) (kind : SyntaxKind) :
    (r.expect kind).2.Tends opened closed := by
  have heat := h.eat kind
  rw [Recorder.expect]
  split
  · next hr => exact hr ▸ heat
  · next hr => exact (hr ▸ heat).complain _

theorem start (h : r.Tends opened closed) :
    r.start.2.Tends (fun p => p = r.log.size ∨ opened p) closed :=
  ⟨h.tended.start, h.misuse⟩

theorem close {n : OpenNode} (h : r.Tends opened closed) (hn : opened n.slot) (kind : SyntaxKind) :
    (r.close n kind).2.Tends (fun p => p ≠ n.slot ∧ opened p) (fun p => p = n.slot ∨ closed p) := by
  have hole := (h.tended.hole_iff n.slot).mpr hn
  simp only [Recorder.close, hole]
  exact ⟨h.tended.close hn kind, h.misuse⟩

theorem enclose {n : ClosedNode} (h : r.Tends opened closed) (hn : closed n.slot) :
    (r.enclose n).2.Tends (fun p => p = r.log.size ∨ opened p)
      (fun p => p ≠ n.slot ∧ closed p) := by
  obtain ⟨kind, hstart, tended⟩ := h.tended.enclose hn
  simp only [Recorder.enclose, hstart]
  exact ⟨tended, h.misuse⟩

/-- A node that is opened and closed at once leaves the open nodes as they are. -/
theorem recover (h : r.Tends opened closed) (c : Complaint) (stops : KindSet) :
    (r.recover c stops).Tends opened closed := by
  have hend : r.isAtEnd.2.Tends opened closed := h.peek
  rw [Recorder.recover]
  split
  · next hr => exact (hr ▸ hend).complain c
  · next r' hr =>
    have hany : (r'.isAtAny stops).2.Tends opened closed := (hr ▸ hend).peek
    split
    · next hr' => exact (hr' ▸ hany).complain c
    · next r'' hr' =>
      rw [hr'] at hany
      have looked : r''.Tends opened closed := hany
      have node := (looked.start.complain c).take.close (n := r''.start.1) (.inl rfl) .error
      refine node.mono (fun p => ⟨fun hp => hp.2.resolve_left hp.1, fun hp => ⟨?_, .inr hp⟩⟩)
        fun p hp => .inr hp
      exact Nat.ne_of_lt (looked.tended.lt_size hp)

end Tends

end Recorder

/-! ## The steps of a session -/

namespace Recorder

/-- Nothing of the recorder itself was misused. -/
def Failure.IsExcused : Failure → Prop
  | misuse _ => False
  | stuck | leftOpen | unknownHandle => True

namespace Session

theorem hasHandle_handOpen (s : Session) (n : OpenNode × Recorder) (p : Nat) :
    HasHandle OpenNode.slot (s.handOpen n).2.opened p ↔
      p = n.1.slot ∨ HasHandle OpenNode.slot s.opened p :=
  hasHandle_push

/-- **A session tends its record**: the handles that are still to be used lead where they should, each
to a place of its own. -/
structure Tends (s : Session) : Prop where
  recorder : s.recorder.Tends (HasHandle OpenNode.slot s.opened) (HasHandle ClosedNode.slot s.closed)
  opened : Distinct OpenNode.slot s.opened
  closed : Distinct ClosedNode.slot s.closed

namespace Tends

variable {s s' : Session} {r : Recorder} {i : Nat}

/-- A step that gives out no handle and takes none back. -/
theorem go (h : s.Tends) (hr : r.Tends (HasHandle OpenNode.slot s.opened)
    (HasHandle ClosedNode.slot s.closed)) : Tends { s with recorder := r } :=
  ⟨hr, h.opened, h.closed⟩

theorem start (h : s.Tends) : (s.handOpen s.recorder.start).2.Tends where
  recorder := h.recorder.start.mono (fun p => (s.hasHandle_handOpen s.recorder.start p).symm)
    fun _ => id
  opened := h.opened.push fun hp => Nat.lt_irrefl _ (h.recorder.tended.lt_size hp)
  closed := h.closed

theorem close {n : OpenNode} (h : s.Tends) (hn : s.opened[i]? = some (some n)) (kind : SyntaxKind) :
    ({ s with opened := s.opened.setIfInBounds i none }.handClosed (s.recorder.close n kind)).2.Tends where
  recorder := (h.recorder.close ⟨i, n, hn, rfl⟩ kind).mono
    (fun _ => (h.opened.hasHandle_takeBack hn).symm) fun _ => hasHandle_push.mp
  opened := h.opened.takeBack
  closed := by
    refine h.closed.push fun hp => ?_
    -- a closed node starts where the open one still has its hole
    obtain ⟨k, hk⟩ := h.recorder.tended.free n.slot hp
    have hole := (h.recorder.tended.hole_iff n.slot).mpr ⟨i, n, hn, rfl⟩
    exact absurd (hole.symm.trans hk) (by simp)

theorem enclose {n : ClosedNode} (h : s.Tends) (hn : s.closed[i]? = some (some n)) :
    ({ s with closed := s.closed.setIfInBounds i none }.handOpen (s.recorder.enclose n)).2.Tends where
  recorder := (h.recorder.enclose ⟨i, n, hn, rfl⟩).mono
    (fun p => (hasHandle_handOpen _ (s.recorder.enclose n) p).symm)
    fun _ => (h.closed.hasHandle_takeBack hn).mp
  opened := h.opened.push fun hp => Nat.lt_irrefl _ (h.recorder.tended.lt_size hp)
  closed := h.closed.takeBack

theorem lookTimes (h : s.Tends) (n : Nat) :
    (Session.lookTimes n s.recorder).2.Tends (HasHandle OpenNode.slot s.opened)
      (HasHandle ClosedNode.slot s.closed) := by
  rw [Session.lookTimes]
  split
  · exact h.recorder
  · exact ⟨h.recorder.tended, h.recorder.misuse⟩

/-- **Every operation tends the record**, or fails for want of a handle. -/
theorem perform (h : s.Tends) {x : Step} (hx : x ≠ .file) :
    (∃ e, s.perform x = .error e ∧ e.IsExcused) ∨
      ∃ reply s', s.perform x = .ok (reply, s') ∧ s'.Tends := by
  cases x with
  | start => exact .inr ⟨_, _, rfl, h.start⟩
  | close i kind =>
    rw [Session.perform]
    split
    · next n hn => exact .inr ⟨_, _, rfl, h.close hn kind⟩
    · exact .inl ⟨_, rfl, trivial⟩
  | enclose i =>
    rw [Session.perform]
    split
    · next n hn => exact .inr ⟨_, _, rfl, h.enclose hn⟩
    · exact .inl ⟨_, rfl, trivial⟩
  | abandon i => exact .inl ⟨_, rfl, trivial⟩
  | take => exact .inr ⟨_, _, rfl, h.go h.recorder.take⟩
  | complain c => exact .inr ⟨_, _, rfl, h.go (h.recorder.complain c)⟩
  | recover c stops => exact .inr ⟨_, _, rfl, h.go (h.recorder.recover c stops)⟩
  | file => exact absurd rfl hx
  | look n => exact .inr ⟨_, _, rfl, h.go (h.lookTimes n)⟩
  | eat kind => exact .inr ⟨_, _, rfl, h.go (h.recorder.eat kind)⟩
  | expect kind => exact .inr ⟨_, _, rfl, h.go (h.recorder.expect kind)⟩
  | peek | isAt | isAtAny | isAtEnd => exact .inr ⟨_, _, rfl, h.go h.recorder.peek⟩

/-- So does every step. -/
theorem step (h : s.Tends) {x : Step} (hx : x ≠ .file) :
    (∃ e, s.step x = .error e ∧ e.IsExcused) ∨
      ∃ reply s', s.step x = .ok (reply, s') ∧ s'.Tends := by
  obtain ⟨e, hperform, he⟩ | ⟨reply, s', hperform, h'⟩ := h.perform hx
  · exact .inl ⟨e, by rw [Session.step, hperform], he⟩
  · have hfailure : s'.recorder.failure? =
        if lookLimit < s'.recorder.longest then some .stuck else none := by
      rw [failure?, h'.recorder.misuse]
    simp only [Session.step, hperform, hfailure]
    by_cases hlook : lookLimit < s'.recorder.longest
    · exact .inl ⟨.stuck, by rw [if_pos hlook], trivial⟩
    · exact .inr ⟨reply, s', by rw [if_neg hlook], h'⟩

/-- **A script tends the record to its end**, and in the end no node is open. -/
theorem run (h : s.Tends) {script : List Step} (hscript : ∀ x ∈ script, x ≠ .file) :
    (∃ e, (s.run script).2 = .error e ∧ e.IsExcused) ∨
      ∃ log closed, (s.run script).2 = .ok log ∧ Tended log (fun _ => False) closed := by
  induction script generalizing s with
  | nil =>
    rw [Session.run, Session.finish]
    split
    · exact .inl ⟨_, rfl, trivial⟩
    · next hopen =>
      refine .inr ⟨_, _, rfl, (h.recorder.mono (fun p => ⟨?_, False.elim⟩) fun _ => id).tended⟩
      rintro ⟨i, n, hn, -⟩
      obtain ⟨hi, hn⟩ := Array.getElem?_eq_some_iff.mp hn
      exact hopen (Array.any_eq_true.mpr ⟨i, hi, by rw [hn, Option.isSome_some]⟩)
  | cons x xs ih =>
    obtain ⟨hx, hxs⟩ := List.forall_mem_cons.mp hscript
    obtain ⟨e, hstep, he⟩ | ⟨reply, s', hstep, h'⟩ := h.step hx
    · exact .inl ⟨e, by rw [Session.run, hstep], he⟩
    · rw [Session.run, hstep]
      exact ih h' hxs

end Tends

end Session

/-! ## Scripts -/

/-- What comes of a script over the tokens of a text: its record, unless something goes wrong. -/
def outcome (text : String) (script : List Step) : Except Failure (Array Event) :=
  ((Session.ofTokens ((Lexeme.tokenize text).map Lexeme.token)).run script).2

theorem tends_ofTokens (ts : List Token) : (Session.ofTokens ts).Tends where
  recorder := ⟨tended_empty.mono (fun p => by simp [HasHandle, Session.ofTokens])
    fun p hp => by simp [HasHandle, Session.ofTokens] at hp, rfl⟩
  opened i j x y hx := by simp [Session.ofTokens] at hx
  closed i j x y hx := by simp [Session.ofTokens] at hx

/-- **However nodes are opened, closed and enclosed, the record is well formed.**  A script of the
operations of a recorder, in any order, that does not get stuck, leaves no node open and uses every
handle once misuses nothing, and its record is well formed: no hole is left, there are as many ends as
starts, every link leads to a later start that no other leads to, and the replay comes to its end with
one start for every start, the other calls in their order, and no end before its start. -/
theorem wellFormed_of_script (text : String) (script : List Step)
    (hscript : ∀ x ∈ script, x ≠ .file) (hstuck : outcome text script ≠ .error .stuck)
    (hopen : outcome text script ≠ .error .leftOpen)
    (hknown : outcome text script ≠ .error .unknownHandle) :
    ∃ log, outcome text script = .ok log ∧ WellFormed log := by
  obtain ⟨e, he, hexcused⟩ | ⟨log, closed, hlog, tended⟩ := (tends_ofTokens _).run hscript
  · cases e with
    | stuck => exact absurd he hstuck
    | leftOpen => exact absurd he hopen
    | unknownHandle => exact absurd he hknown
    | misuse => exact hexcused.elim
  · exact ⟨log, hlog, tended.wellFormed⟩

/-- The script of a node that is closed before the node inside it, which is enclosed after both; what
encloses it is closed last, behind an error node. -/
def tangledScript : List Step :=
  [.start, .take, .start, .expect .eq, .close 0 .sourceFile, .close 1 .literal, .enclose 1,
    .recover .expectedName ∅, .enclose 0, .close 3 .parenExpr, .eat .intNumber,
    .close 2 .prefixExpr]

/-- The record that it leaves over three numbers. -/
def tangledLog : Array Event :=
  #[.start .sourceFile (some 11), .token, .start .literal (some 4), .error (.expected .eq), .finish,
    .finish, .start .prefixExpr none, .start .error none, .error .expectedName, .token, .finish,
    .start .parenExpr none, .finish, .token, .finish]

theorem wellFormed_of_tangledScript : (∀ x ∈ tangledScript, x ≠ .file) ∧
    outcome "1 2 3" tangledScript = .ok tangledLog ∧ WellFormed tangledLog := by
  have hscript : ∀ x ∈ tangledScript, x ≠ .file := by simp [tangledScript]
  have hlog : outcome "1 2 3" tangledScript = .ok tangledLog := by decide +kernel
  obtain ⟨log, hok, wellFormed⟩ := wellFormed_of_script "1 2 3" tangledScript hscript
    (by simp [hlog]) (by simp [hlog]) (by simp [hlog])
  obtain rfl := Except.ok.inj (hlog.symm.trans hok)
  exact ⟨hscript, hlog, wellFormed⟩

end Recorder

end LosslessSyntax
