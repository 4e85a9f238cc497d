import LosslessSyntax.Lexeme.Scan
import LosslessSyntax.Proofs.Event.Playback
import LosslessSyntax.Proofs.Event.Recording
import Mathlib.Logic.Function.Basic

/-!
# Proofs/Event/Nesting — recording and replaying builds the tree at once

A script that keeps to the nesting can be carried out in two ways: by a recorder, whose record is then
replayed, or by a nest.  A script numbers nodes in the order in which they are opened and closed, a
record by places; `Named` ties the two numberings together, and one step of a script keeps it
(`Named.step`).  So the record a script leaves is replayed to the calls of what the nest has built.
-/

namespace LosslessSyntax

/-! ## Numbers and places -/

/-- The same item under another number. -/
def Item.rename (τ : Nat → Nat) (it : Item) : Item := ⟨it.handle.map τ, it.outline⟩

@[simp] theorem Item.outline_rename (τ : Nat → Nat) (it : Item) :
    (it.rename τ).outline = it.outline := rfl

namespace Nest

/-- The numbers of the open nodes, the innermost first. -/
def numbers (g : Nest) : List Nat := g.scopes.map Scope.opened

/-- The numbers of the items before open nodes. -/
def handlesBefore : List Scope → List Nat
  | [] => []
  | s :: ss => handlesBefore ss ++ s.before.filterMap Item.handle

/-- The numbers of the items that may be enclosed now or later. -/
def handles (g : Nest) : List Nat := handlesBefore g.scopes ++ g.current.filterMap Item.handle

/-- The same nest under other numbers. -/
def rename (σ τ : Nat → Nat) (g : Nest) : Nest :=
  ⟨g.current.map (Item.rename τ),
    g.scopes.map fun s => ⟨σ s.opened, s.before.map (Item.rename τ)⟩⟩

variable {σ σ' τ τ' : Nat → Nat}

theorem map_rename_congr {its : List Item} (h : ∀ n ∈ its.filterMap Item.handle, τ' n = τ n) :
    its.map (Item.rename τ') = its.map (Item.rename τ) := by
  refine List.map_congr_left fun it hit => ?_
  obtain ⟨handle, o⟩ := it
  cases handle with
  | none => rfl
  | some n =>
    have hn := h n (List.mem_filterMap.mpr ⟨_, hit, rfl⟩)
    simp [Item.rename, hn]

theorem rename_congr {g : Nest} (hσ : ∀ n ∈ g.numbers, σ' n = σ n)
    (hτ : ∀ n ∈ g.handles, τ' n = τ n) : g.rename σ' τ' = g.rename σ τ := by
  obtain ⟨cur, ss⟩ := g
  have hcur : cur.map (Item.rename τ') = cur.map (Item.rename τ) :=
    map_rename_congr fun n hn => hτ n (List.mem_append_right _ hn)
  have hss : ss.map (fun s => Scope.mk (σ' s.opened) (s.before.map (Item.rename τ')))
      = ss.map fun s => Scope.mk (σ s.opened) (s.before.map (Item.rename τ)) := by
    replace hτ : ∀ n ∈ handlesBefore ss, τ' n = τ n := fun n hn => hτ n (List.mem_append_left _ hn)
    induction ss with
    | nil => rfl
    | cons s ss ih =>
      rw [List.map_cons, List.map_cons, hσ s.opened List.mem_cons_self,
        map_rename_congr fun n hn => hτ n (List.mem_append_right _ hn),
        ih (fun n hn => hσ n (List.mem_cons_of_mem _ hn))
          fun n hn => hτ n (List.mem_append_left _ hn)]
  rw [rename, rename, hcur, hss]

/-- Opening a node gives a place to its number alone. -/
theorem rename_start {g : Nest} {n p : Nat} (hn : n ∉ g.numbers) :
    (g.start n).rename (Function.update σ n p) τ = (g.rename σ τ).start p := by
  have hkeep : g.rename (Function.update σ n p) τ = g.rename σ τ :=
    rename_congr (fun m hm => Function.update_of_ne (fun he : m = n => hn (he ▸ hm)) _ _)
      fun _ _ => rfl
  have hss := congrArg Nest.scopes hkeep
  simp only [rename] at hss
  simp [start, rename, hss]

/-- So does closing one. -/
theorem rename_append {before : List Item} {ss : List Scope} {n p : Nat} (o : Outline)
    (hn : n ∉ (Nest.mk before ss).handles) :
    (Nest.mk (before ++ [⟨some n, o⟩]) ss).rename σ (Function.update τ n p)
      = ⟨before.map (Item.rename τ) ++ [⟨some p, o⟩], ((Nest.mk before ss).rename σ τ).scopes⟩ := by
  have hkeep : (Nest.mk before ss).rename σ (Function.update τ n p) = (Nest.mk before ss).rename σ τ :=
    rename_congr (fun _ _ => rfl)
      fun m hm => Function.update_of_ne (fun he : m = n => hn (he ▸ hm)) _ _
  have hbefore := congrArg Nest.current hkeep
  have hss := congrArg Nest.scopes hkeep
  simp only [rename] at hbefore hss
  simp [rename, hbefore, hss, Item.rename]

theorem rename_add {g : Nest} (o : Outline) : (g.add o).rename σ τ = (g.rename σ τ).add o := by
  simp [add, rename, Item.rename]

theorem handles_start (g : Nest) (n : Nat) : (g.start n).handles = g.handles := by
  simp [start, handles, handlesBefore]

theorem handles_add (g : Nest) (o : Outline) : (g.add o).handles = g.handles := by
  simp [add, handles]

end Nest

open Recorder

/-! ## Handing handles out and taking them back -/

section Table

variable {α : Type} {place : α → Nat} {xs : Array (Option α)} {names names' : List Nat}
  {σ : Nat → Nat} {i n : Nat} {x y : α}

theorem getElem?_push_some :
    (xs.push (some x))[n]? = some (some y) ↔ n = xs.size ∧ x = y ∨ xs[n]? = some (some y) := by
  rw [Array.getElem?_push]
  split
  · next h =>
    subst h
    simp
  · next h => simp [h]

theorem getElem?_setIfInBounds_none :
    (xs.setIfInBounds i none)[n]? = some (some y) ↔ n ≠ i ∧ xs[n]? = some (some y) := by
  rw [Array.getElem?_setIfInBounds]
  split
  · next h =>
    subst h
    simp
  · next h => simp [Ne.symm h]

/-- **A table has handles under some names**: each is for the place that its name stands for. -/
structure Issued (place : α → Nat) (xs : Array (Option α)) (names : List Nat) (σ : Nat → Nat) :
    Prop where
  entry : ∀ n ∈ names, ∃ x, xs[n]? = some (some x) ∧ place x = σ n
  nodup : names.Nodup

theorem Issued.fresh (h : Issued place xs names σ) : xs.size ∉ names := by
  intro hn
  obtain ⟨x, hx, -⟩ := h.entry _ hn
  exact absurd (Array.getElem?_eq_some_iff.mp hx).1 (Nat.lt_irrefl _)

theorem Issued.sublist (h : Issued place xs names σ) (hs : names'.Sublist names) :
    Issued place xs names' σ :=
  ⟨fun n hn => h.entry n (hs.subset hn), hs.nodup h.nodup⟩

theorem Issued.perm (h : Issued place xs names σ) (hp : names.Perm names') :
    Issued place xs names' σ :=
  ⟨fun n hn => h.entry n (hp.mem_iff.mpr hn), hp.nodup h.nodup⟩

/-- A handle that is handed out gets the next name. -/
theorem Issued.handOut (h : Issued place xs names σ) (x : α) :
    Issued place (xs.push (some x)) (xs.size :: names)
      (Function.update σ xs.size (place x)) where
  entry n hn := by
    rcases List.mem_cons.mp hn with rfl | hn
    · exact ⟨x, getElem?_push_some.mpr (.inl ⟨rfl, rfl⟩), by rw [Function.update_self]⟩
    · obtain ⟨y, hy, hplace⟩ := h.entry n hn
      have hne : n ≠ xs.size := fun he => h.fresh (he ▸ hn)
      exact ⟨y, getElem?_push_some.mpr (.inr hy), by rw [Function.update_of_ne hne, hplace]⟩
  nodup := List.nodup_cons.mpr ⟨h.fresh, h.nodup⟩

theorem Issued.takeBack (h : Issued place xs (i :: names) σ) :
    Issued place (xs.setIfInBounds i none) names σ where
  entry n hn := by
    obtain ⟨y, hy, hplace⟩ := h.entry n (List.mem_cons_of_mem _ hn)
    have hne : n ≠ i := fun he => (List.nodup_cons.mp h.nodup).1 (he ▸ hn)
    exact ⟨y, getElem?_setIfInBounds_none.mpr ⟨hne, hy⟩, hplace⟩
  nodup := (List.nodup_cons.mp h.nodup).2

/-- A table has handles under no other names. -/
def OnlyUnder (xs : Array (Option α)) (names : List Nat) : Prop :=
  ∀ n x, xs[n]? = some (some x) → n ∈ names

theorem OnlyUnder.handOut (h : OnlyUnder xs names) (x : α) :
    OnlyUnder (xs.push (some x)) (xs.size :: names) := by
  intro n y hy
  rcases getElem?_push_some.mp hy with ⟨rfl, -⟩ | hy
  · exact List.mem_cons_self
  · exact List.mem_cons_of_mem _ (h n y hy)

theorem OnlyUnder.takeBack (h : OnlyUnder xs (i :: names)) :
    OnlyUnder (xs.setIfInBounds i none) names := by
  intro n y hy
  obtain ⟨hne, hy⟩ := getElem?_setIfInBounds_none.mp hy
  exact (List.mem_cons.mp (h n y hy)).resolve_left hne

end Table

/-! ## A session and a construction -/

/-- **A session does what a construction does**: the numbers of open nodes stand for places given by
`σ`, those of closed ones for places given by `τ`. -/
structure Named (s : Session) (b : Construction) (σ τ : Nat → Nat) : Prop where
  builds : s.recorder.Builds b.rest (b.nest.rename σ τ)
  longest : s.recorder.longest = 0
  size_opened : s.opened.size = b.opened
  size_closed : s.closed.size = b.closed
  opened : Issued OpenNode.slot s.opened b.nest.numbers σ
  closed : Issued ClosedNode.slot s.closed b.nest.handles τ
  only : OnlyUnder s.opened b.nest.numbers

/-- Nothing goes wrong as long as nothing is misused and nobody looks ahead too often. -/
theorem Recorder.failure?_eq_none {r : Recorder} (hm : r.misuse = none)
    (hl : r.longest ≤ lookLimit) : r.failure? = none := by
  simp only [failure?, hm]
  exact if_neg (by omega)

/-- A step that leads on to a named session succeeds. -/
theorem Recorder.Session.step_of_perform {s s' : Session} {x : Step} {reply : Reply}
    (h : s.perform x = .ok (reply, s')) (hm : s'.recorder.misuse = none)
    (hl : s'.recorder.longest = 0) : s.step x = .ok (reply, s') := by
  have hfail : s'.recorder.failure? = none := failure?_eq_none hm (hl ▸ Nat.zero_le _)
  simp only [step, h, hfail]

namespace Named

variable {s : Session} {b b' : Construction} {σ τ : Nat → Nat}

theorem fresh_number (h : Named s b σ τ) : b.opened ∉ b.nest.numbers :=
  h.size_opened ▸ h.opened.fresh

/-! ### The steps -/

/-- A step that neither opens nor closes a node. -/
theorem leaf (h : Named s b σ τ) {r : Recorder} {rest : List Lexeme} {o : Outline}
    (hr : r.Builds rest ((b.nest.rename σ τ).add o)) (hl : r.longest = 0) :
    Named { s with recorder := r } { b with rest, nest := b.nest.add o } σ τ where
  builds := Nest.rename_add o ▸ hr
  longest := hl
  size_opened := h.size_opened
  size_closed := h.size_closed
  opened := h.opened
  closed := (b.nest.handles_add o).symm ▸ h.closed
  only := h.only

theorem take (h : Named s b σ τ) : Named { s with recorder := s.recorder.take } b.take σ τ := by
  cases hrest : b.rest with
  | nil =>
    have hr := h.builds
    rw [hrest] at hr
    rw [take_of_nil hr, Construction.take, hrest]
    exact h
  | cons l ls =>
    have hr := h.builds
    rw [hrest] at hr
    rw [Construction.take, hrest]
    exact h.leaf hr.take (by rw [take_of_cons hr]; exact h.longest)

theorem complain (h : Named s b σ τ) (c : Complaint) :
    Named { s with recorder := s.recorder.complain c } { b with nest := b.nest.add (.error c) } σ τ :=
  h.leaf (h.builds.complain c) h.longest

theorem start (h : Named s b σ τ) :
    Named (s.handOpen s.recorder.start).2
      { b with opened := b.opened + 1, nest := b.nest.start b.opened }
      (Function.update σ b.opened s.recorder.log.size) τ where
  builds := (Nest.rename_start h.fresh_number).symm ▸ h.builds.start
  longest := h.longest
  size_opened := by simp [Session.handOpen, h.size_opened]
  size_closed := h.size_closed
  opened := h.size_opened ▸ h.opened.handOut s.recorder.start.1
  closed := (b.nest.handles_start _).symm ▸ h.closed
  only := h.size_opened ▸ h.only.handOut s.recorder.start.1

/-- To close the innermost node puts the handle it gets in the place of those inside it. -/
theorem close {cur before : List Item} {ss : List Scope} {i : Nat} (h : Named s b σ τ)
    (hb : b.nest = ⟨cur, ⟨i, before⟩ :: ss⟩) (kind : SyntaxKind) :
    Named ({ s with opened := s.opened.setIfInBounds i none }.handClosed
        (s.recorder.close ⟨σ i⟩ kind)).2
      { b with
        closed := b.closed + 1
        nest := ⟨before ++ [⟨some b.closed, .node kind (cur.map Item.outline)⟩], ss⟩ }
      σ (Function.update τ b.closed (σ i)) := by
  have hhandles : b.nest.handles = (Nest.mk before ss).handles ++ cur.filterMap Item.handle := by
    rw [hb]
    rfl
  have hhandles' : (Nest.mk (before ++ [⟨some b.closed, .node kind (cur.map Item.outline)⟩]) ss).handles
      = (Nest.mk before ss).handles ++ [b.closed] := by
    simp [Nest.handles]
  have hr := h.builds
  have opened := h.opened
  have only := h.only
  rw [hb] at hr opened only
  have hclosed := h.closed.sublist (hhandles ▸ List.sublist_append_left _ _)
  have hfresh := hclosed.fresh
  rw [h.size_closed] at hfresh
  refine ⟨?_, ?_, ?_, ?_, opened.takeBack, ?_, only.takeBack⟩
  · have := hr.close kind
    rw [Session.handClosed, Nest.rename_append _ hfresh]
    simpa [Nest.rename, Function.comp_def] using this
  · rw [Session.handClosed, close_eq hr]
    exact h.longest
  · simp [Session.handClosed, h.size_opened]
  · simp [Session.handClosed, h.size_closed]
  · have hout := (hclosed.handOut (s.recorder.close ⟨σ i⟩ kind).1).perm
      (List.perm_append_singleton _ _).symm
    rwa [h.size_closed, ← hhandles', close_eq hr] at hout

/-- To enclose a node uses up its handle. -/
theorem enclose {cur before after : List Item} {o : Outline} {ss : List Scope} {i : Nat}
    (h : Named s b σ τ) (hb : b.nest = ⟨cur, ss⟩) (hcur : cur = before ++ ⟨some i, o⟩ :: after)
    (kind : SyntaxKind) :
    Named ({ s with closed := s.closed.setIfInBounds i none }.handOpen
        (s.recorder.enclose ⟨τ i, kind⟩)).2
      { b with
        opened := b.opened + 1
        nest := ⟨⟨none, o⟩ :: after, ⟨b.opened, before⟩ :: ss⟩ }
      (Function.update σ b.opened s.recorder.log.size) τ := by
  subst hcur
  have hnumbers : b.nest.numbers = ss.map Scope.opened := by
    rw [hb]
    rfl
  have hhandles : b.nest.handles = (Nest.mk before ss).handles ++ i :: after.filterMap Item.handle := by
    rw [hb]
    simp [Nest.handles]
  have hhandles' : (Nest.mk (⟨none, o⟩ :: after) (⟨b.opened, before⟩ :: ss)).handles
      = (Nest.mk before ss).handles ++ after.filterMap Item.handle := by
    simp [Nest.handles, Nest.handlesBefore]
  have hr := h.builds
  rw [hb] at hr
  replace hr : s.recorder.Builds b.rest ⟨before.map (Item.rename τ) ++
      ⟨some (τ i), o⟩ :: after.map (Item.rename τ), ((Nest.mk before ss).rename σ τ).scopes⟩ := by
    simpa [Nest.rename, Item.rename] using hr
  have hfresh := h.fresh_number
  rw [hnumbers] at hfresh
  have hrename : (Nest.mk (⟨none, o⟩ :: after) (⟨b.opened, before⟩ :: ss)).rename
      (Function.update σ b.opened s.recorder.log.size) τ
      = ⟨⟨none, o⟩ :: after.map (Item.rename τ), ⟨s.recorder.log.size, before.map (Item.rename τ)⟩ ::
        ((Nest.mk before ss).rename σ τ).scopes⟩ := by
    have hstart := Nest.rename_start (g := ⟨before, ss⟩) (σ := σ) (τ := τ)
      (p := s.recorder.log.size) hfresh
    have hscopes := congrArg Nest.scopes hstart
    simp only [Nest.rename, Nest.start] at hscopes ⊢
    rw [hscopes]
    rfl
  obtain ⟨kind', heq, -⟩ := enclose_eq hr (n := ⟨τ i, kind⟩)
  have hout := h.opened.handOut (s.recorder.enclose ⟨τ i, kind⟩).1
  have honly := h.only.handOut (s.recorder.enclose ⟨τ i, kind⟩).1
  rw [h.size_opened, hnumbers] at hout honly
  refine ⟨hrename ▸ hr.enclose (n := ⟨τ i, kind⟩), ?_, ?_, ?_, hout, ?_, honly⟩
  · rw [Session.handOpen, heq]
    exact h.longest
  · simp [Session.handOpen, h.size_opened]
  · simp [Session.handOpen, h.size_closed]
  · rw [hhandles']
    exact (h.closed.perm (hhandles ▸ List.perm_middle)).takeBack

/-- **A step of a construction is a step of a session.** -/
theorem step (h : Named s b σ τ) {x : Step} (hx : b.step x = some b') :
    ∃ reply s' σ' τ', s.step x = .ok (reply, s') ∧ Named s' b' σ' τ' := by
  cases x with
  | start =>
    obtain rfl := Option.some.inj hx
    exact ⟨_, _, _, _, Session.step_of_perform rfl h.start.builds.misuse h.start.longest, h.start⟩
  | take =>
    obtain rfl := Option.some.inj hx
    exact ⟨_, _, _, _, Session.step_of_perform rfl h.take.builds.misuse h.take.longest, h.take⟩
  | complain c =>
    obtain rfl := Option.some.inj hx
    have h' := h.complain c
    exact ⟨_, _, _, _, Session.step_of_perform rfl h'.builds.misuse h'.longest, h'⟩
  | close i kind =>
    obtain ⟨g, hg, rfl⟩ := Option.map_eq_some_iff.mp hx
    obtain ⟨⟨cur, _ | ⟨⟨j, before⟩, ss⟩⟩, hb⟩ : ∃ g, b.nest = g := ⟨_, rfl⟩
    · rw [hb] at hg
      exact absurd hg (by simp [Nest.close?])
    · obtain ⟨rfl, rfl⟩ : j = i ∧ _ = g := by simpa [hb, Nest.close?] using hg
      have h' := h.close hb kind
      obtain ⟨⟨_⟩, hopen, rfl⟩ := h.opened.entry j (by rw [hb]; exact List.mem_cons_self)
      exact ⟨_, _, _, _, Session.step_of_perform (by simp only [Session.perform, hopen]; rfl)
        h'.builds.misuse h'.longest, h'⟩
  | enclose i =>
    obtain ⟨g, hg, rfl⟩ := Option.map_eq_some_iff.mp hx
    obtain ⟨⟨before, o, after⟩, hsplit, rfl⟩ := Option.map_eq_some_iff.mp hg
    have hcur := Nest.eq_append_of_split? hsplit
    obtain ⟨⟨-, kind⟩, hclosed, rfl⟩ := h.closed.entry i (by simp [Nest.handles, hcur])
    have h' := h.enclose rfl hcur kind
    exact ⟨_, _, _, _, Session.step_of_perform (by simp only [Session.perform, hclosed]; rfl)
      h'.builds.misuse h'.longest, h'⟩
  | _ => exact absurd hx (by simp [Construction.step])

/-- **A script that a construction carries out is carried out by a session**, and its record agrees
with what was built. -/
theorem run (h : Named s b σ τ) {script : List Step} {os : List Outline}
    (hrun : b.run script = some os) :
    ∃ replies log its, s.run script = (replies, .ok log) ∧ Event.Agrees log ⟨its, []⟩ ∧
      its.map Item.outline = os := by
  induction script generalizing s b σ τ with
  | nil =>
    obtain ⟨hclosed, rfl⟩ : b.nest.scopes = [] ∧ b.nest.current.map Item.outline = os := by
      simpa [Construction.run] using hrun
    have hnone : s.opened.any (·.isSome) = false := by
      rw [Array.any_eq_false]
      intro n hn hsome
      obtain ⟨m, hm⟩ := Option.isSome_iff_exists.mp hsome
      have := h.only n m (Array.getElem?_eq_some_iff.mpr ⟨hn, hm⟩)
      simp [Nest.numbers, hclosed] at this
    refine ⟨[], s.recorder.log, b.nest.current.map (Item.rename τ), ?_, ?_, ?_⟩
    · simp [Session.run, Session.finish, hnone]
    · have := h.builds.agrees
      rwa [Nest.rename, hclosed] at this
    · simp [Function.comp_def]
  | cons x xs ih =>
    obtain ⟨b', hx, hrun⟩ := Option.bind_eq_some_iff.mp hrun
    obtain ⟨reply, s', σ', τ', hstep, h'⟩ := h.step hx
    obtain ⟨replies, log, its, hs', hrest⟩ := ih h' hrun
    exact ⟨reply :: replies, log, its, by simp only [Session.run, hstep, hs'], hrest⟩

end Named

/-- Nothing has been done yet. -/
theorem named_ofTokens (ls : List Lexeme) :
    Named (.ofTokens (ls.map Lexeme.token)) (.ofLexemes ls) id id where
  builds := builds_ofTokens ls
  longest := rfl
  size_opened := rfl
  size_closed := rfl
  opened := ⟨List.forall_mem_nil _, .nil⟩
  closed := ⟨List.forall_mem_nil _, .nil⟩
  only n m hm := absurd hm (by simp [Session.ofTokens])

/-- **Recording and replaying builds the tree at once.**  A script that keeps to the nesting and closes
every node is recorded without a failure, and the record is replayed, without a broken link, to the
calls of the outlines that the script builds directly. -/
theorem replay_of_nested (text : String) (script : List Step) (os : List Outline)
    (h : (Construction.ofLexemes (Lexeme.tokenize text)).run script = some os) :
    ∃ replies log,
      (Session.ofTokens ((Lexeme.tokenize text).map Lexeme.token)).run script
        = (replies, .ok log) ∧
      Event.replay log = ⟨(Outline.callsAll os).toArray, none⟩ := by
  obtain ⟨replies, log, its, hrun, hagrees, rfl⟩ := (named_ofTokens _).run h
  obtain ⟨hlinked, hcalls⟩ := hagrees.linked
  exact ⟨replies, log, hrun, by rw [Event.replay_of_linked hlinked, hcalls]⟩

/-- The script of a node that is enclosed, with what stands behind it, inside a node that is still
open; that one is enclosed in turn, and all of it stands in a file. -/
def Recorder.nestedScript : List Step :=
  [.start, .start, .take, .close 1 .literal, .start, .take, .close 2 .literal, .enclose 0, .enclose 1,
    .take, .close 4 .parenExpr, .close 3 .binExpr, .enclose 3, .complain .expectedName,
    .close 5 .prefixExpr, .close 0 .sourceFile]

/-- What that script builds over three numbers. -/
def Recorder.nestedOutline : Outline :=
  .node .sourceFile
    [.node .prefixExpr
      [.node .binExpr
        [.node .literal [.word ⟨.intNumber, "1"⟩],
          .node .parenExpr [.node .literal [.word ⟨.intNumber, "2"⟩], .word ⟨.intNumber, "3"⟩]],
        .error .expectedName]]

theorem replay_of_nestedScript :
    (Construction.ofLexemes (Lexeme.tokenize "1 2 3")).run nestedScript = some [nestedOutline] ∧
      ∃ replies log,
        (Session.ofTokens ((Lexeme.tokenize "1 2 3").map Lexeme.token)).run nestedScript
          = (replies, .ok log) ∧
        Event.replay log = ⟨(Outline.callsAll [nestedOutline]).toArray, none⟩ := by
  have h : (Construction.ofLexemes (Lexeme.tokenize "1 2 3")).run nestedScript
      = some [nestedOutline] := by with_unfolding_all rfl
  exact ⟨h, replay_of_nested "1 2 3" nestedScript [nestedOutline] h⟩

end LosslessSyntax
