import LosslessSyntax.Event.Recorder
import LosslessSyntax.Proofs.Event.Layout

/-!
# Proofs/Event/Recording — a recorder builds a nest

Every operation of a recorder does to the nest what it does to the record: `Builds` is kept when a
word is taken, a complaint made, and a node opened, closed or enclosed at the right place.  Looking
ahead changes neither.
-/

namespace LosslessSyntax.Recorder

open Event

/-- **A recorder has built a nest** over words of which some are still to be read, and nothing was
misused. -/
structure Builds (r : Recorder) (rest : List Lexeme) (g : Nest) : Prop where
  rest_eq : r.stream.rest = rest.map Lexeme.token
  agrees : Agrees r.log g
  misuse : r.misuse = none

variable {r : Recorder} {rest : List Lexeme} {g : Nest}

/-! ## Reading -/

theorem Builds.next?_eq (h : r.Builds rest g) : r.stream.next? = rest.head?.map Lexeme.kind := by
  rw [TokenStream.next?, h.rest_eq, List.head?_map, Option.map_map]
  rfl

theorem take_of_nil (h : r.Builds [] g) : r.take = r := by
  rw [take, TokenStream.advance?, h.rest_eq]
  rfl

theorem take_of_cons {l : Lexeme} (h : r.Builds (l :: rest) g) :
    r.take = { r with stream := ⟨rest.map Lexeme.token⟩, log := r.log.push .token, looks := 0 } := by
  rw [take, TokenStream.advance?, h.rest_eq]
  rfl

theorem Builds.take {l : Lexeme} (h : r.Builds (l :: rest) g) :
    r.take.Builds rest (g.add (.word l)) := by
  rw [take_of_cons h]
  exact ⟨rfl, h.agrees.token l, h.misuse⟩

theorem Builds.complain (h : r.Builds rest g) (c : Complaint) :
    (r.complain c).Builds rest (g.add (.error c)) :=
  ⟨h.rest_eq, h.agrees.error c, h.misuse⟩

theorem Builds.peek (h : r.Builds rest g) : r.peek.2.Builds rest g :=
  ⟨h.rest_eq, h.agrees, h.misuse⟩

/-! ## Nodes -/

theorem Builds.start (h : r.Builds rest g) : r.start.2.Builds rest (g.start r.log.size) :=
  ⟨h.rest_eq, h.agrees.start, h.misuse⟩

section Close

variable {cur before : List Item} {ss : List Scope} {n : OpenNode}

theorem close_eq (h : r.Builds rest ⟨cur, ⟨n.slot, before⟩ :: ss⟩) (kind : SyntaxKind) :
    r.close n kind = (⟨n.slot, kind⟩, { r with log := closeAt r.log n.slot kind, looks := 0 }) := by
  simp only [close, (h.agrees.close kind).1]
  rfl

theorem Builds.close (h : r.Builds rest ⟨cur, ⟨n.slot, before⟩ :: ss⟩) (kind : SyntaxKind) :
    (r.close n kind).2.Builds rest
      ⟨before ++ [⟨some n.slot, .node kind (cur.map Item.outline)⟩], ss⟩ := by
  rw [close_eq h]
  exact ⟨h.rest_eq, (h.agrees.close kind).2, h.misuse⟩

end Close

section Enclose

variable {before after : List Item} {o : Outline} {ss : List Scope} {n : ClosedNode}

theorem enclose_eq (h : r.Builds rest ⟨before ++ ⟨some n.slot, o⟩ :: after, ss⟩) :
    ∃ kind, r.enclose n = (⟨r.log.size⟩, { r with log := encloseAt r.log n.slot kind }) ∧
      Agrees (encloseAt r.log n.slot kind) ⟨⟨none, o⟩ :: after, ⟨r.log.size, before⟩ :: ss⟩ := by
  obtain ⟨kind, closed, hagrees⟩ := h.agrees.enclose
  refine ⟨kind, ?_, hagrees⟩
  simp only [enclose, closed]
  rfl

theorem Builds.enclose (h : r.Builds rest ⟨before ++ ⟨some n.slot, o⟩ :: after, ss⟩) :
    (r.enclose n).2.Builds rest ⟨⟨none, o⟩ :: after, ⟨r.log.size, before⟩ :: ss⟩ := by
  obtain ⟨kind, heq, hagrees⟩ := enclose_eq h
  rw [heq]
  exact ⟨h.rest_eq, hagrees, h.misuse⟩

end Enclose

/-! ## The beginning -/

theorem map_token_significant (ls : List Lexeme) :
    (TokenStream.ofTokens (ls.map Lexeme.token)).rest = (Lexeme.significant ls).map Lexeme.token := by
  rw [TokenStream.ofTokens, Lexeme.significant, List.filter_map]
  rfl

theorem builds_ofTokens (ls : List Lexeme) :
    (ofTokens (ls.map Lexeme.token)).Builds (Lexeme.significant ls) .empty :=
  ⟨map_token_significant ls, .empty, rfl⟩

end LosslessSyntax.Recorder
