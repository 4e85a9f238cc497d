import LosslessSyntax.Proofs.Event.Recording
import LosslessSyntax.Proofs.Grammar.Reading

/-!
# Proofs/Grammar/Recording — the grammar records what its rules read

A recorder that is poised in front of some words has built a nest and not looked ahead too often.  A
rule of the grammar takes it to one that is poised in front of the words the rule leaves, with what the
rule read added to the current node.  The fuel of a rule is never used up, since every call and every
round leaves fewer words.
-/

namespace LosslessSyntax

namespace Recorder

open Grammar

/-- The most that a rule of the grammar looks at a token without taking one or closing a node. -/
def patience : Nat := 8

/-- **A recorder that is poised** in front of words: it has built a nest, it has looked at the next word
at most `n` times, and never more often than its patience allows. -/
structure Poised (n : Nat) (r : Recorder) (rest : List Lexeme) (g : Nest) : Prop where
  builds : r.Builds rest g
  looks : r.looks ≤ n
  longest : r.longest ≤ patience

variable {n m : Nat} {r : Recorder} {l : Lexeme} {ls rest : List Lexeme} {g : Nest}
  {cur before : List Item} {ss : List Scope} {os : List Outline}

theorem Poised.mono (h : Poised n r rest g) (hnm : n ≤ m) : Poised m r rest g :=
  ⟨h.builds, Nat.le_trans h.looks hnm, h.longest⟩

/-! ## Looking -/

theorem Poised.peek (h : Poised n r rest g) (hn : n < patience) : Poised (n + 1) r.peek.2 rest g := by
  have hlooks := h.looks
  refine ⟨h.builds.peek, Nat.succ_le_succ hlooks, Nat.max_le.mpr ⟨h.longest, ?_⟩⟩
  omega

theorem Poised.peek_eq (h : Poised n r rest g) :
    r.peek = (rest.head?.map Lexeme.kind, r.peek.2) :=
  Prod.ext h.builds.next?_eq rfl

theorem Poised.isAtEnd_eq (h : Poised n r rest g) : r.isAtEnd = (rest.isEmpty, r.peek.2) := by
  rw [isAtEnd, h.peek_eq]
  rcases rest with _ | ⟨l, rest⟩ <;> rfl

theorem Poised.isAt_eq (h : Poised n r (l :: rest) g) (kind : SyntaxKind) :
    r.isAt kind = (decide (l.kind = kind), r.peek.2) := by
  rw [isAt, h.peek_eq]
  refine Prod.ext ?_ rfl
  simp [beq_eq_decide]

theorem Poised.isAt_eq_nil (h : Poised n r [] g) (kind : SyntaxKind) :
    r.isAt kind = (false, r.peek.2) := by
  rw [isAt, h.peek_eq]
  rfl

theorem Poised.isAtAny_eq (h : Poised n r (l :: rest) g) (kinds : KindSet) :
    r.isAtAny kinds = (kinds.contains l.kind, r.peek.2) := by
  rw [isAtAny, h.peek_eq]
  rfl

theorem Poised.insist (h : Poised n r (l :: rest) g) (hn : n < patience) {kind : SyntaxKind}
    (hl : l.kind = kind) : Poised (n + 1) (r.insist kind) (l :: rest) g := by
  rw [Recorder.insist, h.isAt_eq]
  simpa [hl] using h.peek hn

/-! ## Reading -/

theorem Poised.take (h : Poised n r (l :: rest) g) : Poised 0 r.take rest (g.add (.word l)) := by
  refine ⟨h.builds.take, ?_, ?_⟩
  · exact Nat.le_of_eq (by rw [take_of_cons h.builds])
  · rw [take_of_cons h.builds]
    exact h.longest

theorem Poised.complain (h : Poised n r rest g) (c : Complaint) :
    Poised n (r.complain c) rest (g.add (.error c)) :=
  ⟨h.builds.complain c, h.looks, h.longest⟩

theorem Poised.start (h : Poised n r rest g) : Poised n r.start.2 rest (g.start r.log.size) :=
  ⟨h.builds.start, h.looks, h.longest⟩

/-- A node is opened and takes the next word. -/
theorem Poised.begin (h : Poised n r (l :: rest) ⟨cur, ss⟩) :
    Poised 0 r.start.2.take rest ⟨[⟨none, .word l⟩], ⟨r.log.size, cur⟩ :: ss⟩ :=
  h.start.take

theorem Poised.close {p : OpenNode} (h : Poised n r rest ⟨cur, ⟨p.slot, before⟩ :: ss⟩)
    (kind : SyntaxKind) : Poised 0 (r.close p kind).2 rest
      ⟨before ++ [⟨some p.slot, .node kind (cur.map Item.outline)⟩], ss⟩ := by
  refine ⟨h.builds.close kind, ?_, ?_⟩
  · exact Nat.le_of_eq (by rw [close_eq h.builds])
  · rw [close_eq h.builds]
    exact h.longest

theorem Poised.enclose {p : ClosedNode} {o : Outline}
    (h : Poised n r rest ⟨before ++ [⟨some p.slot, o⟩], ss⟩) :
    Poised n (r.enclose p).2 rest ⟨[⟨none, o⟩], ⟨r.log.size, before⟩ :: ss⟩ := by
  refine ⟨h.builds.enclose, ?_, ?_⟩
  · obtain ⟨kind, heq, -⟩ := enclose_eq h.builds
    rw [heq]
    exact h.looks
  · obtain ⟨kind, heq, -⟩ := enclose_eq h.builds
    rw [heq]
    exact h.longest

/-! ## Rules without choice -/

/-- How often the next word has been looked at: not often if a word was taken, else at most `n` times. -/
def waited (n : Nat) (ls rest : List Lexeme) : Nat := if rest.length < ls.length then 1 else n

theorem waited_of_lt (h : rest.length < ls.length) : waited n ls rest = 1 := if_pos h

theorem waited_self : waited n ls ls = n := if_neg (Nat.lt_irrefl _)

theorem waited_le (hn : 1 ≤ n) : waited n ls rest ≤ n := by
  unfold waited
  split <;> omega

theorem Poised.recover (h : Poised n r ls ⟨cur, ss⟩) (hn : n + 1 < patience) {c : Complaint}
    {stops : KindSet} (hr : recovery c stops ls = (os, rest)) :
    ∃ its, its.map Item.outline = os ∧
      Poised (waited (n + 2) ls rest) (r.recover c stops) rest ⟨cur ++ its, ss⟩ := by
  have hpeek := h.peek (by omega)
  rw [Recorder.recover, h.isAtEnd_eq]
  rcases ls with _ | ⟨l, ls⟩
  · obtain ⟨rfl, rfl⟩ := Prod.mk.inj hr
    rw [waited_self]
    exact ⟨[⟨none, .error c⟩], rfl, (hpeek.complain c).mono (Nat.le_succ _)⟩
  · simp only [List.isEmpty_cons, hpeek.isAtAny_eq]
    replace hpeek := hpeek.peek hn
    rw [recovery] at hr
    split at hr
    · next hstop =>
      obtain ⟨rfl, rfl⟩ := Prod.mk.inj hr
      rw [hstop, waited_self]
      exact ⟨[⟨none, .error c⟩], rfl, hpeek.complain c⟩
    · next hstop =>
      obtain ⟨rfl, rfl⟩ := Prod.mk.inj hr
      rw [Bool.eq_false_iff.mpr hstop, waited_of_lt (Nat.lt_succ_self _)]
      exact ⟨[⟨_, _⟩], rfl, ((hpeek.start.complain c).take.close .error).mono (Nat.zero_le _)⟩

theorem Poised.eat (h : Poised n r (l :: rest) g) (hn : n < patience) {kind : SyntaxKind}
    (hl : l.kind = kind) : ∃ r', r.eat kind = (true, r') ∧ Poised 0 r' rest (g.add (.word l)) := by
  rw [Recorder.eat, h.isAt_eq, decide_eq_true hl]
  exact ⟨_, rfl, (h.peek hn).take⟩

theorem Poised.eat_of_ne (h : Poised n r (l :: rest) g) (hn : n < patience) {kind : SyntaxKind}
    (hl : l.kind ≠ kind) :
    ∃ r', r.eat kind = (false, r') ∧ Poised (n + 1) r' (l :: rest) g := by
  rw [Recorder.eat, h.isAt_eq, decide_eq_false hl]
  exact ⟨_, rfl, h.peek hn⟩

theorem Poised.expect (h : Poised n r ls ⟨cur, ss⟩) (hn : n < patience) {kind : SyntaxKind}
    (he : expectation kind ls = (os, rest)) : ∃ its, its.map Item.outline = os ∧
      Poised (n + 1) (r.expect kind).2 rest ⟨cur ++ its, ss⟩ := by
  rw [Recorder.expect]
  rcases ls with _ | ⟨l, ls⟩
  · obtain ⟨rfl, rfl⟩ := Prod.mk.inj he
    rw [Recorder.eat, h.isAt_eq_nil]
    exact ⟨[⟨none, .error (.expected kind)⟩], rfl, (h.peek hn).complain _⟩
  · rw [expectation] at he
    split at he
    · next hl =>
      obtain ⟨rfl, rfl⟩ := Prod.mk.inj he
      obtain ⟨r', heq, hr⟩ := h.eat hn hl
      rw [heq]
      exact ⟨[⟨none, .word l⟩], rfl, hr.mono (Nat.zero_le _)⟩
    · next hl =>
      obtain ⟨rfl, rfl⟩ := Prod.mk.inj he
      obtain ⟨r', heq, hr⟩ := h.eat_of_ne hn hl
      rw [heq]
      exact ⟨[⟨none, .error (.expected kind)⟩], rfl, hr.complain _⟩

end Recorder

namespace Grammar

open Recorder SyntaxKind

variable {k n bound : Nat} {r : Recorder} {l : Lexeme} {ls rest : List Lexeme} {cur : List Item}
  {ss : List Scope}

/-! ## Expressions -/

/-- **A rule that may record a node has made an outcome** of words: a node that may be enclosed, or
what stands in its place.  The next word has then been looked at at most `k` or `n` times. -/
inductive Makes (k n : Nat) (ls : List Lexeme) (cur : List Item) (ss : List Scope) :
    Option ClosedNode × Recorder → Outcome → List Lexeme → Prop
  | found {r : Recorder} {p : ClosedNode} {o : Outline} {rest : List Lexeme}
      (poised : Poised k r rest ⟨cur ++ [⟨some p.slot, o⟩], ss⟩) :
      Makes k n ls cur ss (some p, r) (.found o) rest
  | missed {r : Recorder} {its : List Item} {rest : List Lexeme}
      (poised : Poised (waited n ls rest) r rest ⟨cur ++ its, ss⟩) :
      Makes k n ls cur ss (none, r) (.missed (its.map Item.outline)) rest

theorem Makes.poised {p : Option ClosedNode × Recorder} {x : Outcome}
    (h : Makes k n ls cur ss p x rest) (hk : k ≤ n) (hn : 1 ≤ n) :
    ∃ its, its.map Item.outline = x.items ∧ Poised n p.2 rest ⟨cur ++ its, ss⟩ := by
  rcases h with poised | poised
  · exact ⟨_, rfl, poised.mono hk⟩
  · exact ⟨_, rfl, poised.mono (waited_le hn)⟩

/-- A word was taken, so it has not been looked at often. -/
theorem Makes.poised_of_lt {p : Option ClosedNode × Recorder} {x : Outcome}
    (h : Makes 1 n ls cur ss p x rest) (hlt : rest.length < ls.length) :
    ∃ its, its.map Item.outline = x.items ∧ Poised 1 p.2 rest ⟨cur ++ its, ss⟩ := by
  rcases h with poised | poised
  · exact ⟨_, rfl, poised⟩
  · rw [waited_of_lt hlt] at poised
    exact ⟨_, rfl, poised⟩

/-- A rule keeps to the rules of expressions in front of fewer words than a bound. -/
def Keeps (expr : Nat → Rule) (bound : Nat) : Prop :=
  ∀ (power n : Nat) (r : Recorder) (ls : List Lexeme) (cur : List Item) (ss : List Scope),
    ls.length < bound → n ≤ 5 → Poised n r ls ⟨cur, ss⟩ →
      ∃ x rest, Reads (.expression power) ls x rest ∧ Makes 1 (n + 3) ls cur ss (expr power r) x rest

theorem poised_leaf (h : Poised n r (l :: ls) ⟨cur, ss⟩) (hn : n < patience) {token : SyntaxKind}
    (hl : l.kind = token) (node : SyntaxKind) : Poised 0 (leaf token node r).2 ls
      ⟨cur ++ [⟨some (leaf token node r).1.slot, .node node [.word l]⟩], ss⟩ :=
  (h.insist hn hl).begin.close node

theorem reads_negation {expr : Nat → Rule} (hexpr : Keeps expr bound) (hls : ls.length < bound)
    (hl : l.kind = minus) (h : Poised n r (l :: ls) ⟨cur, ss⟩) :
    ∃ o rest, Reads .operand (l :: ls) (.found o) rest ∧ Poised 0 (negation expr r).2 rest
      ⟨cur ++ [⟨some (negation expr r).1.slot, o⟩], ss⟩ := by
  obtain ⟨x, rest, hreads, hmakes⟩ := hexpr UnaryOperator.negate.power 0 r.start.2.take ls _ _ hls
    (Nat.zero_le _) h.begin
  obtain ⟨its, hits, hr⟩ := hmakes.poised (by omega) (by omega)
  refine ⟨_, rest, .negation hl hreads, ?_⟩
  have hclose := hr.close prefixExpr
  rw [List.map_append, hits] at hclose
  exact hclose

theorem reads_parenthesised {expr : Nat → Rule} (hexpr : Keeps expr bound) (hls : ls.length < bound)
    (hl : l.kind = lParen) (hn : n < patience) (h : Poised n r (l :: ls) ⟨cur, ss⟩) :
    ∃ o rest, Reads .operand (l :: ls) (.found o) rest ∧ Poised 0 (parenthesised expr r).2 rest
      ⟨cur ++ [⟨some (parenthesised expr r).1.slot, o⟩], ss⟩ := by
  obtain ⟨x, mid, hreads, hmakes⟩ := hexpr 0 0 (r.insist lParen).start.2.take ls _ _ hls
    (Nat.zero_le _) (h.insist hn hl).begin
  obtain ⟨its, hits, hr⟩ := hmakes.poised (by omega) (by omega)
  obtain ⟨its', hits', hr'⟩ := hr.expect (by decide) (Prod.eta (expectation rParen mid)).symm
  refine ⟨_, _, .parenthesised hl hreads (Prod.eta _).symm, ?_⟩
  rw [List.append_assoc] at hr'
  have hclose := hr'.close parenExpr
  rw [List.map_append, List.map_append, hits, hits'] at hclose
  exact hclose

/-- **An operand is recorded as it is read.** -/
theorem reads_operand {expr : Nat → Rule} (hexpr : Keeps expr bound) (hls : ls.length ≤ bound)
    (hn : n ≤ 5) (h : Poised n r ls ⟨cur, ss⟩) :
    ∃ x rest, Reads .operand ls x rest ∧ Makes 0 (n + 3) ls cur ss (operand expr r) x rest := by
  have hpeek := h.peek (show n < 8 by omega)
  rw [operand, h.peek_eq]
  rcases ls with _ | ⟨l, ls⟩
  · obtain ⟨its, hits, hr⟩ := hpeek.recover (show n + 1 + 1 < 8 by omega)
      (Prod.eta (recovery .expectedExpression expressionStops [])).symm
    exact ⟨_, _, .missing (by simp) (Prod.eta _).symm, hits ▸ .missed hr⟩
  · simp only [List.head?_cons, Option.map_some]
    split
    · next heq =>
      obtain ⟨hl, rfl⟩ := Prod.mk.inj heq
      have hl := Option.some.inj hl
      exact ⟨_, ls, .number hl, .found (poised_leaf hpeek (show n + 1 < 8 by omega) hl literal)⟩
    · next heq =>
      obtain ⟨hl, rfl⟩ := Prod.mk.inj heq
      have hl := Option.some.inj hl
      exact ⟨_, ls, .reference hl, .found (poised_leaf hpeek (show n + 1 < 8 by omega) hl nameRef)⟩
    · next heq =>
      obtain ⟨hl, rfl⟩ := Prod.mk.inj heq
      obtain ⟨o, rest, hreads, hr⟩ := reads_negation hexpr hls (Option.some.inj hl) hpeek
      exact ⟨_, rest, hreads, .found hr⟩
    · next heq =>
      obtain ⟨hl, rfl⟩ := Prod.mk.inj heq
      obtain ⟨o, rest, hreads, hr⟩ := reads_parenthesised hexpr hls (Option.some.inj hl)
        (show n + 1 < 8 by omega) hpeek
      exact ⟨_, rest, hreads, .found hr⟩
    · next hnumber hreference hnegation hparen heq =>
      obtain ⟨rfl, rfl⟩ := Prod.mk.inj heq
      have hnone : startsOperand l.kind = false := by
        refine Bool.eq_false_iff.mpr fun hs => ?_
        rcases startsOperand_iff.mp hs with hl | hl | hl | hl
        · exact hnumber (congrArg some hl)
        · exact hreference (congrArg some hl)
        · exact hnegation (congrArg some hl)
        · exact hparen (congrArg some hl)
      obtain ⟨its, hits, hr⟩ := hpeek.recover (show n + 1 + 1 < 8 by omega)
        (Prod.eta (recovery .expectedExpression expressionStops (l :: ls))).symm
      exact ⟨_, _, .missing (by simpa using hnone) (Prod.eta _).symm, hits ▸ .missed hr⟩

/-- **The operators behind an operand are recorded as they are read.** -/
theorem reads_operations {expr : Nat → Rule} (hexpr : Keeps expr bound) (power : Nat) :
    ∀ (fuel : Nat) {r : Recorder} {p : ClosedNode} {left : Outline} {ls : List Lexeme},
      ls.length < fuel → ls.length ≤ bound → Poised 0 r ls ⟨cur ++ [⟨some p.slot, left⟩], ss⟩ →
      ∃ o rest, Reads (.operations power left) ls (.found o) rest ∧
        Poised 1 (operations expr power fuel p r).2 rest
          ⟨cur ++ [⟨some (operations expr power fuel p r).1.slot, o⟩], ss⟩
  | 0, _, _, _, _, hfuel, _, _ => absurd hfuel (Nat.not_lt_zero _)
  | fuel + 1, r, p, left, ls, hfuel, hls, h => by
      have hpeek := h.peek (by decide)
      rw [operations, h.peek_eq]
      rcases ls with _ | ⟨l, ls⟩
      · exact ⟨left, [], .done (by simp), hpeek⟩
      · simp only [List.head?_cons, Option.map_some]
        rcases hop : BinaryOperator.ofKind? l.kind with _ | op
        · exact ⟨left, l :: ls, .done (by simp [hop]), hpeek⟩
        · by_cases hbinds : op.leftPower < power
          · simp only [if_pos hbinds]
            exact ⟨left, l :: ls, .done (by simp [hop, hbinds]), hpeek⟩
          · simp only [if_neg hbinds]
            -- the node takes its left operand and the operator, then reads its right operand
            obtain ⟨x, mid, hreads, hmakes⟩ := hexpr op.rightPower 0 _ ls _ _ hls (Nat.zero_le _)
              hpeek.enclose.take
            obtain ⟨its, hits, hr⟩ := hmakes.poised (by omega) (by omega)
            have hclose := hr.close binExpr
            rw [List.map_append, hits] at hclose
            have hmid := hreads.suffix.length_le
            simp only [List.length_cons] at hfuel hls
            obtain ⟨o, rest, hmore, hdone⟩ := reads_operations hexpr power fuel (p := ⟨_, binExpr⟩)
              (by omega : mid.length < fuel) (by omega) hclose
            exact ⟨o, rest, .operation hop (Nat.le_of_not_lt hbinds) hreads hmore, hdone⟩

/-- **An expression is recorded as it is read**, if there is more fuel than there are words. -/
theorem keeps_expressionWith : ∀ fuel : Nat, Keeps (expressionWith fuel) fuel
  | 0 => fun _ _ _ _ _ _ hls => absurd hls (Nat.not_lt_zero _)
  | fuel + 1 => by
      intro power n r ls cur ss hls hn h
      have hexpr := keeps_expressionWith fuel
      obtain ⟨x, mid, hreads, hmakes⟩ := reads_operand hexpr (Nat.le_of_lt_succ hls) hn h
      simp only [expressionWith]
      generalize operand (expressionWith fuel) r = p at hmakes
      rcases hmakes with poised | poised
      · have hmid := hreads.length_lt_of_found
        obtain ⟨o, rest, hmore, hdone⟩ := reads_operations hexpr power fuel (by omega) (by omega) poised
        exact ⟨_, rest, .present hreads hmore, .found hdone⟩
      · exact ⟨_, mid, .absent hreads, .missed poised⟩

theorem reads_expression (hn : n ≤ 5) (h : Poised n r ls ⟨cur, ss⟩) :
    ∃ x rest, Reads (.expression 0) ls x rest ∧ Makes 1 (n + 3) ls cur ss (expression r) x rest := by
  have hlength : r.stream.length = ls.length := by
    rw [TokenStream.length, h.builds.rest_eq, List.length_map]
  rw [expression, hlength]
  exact keeps_expressionWith _ 0 n r ls cur ss (Nat.lt_succ_self _) hn h

/-! ## Statements -/

theorem poised_definedName {os : List Outline} (h : Poised n r ls ⟨cur, ss⟩) (hn : n + 2 < patience)
    (hnamed : naming ls = (os, rest)) : ∃ its, its.map Item.outline = os ∧
      Poised (n + 3) (definedName r) rest ⟨cur ++ its, ss⟩ := by
  have hpeek := h.peek (by omega)
  rw [definedName]
  rcases ls with _ | ⟨l, ls⟩
  · rw [h.isAt_eq_nil]
    obtain ⟨its, hits, hr⟩ := hpeek.recover hn hnamed
    exact ⟨its, hits, hr.mono (waited_le (by omega))⟩
  · rw [h.isAt_eq]
    rw [naming] at hnamed
    split at hnamed
    · next hl =>
      obtain ⟨rfl, rfl⟩ := Prod.mk.inj hnamed
      rw [decide_eq_true hl]
      exact ⟨[⟨_, _⟩], rfl, (hpeek.begin.close name).mono (Nat.zero_le _)⟩
    · next hl =>
      rw [decide_eq_false hl]
      obtain ⟨its, hits, hr⟩ := hpeek.recover hn hnamed
      exact ⟨its, hits, hr.mono (waited_le (by omega))⟩

theorem reads_definition (h : Poised n r (l :: ls) ⟨cur, ss⟩) (hn : n < patience)
    (hl : l.kind = letKw) : ∃ ns ls₁ es ls₂ x rest its, naming ls = (ns, ls₁) ∧
      expectation eq ls₁ = (es, ls₂) ∧ Reads (.expression 0) ls₂ x rest ∧
      its.map Item.outline = [.node variableDef (.word l :: (ns ++ (es ++ x.items)))] ∧
      Poised 0 (definition r).2 rest ⟨cur ++ its, ss⟩ := by
  have hbegin := (h.insist hn hl).begin
  obtain ⟨its₁, hits₁, hr₁⟩ := poised_definedName hbegin (by decide) (Prod.eta (naming ls)).symm
  obtain ⟨its₂, hits₂, hr₂⟩ := hr₁.expect (by decide)
    (Prod.eta (expectation eq (naming ls).2)).symm
  obtain ⟨x, rest, hreads, hmakes⟩ := reads_expression (by decide) hr₂
  obtain ⟨its₃, hits₃, hr₃⟩ := hmakes.poised (by decide) (by decide)
  rw [List.append_assoc, List.append_assoc] at hr₃
  have hclose := hr₃.close variableDef
  refine ⟨_, _, _, _, x, rest, [⟨_, _⟩], (Prod.eta _).symm, (Prod.eta _).symm, hreads, ?_, hclose⟩
  simp [hits₁, hits₂, hits₃]

/-- One round of the loop over statements, in front of a token. -/
def round (r : Recorder) : Recorder :=
  match r.eat semi with
  | (true, r) => r
  | (false, r) =>
    match r.isAt rParen with
    | (true, r) => r.recover .unmatchedParen ∅
    | (false, r) => statement r

theorem statements_succ (fuel : Nat) (r : Recorder) : statements (fuel + 1) r =
    if r.isAtEnd.1 then r.isAtEnd.2 else statements fuel (round r.isAtEnd.2) := by
  rw [statements, round]
  rcases r.isAtEnd with ⟨_ | _, r⟩
  · dsimp only
    rcases r.eat semi with ⟨_ | _, r⟩
    · dsimp only
      rcases r.isAt rParen with ⟨_ | _, r⟩ <;> rfl
    · rfl
  · rfl

/-- **One round reads a separator or a statement**, or skips a parenthesis that closes nothing; in any
case it takes a word. -/
theorem reads_round {l : Lexeme} {ls : List Lexeme} (h : Poised 2 r (l :: ls) ⟨cur, ss⟩) :
    ∃ os its rest, rest.length ≤ ls.length ∧
      (∀ ps, ReadsFile rest ps → ReadsFile (l :: ls) (os ++ ps)) ∧ its.map Item.outline = os ∧
      Poised 1 (round r) rest ⟨cur ++ its, ss⟩ := by
  rw [round]
  by_cases hsemi : l.kind = semi
  · obtain ⟨r₁, heq, hr₁⟩ := h.eat (by decide) hsemi
    rw [heq]
    exact ⟨[.word l], [⟨none, .word l⟩], ls, Nat.le_refl _, fun _ => .separator hsemi, rfl,
      hr₁.mono (Nat.zero_le _)⟩
  obtain ⟨r₁, heq, hr₁⟩ := h.eat_of_ne (by decide) hsemi
  have hpeek₁ := hr₁.peek (by decide)
  rw [heq]
  simp only [hr₁.isAt_eq]
  by_cases hparen : l.kind = rParen
  · rw [decide_eq_true hparen]
    obtain ⟨its, hits, hr₂⟩ := hpeek₁.recover (by decide)
      (show recovery .unmatchedParen ∅ (l :: ls) = (_, ls) from rfl)
    rw [waited_of_lt (Nat.lt_succ_self _)] at hr₂
    exact ⟨_, its, ls, Nat.le_refl _, fun _ => .unmatched hparen, hits, hr₂⟩
  rw [decide_eq_false hparen]
  simp only [statement, hpeek₁.isAt_eq]
  have hpeek₂ := hpeek₁.peek (by decide)
  by_cases hlet : l.kind = letKw
  · rw [decide_eq_true hlet]
    obtain ⟨ns, ls₁, es, ls₂, x, rest, its, hnamed, heq, hvalue, hits, hr₂⟩ :=
      reads_definition hpeek₂ (by decide) hlet
    have hle := (((hvalue.suffix.trans (suffix_of_wordsAll (wordsAll_expectation heq))).trans
      (suffix_of_wordsAll (wordsAll_naming hnamed)))).length_le
    exact ⟨_, its, rest, hle, fun _ => .definition hlet hnamed heq hvalue, hits,
      hr₂.mono (Nat.zero_le _)⟩
  · rw [decide_eq_false hlet]
    have hl : expressionStops.contains l.kind = false :=
      Bool.eq_false_iff.mpr fun hs => by simp [expressionStops, hlet, hsemi, hparen] at hs
    obtain ⟨x, rest, hvalue, hmakes⟩ := reads_expression (by decide) hpeek₂
    have hle := (hvalue.suffix_tail hl).length_le
    obtain ⟨its, hits, hr₂⟩ := hmakes.poised_of_lt (Nat.lt_succ_of_le hle)
    exact ⟨_, its, rest, hle, fun _ => .expression hl hvalue, hits, hr₂⟩

/-- **Statements are recorded as they are read**, up to the end of the words. -/
theorem reads_statements : ∀ (fuel : Nat) {r : Recorder} {ls : List Lexeme} {cur : List Item},
    ls.length < fuel → Poised 1 r ls ⟨cur, ss⟩ →
    ∃ os its, ReadsFile ls os ∧ its.map Item.outline = os ∧
      Poised 2 (statements fuel r) [] ⟨cur ++ its, ss⟩
  | 0, _, _, _, hfuel, _ => absurd hfuel (Nat.not_lt_zero _)
  | fuel + 1, r, [], cur, _, h => by
      rw [statements_succ, h.isAtEnd_eq]
      exact ⟨[], [], .nil, rfl, by simpa using h.peek (by decide)⟩
  | fuel + 1, r, l :: ls, cur, hfuel, h => by
      obtain ⟨_, its, rest, hle, hround, rfl, hr⟩ := reads_round (h.peek (by decide))
      obtain ⟨_, its', hreads, rfl, hdone⟩ := reads_statements fuel
        (Nat.lt_of_le_of_lt hle (Nat.lt_of_succ_lt_succ hfuel)) hr
      rw [statements_succ, h.isAtEnd_eq]
      exact ⟨_, its ++ its', hround _ hreads, List.map_append, by simpa using hdone⟩

/-! ## Files -/

/-- **A file is recorded as it is read**: to the end, with every node closed. -/
theorem reads_file (h : Poised 1 r ls .empty) : ∃ os, ReadsFile ls os ∧
    Poised 0 (file r) [] ⟨[⟨some r.log.size, .node sourceFile os⟩], []⟩ := by
  have hlength : r.start.2.stream.length = ls.length := by
    rw [TokenStream.length, h.start.builds.rest_eq, List.length_map]
  obtain ⟨os, its, hreads, rfl, hr⟩ := reads_statements (r.start.2.stream.length + 1)
    (hlength ▸ Nat.lt_succ_self _) h.start
  exact ⟨_, hreads, hr.close sourceFile⟩

theorem poised_ofTokens (ls : List Lexeme) :
    Poised 1 (.ofTokens (ls.map Lexeme.token)) (Lexeme.significant ls) .empty :=
  ⟨builds_ofTokens ls, Nat.zero_le _, Nat.zero_le _⟩

end Grammar

end LosslessSyntax
