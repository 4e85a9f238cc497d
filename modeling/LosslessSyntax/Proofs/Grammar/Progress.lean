import LosslessSyntax.Proofs.Parse.Lossless

/-!
# Proofs/Grammar/Progress — the grammar neither stops nor hesitates

A file is recorded round by round, and each round takes a token, whatever it finds: so the rounds come to
an end, and it is the end of the text (`Loops`).  Between two steps forward the next token is looked at a
few times only, however deeply rules are nested: every rule that gives up at a token closes a node on its
way out, which counts as a step forward.  So no text makes the recorder believe that it is stuck
(`Parse.neverStuck`).
-/

namespace LosslessSyntax

open Lexeme (significant tokenize)
open Recorder

namespace Grammar

variable {n fuel : Nat} {r s : Recorder} {ls : List Lexeme} {cur : List Item} {ss : List Scope}

/-- **The loop over statements runs** so many rounds from one recorder to another, which has come to the
end of the text.  Each round takes at least one token. -/
inductive Loops : Nat → Recorder → Recorder → Prop
  | stop {r : Recorder} (atEnd : r.isAtEnd.1 = true) : Loops 0 r r.isAtEnd.2
  | next {n : Nat} {r s : Recorder} (inside : r.isAtEnd.1 = false)
      (takes : (round r.isAtEnd.2).stream.length < r.stream.length)
      (more : Loops n (round r.isAtEnd.2) s) : Loops (n + 1) r s

/-- The loop runs no longer than there are tokens. -/
theorem Loops.le_length (h : Loops n r s) : n ≤ r.stream.length := by
  induction h with
  | stop => exact Nat.zero_le _
  | next _ takes _ ih => exact Nat.lt_of_le_of_lt ih takes

/-- It ends at the end of the text. -/
theorem Loops.rest_eq_nil (h : Loops n r s) : s.stream.rest = [] := by
  induction h with
  | @stop r atEnd =>
    change r.stream.next?.isNone = true at atEnd
    change r.stream.rest = []
    simpa [TokenStream.next?] using atEnd
  | next _ _ _ ih => exact ih

/-- **Any fuel that is enough for the rounds gives the same**: the fuel is never used up. -/
theorem Loops.statements_eq (h : Loops n r s) (hfuel : n < fuel) : statements fuel r = s := by
  induction h generalizing fuel with
  | stop atEnd =>
    obtain ⟨fuel, rfl⟩ := Nat.exists_eq_add_one_of_ne_zero (Nat.ne_zero_of_lt hfuel)
    rw [statements_succ, if_pos atEnd]
  | next inside _ _ ih =>
    obtain ⟨fuel, rfl⟩ := Nat.exists_eq_add_one_of_ne_zero (Nat.ne_zero_of_lt hfuel)
    rw [statements_succ, if_neg (by simp [inside]), ih (Nat.lt_of_succ_lt_succ hfuel)]

theorem length_stream (h : Poised n r ls ⟨cur, ss⟩) : r.stream.length = ls.length := by
  rw [TokenStream.length, h.builds.rest_eq, List.length_map]

/-- **The loop runs** from every recorder that is poised in front of words. -/
theorem exists_loops {ls : List Lexeme} (h : Poised 1 r ls ⟨cur, ss⟩) : ∃ n s, Loops n r s := by
  induction hn : ls.length using Nat.strongRecOn generalizing ls r cur with
  | ind k ih =>
    cases ls with
    | nil => exact ⟨0, _, .stop (by rw [h.isAtEnd_eq]; rfl)⟩
    | cons l ls =>
      have hpeek := h.peek (by decide)
      obtain ⟨_, _, rest, hle, -, -, hr⟩ := reads_round hpeek
      have hlt : rest.length < k := hn ▸ Nat.lt_succ_of_le hle
      obtain ⟨n, s, more⟩ := ih _ hlt hr rfl
      have hround : round r.isAtEnd.2 = round r.peek.2 := by rw [h.isAtEnd_eq]
      refine ⟨n + 1, s, .next (by rw [h.isAtEnd_eq]; rfl) ?_ (hround ▸ more)⟩
      rw [hround, length_stream hr, length_stream h]
      exact Nat.lt_succ_of_le hle

end Grammar

namespace Parse

open Grammar

/-- **The grammar never gets stuck.**  While a text of any length and depth is recorded, the next token is
looked at no more than eight times before it is taken or a node is closed, so the recorder never fails,
let alone for being stuck.  The loop over statements takes a token in every round; it runs no more rounds
than there are tokens, to the end of the text, and what it records is the record of the file. -/
theorem neverStuck (text : String) :
    let start := (Recorder.ofTokens ((tokenize text).map Lexeme.token)).start
    (recording (tokenize text)).longest ≤ 8 ∧
      (recording (tokenize text)).failure? ≠ some .stuck ∧
      ∃ n s, Loops n start.2 s ∧ n ≤ (significant (tokenize text)).length ∧ s.stream.rest = [] ∧
        recording (tokenize text) = (s.close start.1 .sourceFile).2 := by
  intro start
  have hpoised := poised_ofTokens (tokenize text)
  obtain ⟨os, -, hfile⟩ := reads_file hpoised
  obtain ⟨n, s, hloops⟩ := exists_loops hpoised.start
  have hlength := length_stream hpoised.start
  have hle : n ≤ start.2.stream.length := hloops.le_length
  refine ⟨hfile.longest, ?_, n, s, hloops, hlength ▸ hle, hloops.rest_eq_nil, ?_⟩
  · have hfail : (recording (tokenize text)).failure? = none :=
      Recorder.failure?_eq_none hfile.builds.misuse (Nat.le_trans hfile.longest (by decide))
    simp [hfail]
  · rw [recording, file]
    exact congrArg (fun s => (Recorder.close s start.1 .sourceFile).2)
      (hloops.statements_eq (Nat.lt_succ_of_le hle))

/-- A token behind an expression that begins no statement is looked at as often as that. -/
example : (recording (tokenize "1 =")).longest = 8 := by decide +kernel

end Parse

end LosslessSyntax
