import LosslessSyntax.SyntaxError
import LosslessSyntax.Text.Quoted
import Mathlib.Data.List.Forall2
import Mathlib.Data.List.TakeWhile

/-!
# Proofs/Text/Unambiguous — what is written can be taken apart

Numbers, ranges and locations are written in characters that cannot be part of what comes next, and text
between quotes ends at the first quote that is not escaped.  So each of them is read off the front of some
characters in one way only; in none of them is there a line feed.
-/

namespace LosslessSyntax

namespace Text

/-- **A run ends where something of another sort begins**, so it can be told from what comes next. -/
theorem run_append_inj {α : Type} {p : α → Bool} {xs ys rs ss : List α}
    (hxs : ∀ x ∈ xs, p x = true) (hys : ∀ y ∈ ys, p y = true) (hrs : ∀ r ∈ rs.head?, p r = false)
    (hss : ∀ s ∈ ss.head?, p s = false) (h : xs ++ rs = ys ++ ss) : xs = ys ∧ rs = ss := by
  have run : ∀ {zs ts : List α}, (∀ z ∈ zs, p z = true) → (∀ t ∈ ts.head?, p t = false) →
      (zs ++ ts).takeWhile p = zs := by
    intro zs ts hzs hts
    rw [List.takeWhile_append_of_pos hzs]
    cases ts with
    | nil => rw [List.takeWhile_nil, List.append_nil]
    | cons t ts => rw [List.takeWhile_cons_of_neg (by simp [hts t rfl]), List.append_nil]
  obtain rfl : xs = ys := by rw [← run hxs hrs, h, run hys hss]
  exact ⟨rfl, List.append_cancel_left h⟩

/-! ## Numbers -/

theorem digitChar_inj {d e : Nat} (hd : d < 16) (he : e < 16) (h : d.digitChar = e.digitChar) :
    d = e := by
  have hall : ∀ d < 16, ∀ e < 16, Nat.digitChar d = Nat.digitChar e → d = e := by decide
  exact hall d hd e he h

variable {base m n : Nat}

/-- **Numbers are told apart by their digits.** -/
theorem toDigits_inj (hbase : 1 < base) (hbase' : base ≤ 16)
    (h : Nat.toDigits base m = Nat.toDigits base n) : m = n := by
  induction m using Nat.strongRecOn generalizing n with
  | ind m ih =>
    have hm := Nat.toDigits_eq_if (n := m) hbase
    have hn := Nat.toDigits_eq_if (n := n) hbase
    -- a number of one digit is not a number of more digits
    have hne : ∀ {k d e : Nat}, [d.digitChar] ≠ Nat.toDigits base k ++ [e.digitChar] := by
      intro k d e he
      have hlength := congrArg List.length he
      have hpos := List.length_pos_iff.mpr (Nat.toDigits_ne_nil (n := k) (b := base))
      rw [List.length_append, List.length_singleton, List.length_singleton] at hlength
      omega
    rw [h, hn] at hm
    split at hm <;> split at hm
    · next hlt hlt' => exact (digitChar_inj (by omega) (by omega) (List.cons.inj hm).1).symm
    · exact absurd hm hne
    · exact absurd hm.symm hne
    · next hle hle' =>
      obtain ⟨hquot, hlast⟩ := List.append_inj' hm rfl
      have hmod (k : Nat) : k % base < 16 := Nat.lt_of_lt_of_le (Nat.mod_lt k (by omega)) hbase'
      have hquot := ih (m / base) (Nat.div_lt_self (by omega) hbase) hquot.symm
      have hrem := digitChar_inj (hmod n) (hmod m) (List.cons.inj hlast).1
      rw [← Nat.div_add_mod m base, ← Nat.div_add_mod n base, hquot, hrem]

theorem exists_digit_of_mem_toDigits (hbase : 1 < base) {c : Char} (h : c ∈ Nat.toDigits base n) :
    ∃ d < base, c = d.digitChar := by
  induction n using Nat.strongRecOn with
  | ind n ih =>
    rw [Nat.toDigits_eq_if hbase] at h
    split at h
    · next hlt => exact ⟨n, hlt, List.mem_singleton.mp h⟩
    · rcases List.mem_append.mp h with h | h
      · exact ih (n / base) (Nat.div_lt_self (by omega) hbase) h
      · exact ⟨n % base, Nat.mod_lt n (by omega), List.mem_singleton.mp h⟩

theorem isDigit_of_mem_toDigits {c : Char} (h : c ∈ Nat.toDigits 10 n) : c.isDigit = true :=
  Nat.isDigit_of_mem_toDigits (by decide) (by decide) h

/-- **A number ends where there is no digit.** -/
theorem number_append_inj {rs ss : List Char} (hrs : ∀ r ∈ rs.head?, r.isDigit = false)
    (hss : ∀ s ∈ ss.head?, s.isDigit = false)
    (h : Nat.toDigits 10 m ++ rs = Nat.toDigits 10 n ++ ss) : m = n ∧ rs = ss := by
  obtain ⟨hdigits, hrest⟩ := run_append_inj (fun _ => isDigit_of_mem_toDigits)
    (fun _ => isDigit_of_mem_toDigits) hrs hss h
  exact ⟨toDigits_inj (by decide) (by decide) hdigits, hrest⟩

/-! ## Text between quotes -/

namespace Quoted

/-- The characters that are written as a backslash and a letter. -/
def letters : List (Char × Char) :=
  [('\x00', '0'), ('\t', 't'), ('\n', 'n'), ('\r', 'r'), ('"', '"'), ('\\', '\\')]

/-- The ways to write a character between quotes. -/
inductive Escapes : Char → List Char → Prop
  | plain {c : Char} (quote : c ≠ '"') (slash : c ≠ '\\') (line : c ≠ '\n') : Escapes c [c]
  | letter {c l : Char} (mem : (c, l) ∈ letters) : Escapes c ['\\', l]
  | point {c : Char} : Escapes c ('\\' :: 'u' :: '{' :: (hex c.toNat ++ ['}']))

theorem escapes_escape (c : Char) : Escapes c (escape c) := by
  unfold escape
  split_ifs with hnull htab hline hreturn hquote hslash
  any_goals exact .letter (by simp [letters, *])
  · exact .point
  · exact .plain hquote hslash hline

theorem hex_append_inj {rs ss : List Char}
    (h : hex m ++ '}' :: rs = hex n ++ '}' :: ss) : m = n ∧ rs = ss := by
  have hdigit : ∀ {k : Nat}, ∀ c ∈ hex k, (c != '}') = true := by
    intro k c hc
    obtain ⟨d, hd, rfl⟩ := exists_digit_of_mem_toDigits (by decide) hc
    have hall : ∀ d < 16, (Nat.digitChar d != '}') = true := by decide
    exact hall d hd
  obtain ⟨hdigits, hrest⟩ := run_append_inj hdigit hdigit (by simp) (by simp) h
  exact ⟨toDigits_inj (by decide) (by decide) hdigits, (List.cons.inj hrest).2⟩

variable {c d : Char} {w v rs ss : List Char}

/-- **A character is read off in one way only**, escaped or not. -/
theorem Escapes.append_inj (h : Escapes c w) (h' : Escapes d v) (heq : w ++ rs = v ++ ss) :
    c = d ∧ rs = ss := by
  have hletters : ∀ p ∈ letters, p.2 ≠ 'u' ∧ ∀ q ∈ letters, p.2 = q.2 → p.1 = q.1 := by decide
  cases h with
  | plain quote slash =>
    cases h' with
    | plain => exact List.cons.inj heq
    | letter | point => exact absurd (List.cons.inj heq).1 slash
  | letter mem =>
    cases h' with
    | plain quote slash => exact absurd (List.cons.inj heq).1.symm slash
    | letter mem' =>
      obtain ⟨hletter, hrest⟩ := List.cons.inj (List.cons.inj heq).2
      exact ⟨(hletters _ mem).2 _ mem' hletter, hrest⟩
    | point => exact absurd (List.cons.inj (List.cons.inj heq).2).1 (hletters _ mem).1
  | point =>
    cases h' with
    | plain quote slash => exact absurd (List.cons.inj heq).1.symm slash
    | letter mem => exact absurd (List.cons.inj (List.cons.inj heq).2).1.symm (hletters _ mem).1
    | point =>
      simp only [List.cons_append, List.append_assoc, List.nil_append, List.cons.injEq,
        true_and] at heq
      obtain ⟨hpoint, hrest⟩ := hex_append_inj heq
      exact ⟨Char.toNat_inj.mp hpoint, hrest⟩

/-- No character is written in a way that begins with a quote. -/
theorem Escapes.exists_first (h : Escapes c w) : ∃ l ls, w = l :: ls ∧ l ≠ '"' := by
  cases h with
  | plain quote => exact ⟨_, _, rfl, quote⟩
  | letter | point => exact ⟨_, _, rfl, by decide⟩

/-- **Quoted text ends at its quote.** -/
theorem encode_append_inj {cs ds : List Char}
    (h : encode cs ++ '"' :: rs = encode ds ++ '"' :: ss) : cs = ds ∧ rs = ss := by
  induction cs generalizing ds with
  | nil =>
    cases ds with
    | nil => exact ⟨rfl, (List.cons.inj h).2⟩
    | cons d ds =>
      obtain ⟨l, ls, hl, hne⟩ := (escapes_escape d).exists_first
      rw [encode_cons, hl] at h
      exact absurd (List.cons.inj h).1.symm hne
  | cons c cs ih =>
    cases ds with
    | nil =>
      obtain ⟨l, ls, hl, hne⟩ := (escapes_escape c).exists_first
      rw [encode_cons, hl] at h
      exact absurd (List.cons.inj h).1 hne
    | cons d ds =>
      rw [encode_cons, encode_cons, List.append_assoc, List.append_assoc] at h
      obtain ⟨rfl, hrest⟩ := (escapes_escape c).append_inj (escapes_escape d) h
      obtain ⟨rfl, hend⟩ := ih hrest
      exact ⟨rfl, hend⟩

/-- **Texts are told apart by how they are quoted.** -/
theorem quote_inj {s t : String} (h : quote s = quote t) : s = t := by
  have h := congrArg String.toList h
  rw [toList_quote, toList_quote] at h
  exact String.toList_inj.mp (encode_append_inj (List.cons.inj h).2).1

theorem Escapes.lineFeed_notMem (h : Escapes c w) : '\n' ∉ w := by
  cases h with
  | plain quote slash line => simpa using line.symm
  | letter mem =>
    have hall : ∀ p ∈ letters, '\n' ∉ ['\\', p.2] := by decide
    exact hall _ mem
  | point =>
    have hall : ∀ d < 16, Nat.digitChar d ≠ '\n' := by decide
    have hhex : '\n' ∉ hex c.toNat := fun hmem => by
      obtain ⟨d, hd, heq⟩ := exists_digit_of_mem_toDigits (by decide) hmem
      exact hall d hd heq.symm
    simpa using hhex

/-- **Quoted text stays on one line.** -/
theorem lineFeed_notMem_quote (s : String) : '\n' ∉ (quote s).toList := by
  have hencode : '\n' ∉ encode s.toList := fun h => by
    obtain ⟨c, -, hc⟩ := List.mem_flatMap.mp h
    exact (escapes_escape c).lineFeed_notMem hc
  simpa using hencode

end Quoted

end Text

open Text (number_append_inj isDigit_of_mem_toDigits)

/-! ## Ranges and locations -/

theorem TextRange.toList_render (r : TextRange) :
    r.render.toList = Nat.toDigits 10 r.start ++ '.' :: '.' :: Nat.toDigits 10 r.stop := by
  simp [render, toString, Nat.toList_repr]

theorem TextRange.isDigit_of_mem_render {r : TextRange} {c : Char} (h : c ∈ r.render.toList) :
    c.isDigit = true ∨ c = '.' := by
  rw [toList_render, List.mem_append, List.mem_cons, List.mem_cons] at h
  rcases h with h | rfl | rfl | h
  · exact .inl (isDigit_of_mem_toDigits h)
  · exact .inr rfl
  · exact .inr rfl
  · exact .inl (isDigit_of_mem_toDigits h)

/-- **A range ends where there is no digit.** -/
theorem TextRange.render_append_inj {r s : TextRange} {rs ss : List Char}
    (hrs : ∀ c ∈ rs.head?, c.isDigit = false) (hss : ∀ c ∈ ss.head?, c.isDigit = false)
    (h : r.render.toList ++ rs = s.render.toList ++ ss) : r = s ∧ rs = ss := by
  rw [toList_render, toList_render] at h
  simp only [List.append_assoc, List.cons_append] at h
  obtain ⟨hstart, htail⟩ := number_append_inj (by simp) (by simp) h
  obtain ⟨hstop, hrest⟩ := number_append_inj hrs hss (List.cons.inj (List.cons.inj htail).2).2
  obtain ⟨a, b⟩ := r
  obtain ⟨c, d⟩ := s
  obtain rfl : a = c := hstart
  obtain rfl : b = d := hstop
  exact ⟨rfl, hrest⟩

namespace Location

theorem toList_render_offset (n : Nat) :
    (offset n).render.toList = Nat.toDigits 10 n := Nat.toList_repr

/-- **A location ends at the colon.** -/
theorem render_append_inj {a b : Location} {rs ss : List Char}
    (h : a.render.toList ++ ':' :: rs = b.render.toList ++ ':' :: ss) : a = b ∧ rs = ss := by
  -- behind the first number there is a colon or a dot
  have apart : ∀ {n : Nat} {r : TextRange} {rs ss : List Char},
      (offset n).render.toList ++ ':' :: rs ≠ (range r).render.toList ++ ':' :: ss := by
    intro n r rs ss he
    rw [toList_render_offset, render, TextRange.toList_render, List.append_assoc] at he
    obtain ⟨-, hrest⟩ := number_append_inj (by simp) (by simp) he
    exact absurd (List.cons.inj hrest).1 (by decide)
  cases a with
  | offset m =>
    cases b with
    | offset n =>
      rw [toList_render_offset, toList_render_offset] at h
      obtain ⟨rfl, hrest⟩ := number_append_inj (by simp) (by simp) h
      exact ⟨rfl, (List.cons.inj hrest).2⟩
    | range s => exact absurd h apart
  | range r =>
    cases b with
    | offset n => exact absurd h.symm apart
    | range s =>
      obtain ⟨rfl, hrest⟩ := TextRange.render_append_inj (by simp) (by simp) h
      exact ⟨rfl, (List.cons.inj hrest).2⟩

end Location

/-! ## Reports -/

namespace SyntaxError

theorem toList_line (e : SyntaxError) : e.line.toList =
    "error ".toList ++ (e.location.render.toList ++ ':' :: ' ' :: e.message.toList) := by
  simp [line, toString]

/-- The report of an error is one line if its wording is. -/
theorem lineFeed_notMem_line {e : SyntaxError} (h : '\n' ∉ e.message.toList) :
    '\n' ∉ e.line.toList := by
  have hlocation : '\n' ∉ e.location.render.toList := by
    cases hl : e.location with
    | offset n =>
      rw [Location.toList_render_offset]
      exact fun hmem => absurd (isDigit_of_mem_toDigits hmem) (by decide)
    | range r => exact fun hmem => absurd (TextRange.isDigit_of_mem_render hmem) (by decide)
  rw [toList_line]
  simp [hlocation, h]

/-- **The line of an error says where it is and what is wrong**, and nothing else. -/
theorem line_eq_iff {e f : SyntaxError} :
    e.line = f.line ↔ (e.location, e.message) = (f.location, f.message) := by
  rw [Prod.mk.injEq]
  constructor
  · intro h
    have h := congrArg String.toList h
    rw [toList_line, toList_line] at h
    obtain ⟨hlocation, hmessage⟩ :=
      Location.render_append_inj (List.append_cancel_left h)
    exact ⟨hlocation, String.toList_inj.mp (List.cons.inj hmessage).2⟩
  · rintro ⟨hlocation, hmessage⟩
    rw [line, line, hlocation, hmessage]

theorem map_line_eq_iff {es fs : List SyntaxError} : es.map line = fs.map line ↔
    es.map (fun e => (e.location, e.message)) = fs.map fun f => (f.location, f.message) := by
  simp only [← List.forall₂_eq_eq_eq, List.forall₂_map_left_iff, List.forall₂_map_right_iff,
    line_eq_iff]

end SyntaxError

end LosslessSyntax
