import LosslessSyntax.Proofs.Lexeme.Number
import Mathlib.Data.List.Chain

/-!
# Proofs/Lexeme/Spelling — lexemes laid end to end

Lexemes that are spelled one behind the other are not always what their spelling is cut into: two
identifiers become one, and a slash may open a comment.  They are if each lexeme is cut off its own text
as a whole, and if none of them would go on with the first character of the next
(`KeepApart.tokenize_spell`).
-/

namespace LosslessSyntax.Lexeme

open SyntaxKind

/-! ## One lexeme in front of others -/

/-- Whether a lexeme of a kind might go on with a character. -/
def goesOn : SyntaxKind → Char → Bool
  | whitespace, c => isWhitespace c
  | ident, c | letKw, c => isIdentContinue c
  | intNumber, c => isNumberContinue c
  | slash, c => c == '/' || c == '*'
  | comment, _ => true
  | _, _ => false

/-- **A lexeme is cut off its own text as a whole.** -/
def IsAlone (l : Lexeme) : Prop := ∃ c cs, l.text.toList = c :: cs ∧ scan c cs = ⟨l.kind, cs, []⟩

/-- A lexeme does not go on with the first character of another. -/
def Apart (l m : Lexeme) : Prop := ∀ c ∈ m.text.toList.head?, goesOn l.kind c = false

theorem goesOn_wordKind (w : List Char) (c : Char) : goesOn (wordKind w) c = isIdentContinue c := by
  unfold wordKind ofKeyword?
  split <;> rfl

theorem run_append {kind k : SyntaxKind} {p : Char → Bool} {cs rest : List Char}
    (h : Scan.run kind p cs = ⟨k, cs, []⟩) (hrest : ∀ d ∈ rest.head?, p d = false) :
    Scan.run kind p (cs ++ rest) = ⟨k, cs, rest⟩ := by
  obtain ⟨rfl, htake, -⟩ := Scan.mk.inj h
  have hcs := List.takeWhile_eq_self_iff.mp htake
  have hstop : rest.takeWhile p = [] ∧ rest.dropWhile p = rest := by
    cases rest with
    | nil => exact ⟨rfl, rfl⟩
    | cons d rest => simp [hrest d rfl]
  rw [Scan.run, List.takeWhile_append_of_pos hcs, List.dropWhile_append_of_pos hcs, hstop.1, hstop.2,
    List.append_nil]

theorem scanLetters_append {c : Char} {cs rest : List Char} {k : SyntaxKind}
    (h : scanLetters c cs = ⟨k, cs, []⟩) (hrest : ∀ d ∈ rest.head?, goesOn k d = false) :
    scanLetters c (cs ++ rest) = ⟨k, cs, rest⟩ := by
  have htake : cs.takeWhile isIdentContinue = cs := congrArg Scan.tail h
  obtain rfl := congrArg Scan.kind h
  have happ := run_append h fun d hd => (goesOn_wordKind _ d).symm.trans (hrest d hd)
  have htake' : (cs ++ rest).takeWhile isIdentContinue = cs := congrArg Scan.tail happ
  rw [htake] at happ
  rw [scanLetters, htake']
  exact happ

theorem splitComment?_eq_none {c : Char} {cs : List Char} (h : goesOn slash c = false) :
    splitComment? (c :: cs) = none := by
  unfold splitComment?
  split
  · next heq => exact absurd h (by simp [(List.cons.inj heq).1, goesOn])
  · next heq => exact absurd h (by simp [(List.cons.inj heq).1, goesOn])
  · rfl

/-- A slash that stands alone opens no comment; a comment goes on with anything. -/
theorem scanSlash_append {cs rest : List Char} {k : SyntaxKind} (h : scanSlash cs = ⟨k, cs, []⟩)
    (hrest : ∀ d ∈ rest.head?, goesOn k d = false) : scanSlash (cs ++ rest) = ⟨k, cs, rest⟩ := by
  cases rest with
  | nil => rwa [List.append_nil]
  | cons d rest =>
    have hd := hrest d rfl
    rw [scanSlash] at h
    split at h
    · obtain ⟨rfl, -, -⟩ := Scan.mk.inj h
      exact absurd hd (by simp [goesOn])
    · obtain ⟨rfl, rfl, -⟩ := Scan.mk.inj h
      rw [scanSlash, List.nil_append, splitComment?_eq_none hd]

/-- **A lexeme is cut off in front of any character with which it does not go on.** -/
theorem scan_append_of_alone {c : Char} {cs rest : List Char} {k : SyntaxKind}
    (h : scan c cs = ⟨k, cs, []⟩) (hrest : ∀ d ∈ rest.head?, goesOn k d = false) :
    scan c (cs ++ rest) = ⟨k, cs, rest⟩ := by
  rcases scan_cases c with hc | hc | hc | ⟨-, hc⟩ | hc <;> rw [hc] at h ⊢
  · obtain rfl : whitespace = k := congrArg Scan.kind h
    exact run_append h hrest
  · exact scanSlash_append h hrest
  · exact scanLetters_append h hrest
  · obtain rfl : intNumber = k := congrArg Scan.kind h
    exact run_append h hrest
  · obtain ⟨rfl, rfl, -⟩ := Scan.mk.inj h
    rfl

/-! ## Lexemes in front of one another -/

/-- **Lexemes keep apart**: each stands alone and does not go on with the next. -/
structure KeepApart (ls : List Lexeme) : Prop where
  alone : ∀ l ∈ ls, l.IsAlone
  chain : ls.IsChain Apart

namespace KeepApart

variable {l : Lexeme} {ls ms : List Lexeme}

theorem nil : KeepApart [] := ⟨List.forall_mem_nil _, .nil⟩

theorem cons (hl : l.IsAlone) (hapart : ∀ m ∈ ls.head?, Apart l m) (h : KeepApart ls) :
    KeepApart (l :: ls) :=
  ⟨List.forall_mem_cons.mpr ⟨hl, h.alone⟩, List.isChain_cons.mpr ⟨hapart, h.chain⟩⟩

theorem tail (h : KeepApart (l :: ls)) : KeepApart ls :=
  ⟨fun m hm => h.alone m (List.mem_cons_of_mem _ hm), (List.isChain_cons.mp h.chain).2⟩

theorem append (h : KeepApart ls) (h' : KeepApart ms)
    (hapart : ∀ l ∈ ls.getLast?, ∀ m ∈ ms.head?, Apart l m) : KeepApart (ls ++ ms) :=
  ⟨List.forall_mem_append.mpr ⟨h.alone, h'.alone⟩,
    List.isChain_append.mpr ⟨h.chain, h'.chain, hapart⟩⟩

/-- A spelling begins as the first lexeme does. -/
theorem head?_spell (h : KeepApart ls) {d : Char} (hd : d ∈ (spell ls).toList.head?) :
    ∃ m ∈ ls.head?, d ∈ m.text.toList.head? := by
  cases ls with
  | nil => exact absurd hd (by simp)
  | cons m ms =>
    obtain ⟨c, cs, hm, -⟩ := h.alone m List.mem_cons_self
    refine ⟨m, rfl, ?_⟩
    rw [spell_cons, String.toList_append, hm] at hd
    rwa [hm]

/-- **Lexemes that keep apart are what their spelling is cut into.** -/
theorem tokenize_spell (h : KeepApart ls) : tokenize (spell ls) = ls := by
  induction ls with
  | nil => simp [tokenize]
  | cons l ls ih =>
    obtain ⟨c, cs, hl, hscan⟩ := h.alone l List.mem_cons_self
    have hcut : scan c (cs ++ (spell ls).toList) = ⟨l.kind, cs, (spell ls).toList⟩ := by
      refine scan_append_of_alone hscan fun d hd => ?_
      obtain ⟨m, hm, hd⟩ := h.tail.head?_spell hd
      exact (List.isChain_cons.mp h.chain).1 m hm d hd
    have hword : ofWord (l.kind, c :: cs) = l := by rw [ofWord, ← hl, String.ofList_toList]
    have ih := ih h.tail
    rw [tokenize] at ih
    rw [tokenize, spell_cons, String.toList_append, hl, List.cons_append, words_cons, hcut,
      List.map_cons, hword, ih]

end KeepApart

/-! ## Lexemes that stand alone -/

theorem run_of_forall {p : Char → Bool} {cs : List Char} (h : ∀ d ∈ cs, p d = true) (kind : SyntaxKind) :
    Scan.run kind p cs = ⟨kind, cs, []⟩ := by
  rw [Scan.run, List.takeWhile_eq_self_iff.mpr h, List.dropWhile_eq_nil_iff.mpr h]

theorem ofChar?_ne_ident (c : Char) : (ofChar? c).getD .error ≠ ident := by
  unfold ofChar?
  split <;> simp

/-- An identifier takes all that it may go on with. -/
theorem scan_of_ident {c : Char} {cs : List Char} (h : (scan c cs).kind = ident) :
    scan c (scan c cs).tail = ⟨ident, (scan c cs).tail, []⟩ := by
  rcases scan_cases c with hc | hc | hc | ⟨-, hc⟩ | hc <;> rw [hc] at h ⊢
  · exact absurd h (by simp [Scan.run])
  · exact absurd h (by cases hcomment : splitComment? cs <;> simp [scanSlash, hcomment])
  · have htail : ∀ d ∈ (scanLetters c cs).tail, isIdentContinue d = true :=
      fun _ => List.mem_takeWhile_imp
    have hkind : wordKind (c :: (scanLetters c cs).tail) = ident := h
    generalize (scanLetters c cs).tail = ds at htail hkind
    rw [scanLetters, List.takeWhile_eq_self_iff.mpr htail, run_of_forall htail, hkind]
  · exact absurd h (by simp [Scan.run])
  · exact absurd h (ofChar?_ne_ident c)

/-- An identifier of a text stands alone. -/
theorem isAlone_of_ident {text : String} {l : Lexeme} (h : l ∈ tokenize text) (hl : l.kind = ident) :
    l.IsAlone := by
  obtain ⟨c, ds, rfl⟩ := exists_scan_of_mem_tokenize h
  refine ⟨c, (scan c ds).tail, String.toList_ofList, ?_⟩
  rw [hl]
  exact scan_of_ident hl

theorem not_isIdentStart_of_isDigit {c : Char} (h : c.isDigit = true) :
    isWhitespace c = false ∧ c ≠ '/' ∧ isIdentStart c = false := by
  have hall : ∀ k < 10, isWhitespace (Char.ofNat (48 + k)) = false ∧ Char.ofNat (48 + k) ≠ '/' ∧
      isIdentStart (Char.ofNat (48 + k)) = false := by decide
  obtain ⟨hle, hge⟩ : 48 ≤ c.toNat ∧ c.toNat ≤ 57 := Char.isDigit_iff_toNat.mp h
  have hc := hall (c.toNat - 48) (by omega)
  rwa [Nat.add_sub_cancel' hle, Char.ofNat_toNat] at hc

/-- A number in writing stands alone. -/
theorem isAlone_number (n : Nat) : IsAlone ⟨intNumber, Text.Integer.render n⟩ := by
  obtain ⟨d, ds, hsplit, hds⟩ := Text.Integer.exists_digits_render n
  obtain ⟨hspace, hslash, hident⟩ :=
    not_isIdentStart_of_isDigit (hds d List.mem_cons_self)
  have hdigit : isDecDigit d = true := hds d List.mem_cons_self
  refine ⟨d, ds, hsplit, ?_⟩
  rw [scan, if_neg (by simp [hspace]), if_neg hslash, if_neg (by simp [hident]), if_pos hdigit]
  refine run_of_forall (fun e he => ?_) intNumber
  rw [isNumberContinue, isDecDigit, hds e (List.mem_cons_of_mem _ he), Bool.true_or]

end LosslessSyntax.Lexeme
