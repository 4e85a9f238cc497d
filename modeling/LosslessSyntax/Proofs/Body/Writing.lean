import LosslessSyntax.Proofs.Body.Term
import LosslessSyntax.Proofs.Lexeme.Spelling
import LosslessSyntax.Proofs.Tree.Shape

/-!
# Proofs/Body/Writing — the lexemes of what is written

The written form of a term is the spelling of lexemes (`Term.writing`), and so are the lines of
sentences.  If the term is legible (`Term.Legible`), these lexemes keep apart: operators stand between
spaces, and a number or a name is followed by a space, a parenthesis or the end of the line.  So cutting
the written form into lexemes gives them back.  A legible term in which nothing is missing can be read
again (`Term.Readable`).
-/

namespace LosslessSyntax

open SyntaxKind (plus minus star slash lParen letKw intNumber ident whitespace)

/-! ## Words -/

/-- The token that stands for an operator. -/
def BinaryOperator.kind : BinaryOperator → SyntaxKind
  | add => plus
  | subtract => minus
  | multiply => star
  | divide => slash

@[simp] theorem BinaryOperator.ofKind?_kind (op : BinaryOperator) : ofKind? op.kind = some op := by
  cases op <;> rfl

namespace Lexeme

def space : Lexeme := ⟨whitespace, " "⟩

def lineBreak : Lexeme := ⟨whitespace, "\n"⟩

def leftParen : Lexeme := ⟨lParen, "("⟩

def rightParen : Lexeme := ⟨SyntaxKind.rParen, ")"⟩

def equals : Lexeme := ⟨SyntaxKind.eq, "="⟩

def letWord : Lexeme := ⟨letKw, "let"⟩

/-- The word of a name. -/
def ofName (name : Name) : Lexeme := ⟨ident, name.text⟩

/-- The word of a number. -/
def ofInt (n : Int) : Lexeme := ⟨intNumber, Text.Integer.render n⟩

/-- The sign in front of an operand. -/
def sign (op : UnaryOperator) : Lexeme := ⟨minus, op.symbol⟩

/-- The word between two operands. -/
def operator : Option BinaryOperator → Lexeme
  | some op => ⟨op.kind, op.symbol⟩
  | none => ⟨SyntaxKind.error, "?"⟩

end Lexeme

open Lexeme

/-! ## In writing -/

/-- **The lexemes of a term** in its written form. -/
def Term.writing : Term → List Lexeme
  | missing => [⟨SyntaxKind.error, "<"⟩, ⟨ident, "missing"⟩, ⟨SyntaxKind.error, ">"⟩]
  | int n => [ofInt n]
  | var name => [ofName name]
  | unary op t => leftParen :: sign op :: (t.writing ++ [rightParen])
  | binary op t u =>
    leftParen :: (t.writing ++ space :: operator op :: space :: (u.writing ++ [rightParen]))

/-- The lexemes of the line of a sentence. -/
def Sentence.writing : Sentence → List Lexeme
  | define name t =>
    letWord :: space :: ofName name :: space :: equals :: space :: (t.writing ++ [lineBreak])
  | expr t => t.writing ++ [lineBreak]

/-- The written form of a term is what its lexemes spell. -/
theorem Term.spell_writing (t : Term) : spell t.writing = t.render := by
  induction t with
  | missing => simp [writing, render]
  | int n => simp [writing, render, ofInt]
  | var name => simp [writing, render, ofName]
  | unary op t ih => simp [writing, render, ih, leftParen, rightParen, sign, String.append_assoc]
  | binary op t u ih ih' =>
    have hop : (operator op).text = Body.symbol op := by cases op <;> rfl
    simp [writing, render, ih, ih', leftParen, rightParen, space, hop, String.append_assoc]

theorem Sentence.spell_writing (s : Sentence) : spell s.writing = s.render := by
  cases s with
  | define name t =>
    simp [writing, render, t.spell_writing, letWord, space, ofName, equals, lineBreak,
      ← String.append_assoc]
  | expr t => simp [writing, render, t.spell_writing, lineBreak]

/-- The written form of sentences is what the lexemes of their lines spell. -/
theorem spell_flatMap_writing (ss : List Sentence) :
    spell (ss.flatMap Sentence.writing) = String.join (ss.map Sentence.render) := by
  induction ss with
  | nil => rfl
  | cons s ss ih =>
    rw [List.flatMap_cons, spell_append, ih, s.spell_writing, List.map_cons, String.join_cons]

/-! ## Terms that can be read -/

/-- **A legible term**: its numbers are in range and not negative, its names are identifiers, and its
operators are known.  Something may be missing in it. -/
inductive Term.Legible : Term → Prop
  | missing : Legible .missing
  | int {n : Nat} (h : (n : Int) ≤ Text.Integer.greatest) : Legible (.int n)
  | var {name : Name} (h : (ofName name).IsAlone) : Legible (.var name)
  | unary {t : Term} (op : UnaryOperator) (operand : Legible t) : Legible (.unary op t)
  | binary {t u : Term} (op : BinaryOperator) (lhs : Legible t) (rhs : Legible u) :
      Legible (.binary (some op) t u)

/-- A legible sentence. -/
inductive Sentence.Legible : Sentence → Prop
  | define {name : Name} {t : Term} (h : (ofName name).IsAlone) (value : t.Legible) :
      Legible (.define name t)
  | expr {t : Term} (value : t.Legible) : Legible (.expr t)

/-- **A term that can be read again**: nothing is missing in it, its numbers are in range, and its names
are identifiers. -/
inductive Term.Readable : Term → Prop
  | int {n : Nat} (h : (n : Int) ≤ Text.Integer.greatest) : Readable (.int n)
  | var {name : Name} (h : (ofName name).IsAlone) : Readable (.var name)
  | unary {t : Term} (op : UnaryOperator) (operand : Readable t) : Readable (.unary op t)
  | binary {t u : Term} (op : BinaryOperator) (lhs : Readable t) (rhs : Readable u) :
      Readable (.binary (some op) t u)

/-- A sentence that can be read again. -/
inductive Sentence.Readable : Sentence → Prop
  | define {name : Name} {t : Term} (h : (ofName name).IsAlone) (value : t.Readable) :
      Readable (.define name t)
  | expr {t : Term} (value : t.Readable) : Readable (.expr t)

theorem Term.Readable.legible {t : Term} (h : t.Readable) : t.Legible := by
  induction h with
  | int h => exact .int h
  | var h => exact .var h
  | unary op _ ih => exact .unary op ih
  | binary op _ _ ih ih' => exact .binary op ih ih'

/-- **A legible term in which nothing is missing can be read again.** -/
theorem Term.Legible.readable {t : Term} (h : t.Legible) (hwhole : t.IsWhole) : t.Readable := by
  induction h with
  | missing => exact hwhole.elim
  | int h => exact .int h
  | var h => exact .var h
  | unary op _ ih => exact .unary op (ih hwhole)
  | binary op _ _ ih ih' => exact .binary op (ih hwhole.1) (ih' hwhole.2)

theorem Sentence.Readable.legible {s : Sentence} (h : s.Readable) : s.Legible := by
  cases h with
  | define hname value => exact .define hname value.legible
  | expr value => exact .expr value.legible

theorem Sentence.Legible.readable {s : Sentence} (h : s.Legible) (hwhole : s.value.IsWhole) :
    s.Readable := by
  cases h with
  | define hname value => exact .define hname (value.readable hwhole)
  | expr value => exact .expr (value.readable hwhole)

/-! ## Lexemes in writing keep apart -/

namespace Lexeme

theorem isAlone_space : space.IsAlone := ⟨_, _, rfl, by decide⟩

theorem isAlone_lineBreak : lineBreak.IsAlone := ⟨_, _, rfl, by decide⟩

theorem isAlone_leftParen : leftParen.IsAlone := ⟨_, _, rfl, by decide⟩

theorem isAlone_rightParen : rightParen.IsAlone := ⟨_, _, rfl, by decide⟩

theorem isAlone_equals : equals.IsAlone := ⟨_, _, rfl, by decide⟩

theorem isAlone_letWord : letWord.IsAlone := ⟨_, _, rfl, by decide⟩

theorem isAlone_sign (op : UnaryOperator) : (sign op).IsAlone := by
  cases op
  exact ⟨_, _, rfl, by decide⟩

theorem isAlone_operator (op : BinaryOperator) : (operator (some op)).IsAlone := by
  cases op <;> exact ⟨_, _, rfl, by decide⟩

/-- No word goes on with a space, the end of a line or a closing parenthesis. -/
theorem goesOn_of_not_isTrivia {k : SyntaxKind} (h : k.isTrivia = false) :
    goesOn k ' ' = false ∧ goesOn k '\n' = false ∧ goesOn k ')' = false := by
  cases k <;> first | decide | exact absurd h (by decide)

variable {l m : Lexeme}

theorem apart_space (h : l.isTrivia = false) : Apart l space := by
  intro c hc
  obtain rfl := Option.some.inj hc
  exact (goesOn_of_not_isTrivia h).1

theorem apart_lineBreak (h : l.isTrivia = false) : Apart l lineBreak := by
  intro c hc
  obtain rfl := Option.some.inj hc
  exact (goesOn_of_not_isTrivia h).2.1

theorem apart_rightParen (h : l.isTrivia = false) : Apart l rightParen := by
  intro c hc
  obtain rfl := Option.some.inj hc
  exact (goesOn_of_not_isTrivia h).2.2

/-- White space does not go on with a word. -/
theorem apart_of_whitespace (hl : l.kind = whitespace) (hm : m.IsAlone) (ht : m.isTrivia = false) :
    Apart l m := by
  intro c hc
  obtain ⟨d, ds, hd, hscan⟩ := hm
  rw [hd] at hc
  obtain rfl := Option.some.inj hc
  rw [hl, goesOn]
  cases hspace : isWhitespace d with
  | false => rfl
  | true =>
    rw [scan, if_pos hspace] at hscan
    have hkind : whitespace = m.kind := congrArg Scan.kind hscan
    rw [isTrivia, ← hkind] at ht
    exact absurd ht (by decide)

theorem keepApart_singleton (hl : l.IsAlone) : KeepApart [l] := .cons hl (by simp) .nil

theorem isTrimmed_singleton (hl : l.isTrivia = false) : IsTrimmed [l] := ⟨⟨l, rfl, hl⟩, l, rfl, hl⟩

variable {ls ms : List Lexeme}

theorem IsTrimmed.head (h : IsTrimmed ls) : ∀ l ∈ ls.head?, l.isTrivia = false := by
  obtain ⟨⟨m, hm, ht⟩, -⟩ := h
  intro l hl
  rwa [Option.mem_unique hl hm]

theorem IsTrimmed.last (h : IsTrimmed ls) : ∀ l ∈ ls.getLast?, l.isTrivia = false := by
  obtain ⟨-, m, hm, ht⟩ := h
  intro l hl
  rwa [Option.mem_unique hl hm]

theorem IsTrimmed.append (h : IsTrimmed ls) (ks : List Lexeme) (h' : IsTrimmed ms) :
    IsTrimmed (ls ++ (ks ++ ms)) := by
  obtain ⟨⟨l, hl, ht⟩, -⟩ := h
  obtain ⟨-, m, hm, ht'⟩ := h'
  refine ⟨⟨l, ?_, ht⟩, m, ?_, ht'⟩
  · rw [List.head?_append, Option.mem_def.mp hl]
    rfl
  · rw [List.getLast?_append, List.getLast?_append, Option.mem_def.mp hm]
    rfl

/-- White space keeps apart from what begins with a word. -/
theorem KeepApart.behind_whitespace (h : KeepApart ls) (hhead : ∀ m ∈ ls.head?, m.isTrivia = false)
    (hl : l.kind = whitespace) (halone : l.IsAlone) : KeepApart (l :: ls) :=
  .cons halone
    (fun m hm => apart_of_whitespace hl (h.alone m (List.mem_of_mem_head? hm)) (hhead m hm)) h

/-- A space keeps apart what ends with a word from what begins with one. -/
theorem KeepApart.spaced (h : KeepApart ls) (h' : KeepApart ms) (ht : IsTrimmed ls)
    (ht' : IsTrimmed ms) : KeepApart (ls ++ space :: ms) := by
  refine h.append (h'.behind_whitespace ht'.head rfl isAlone_space) fun l hl m hm => ?_
  obtain rfl := Option.some.inj hm
  exact apart_space (ht.last l hl)

/-- Parentheses close what ends with a word. -/
theorem KeepApart.parenthesised (h : KeepApart ls) (ht : IsTrimmed ls) :
    KeepApart (leftParen :: (ls ++ [rightParen])) ∧ IsTrimmed (leftParen :: (ls ++ [rightParen])) := by
  have hclosed : KeepApart (ls ++ [rightParen]) := by
    refine h.append (keepApart_singleton isAlone_rightParen) fun l hl m hm => ?_
    obtain rfl := Option.some.inj hm
    exact apart_rightParen (ht.last l hl)
  have htrim := (isTrimmed_singleton (l := leftParen) rfl).append ls
    (isTrimmed_singleton (l := rightParen) rfl)
  exact ⟨.cons isAlone_leftParen (fun _ _ _ _ => rfl) hclosed, htrim⟩

/-- A line is a line break behind what ends with a word. -/
theorem KeepApart.line (h : KeepApart ls) (ht : IsTrimmed ls) : KeepApart (ls ++ [lineBreak]) := by
  refine h.append (keepApart_singleton isAlone_lineBreak) fun l hl m hm => ?_
  obtain rfl := Option.some.inj hm
  exact apart_lineBreak (ht.last l hl)

end Lexeme

/-- What stands for a missing term is a word between two characters that begin nothing. -/
theorem keepApart_missing :
    KeepApart Term.missing.writing ∧ IsTrimmed Term.missing.writing := by
  have hless : IsAlone ⟨SyntaxKind.error, "<"⟩ := ⟨_, _, rfl, by decide⟩
  have hword : IsAlone ⟨ident, "missing"⟩ := ⟨_, _, rfl, by decide⟩
  have hgreater : IsAlone ⟨SyntaxKind.error, ">"⟩ := ⟨_, _, rfl, by decide⟩
  have hends : ∀ m ∈ [Lexeme.mk SyntaxKind.error ">"].head?, Apart ⟨ident, "missing"⟩ m := by
    rintro m hm c hc
    obtain rfl := Option.some.inj hm
    obtain rfl := Option.some.inj hc
    decide
  have htrim (text : String) : IsTrimmed [⟨SyntaxKind.error, text⟩] := isTrimmed_singleton rfl
  exact ⟨.cons hless (fun _ _ _ _ => rfl) (.cons hword hends (keepApart_singleton hgreater)),
    (htrim "<").append [⟨ident, "missing"⟩] (htrim ">")⟩

/-- **The lexemes of a legible term keep apart**, and there is a word at either end. -/
theorem Term.Legible.keepApart {t : Term} (h : t.Legible) :
    KeepApart t.writing ∧ IsTrimmed t.writing := by
  induction h with
  | missing => exact keepApart_missing
  | int => exact ⟨keepApart_singleton (isAlone_number _), isTrimmed_singleton rfl⟩
  | var h => exact ⟨keepApart_singleton h, isTrimmed_singleton rfl⟩
  | @unary t op _ ih =>
    have hsigned : KeepApart (sign op :: t.writing) :=
      .cons (isAlone_sign op) (fun _ _ _ _ => rfl) ih.1
    exact hsigned.parenthesised ((isTrimmed_singleton (l := sign op) rfl).append [] ih.2)
  | @binary t u op _ _ ih ih' =>
    have hop : IsTrimmed [operator (some op)] := isTrimmed_singleton (by cases op <;> rfl)
    have hright := (keepApart_singleton (isAlone_operator op)).spaced ih'.1 hop ih'.2
    have hboth := ih.1.spaced hright ih.2 (hop.append [space] ih'.2)
    have hwhole := hboth.parenthesised (ih.2.append [space, operator (some op), space] ih'.2)
    simpa [writing] using hwhole

/-- So do the lexemes of a line, which begins with a word and ends with a line break. -/
theorem Sentence.Legible.keepApart {s : Sentence} (h : s.Legible) :
    ∃ ls, s.writing = ls ++ [lineBreak] ∧ KeepApart ls ∧ IsTrimmed ls := by
  cases h with
  | @define name t hname value =>
    obtain ⟨hapart, htrim⟩ := value.keepApart
    have hlet : IsTrimmed [letWord] := isTrimmed_singleton rfl
    have hident : IsTrimmed [ofName name] := isTrimmed_singleton rfl
    have hequals : IsTrimmed [equals] := isTrimmed_singleton rfl
    have hvalue := (keepApart_singleton isAlone_equals).spaced hapart hequals htrim
    have htrim := hequals.append [space] htrim
    have hnamed := (keepApart_singleton hname).spaced hvalue hident htrim
    have htrim := hident.append [space] htrim
    exact ⟨_, rfl, (keepApart_singleton isAlone_letWord).spaced hnamed hlet htrim,
      hlet.append [space] htrim⟩
  | @expr t value => exact ⟨_, rfl, value.keepApart⟩

/-- **The lexemes of the lines of legible sentences keep apart.** -/
theorem keepApart_flatMap_writing {ss : List Sentence} (h : ∀ s ∈ ss, s.Legible) :
    KeepApart (ss.flatMap Sentence.writing) ∧
      ∀ l ∈ (ss.flatMap Sentence.writing).head?, l.isTrivia = false := by
  induction ss with
  | nil => exact ⟨.nil, by simp⟩
  | cons s ss ih =>
    obtain ⟨hrest, hhead⟩ := ih fun r hr => h r (List.mem_cons_of_mem _ hr)
    obtain ⟨ls, hline, hapart, htrim⟩ := (h s List.mem_cons_self).keepApart
    rw [List.flatMap_cons, hline]
    constructor
    · refine (hapart.line htrim).append hrest fun k hk m hm => ?_
      obtain rfl := Option.some.inj (List.getLast?_concat.symm.trans hk)
      exact apart_of_whitespace rfl (hrest.alone m (List.mem_of_mem_head? hm)) (hhead m hm)
    · obtain ⟨⟨l, hl, ht⟩, -⟩ := htrim
      intro m hm
      rw [List.head?_append, List.head?_append, Option.mem_def.mp hl] at hm
      obtain rfl := Option.some.inj hm
      exact ht

/-- **Legible sentences in writing are cut into the lexemes of their lines.** -/
theorem tokenize_pretty {ss : List Sentence} (h : ∀ s ∈ ss, s.Legible) :
    tokenize (Body.ofSentences ss).pretty = ss.flatMap Sentence.writing := by
  rw [Body.pretty_ofSentences, ← spell_flatMap_writing, (keepApart_flatMap_writing h).1.tokenize_spell]

end LosslessSyntax
