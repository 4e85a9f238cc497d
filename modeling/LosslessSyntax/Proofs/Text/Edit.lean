import LosslessSyntax.Text.Edit

/-!
# Proofs/Text/Edit — what an edit makes of a text

An edit is in place if it begins and ends between two characters (`Edit.IsInPlace`).  Then the bytes of
the edited text are those in front of the stretch, those of the replacement, and those behind the
stretch (`Edit.Makes`).
-/

namespace LosslessSyntax.Text

/-! ## Splitting a text -/

theorem utf8ByteSize_ofList_cons (c : Char) (cs : List Char) :
    (String.ofList (c :: cs)).utf8ByteSize = c.utf8Size + (String.ofList cs).utf8ByteSize := by
  rw [String.ofList_cons, String.utf8ByteSize_append, String.utf8ByteSize_singleton]

/-- **Characters are split where the first part ends.** -/
theorem splitAt?_append (before after : List Char) :
    splitAt? (String.ofList before).utf8ByteSize (before ++ after) = some (before, after) := by
  induction before with
  | nil => rw [String.ofList_nil, String.utf8ByteSize_empty, List.nil_append, splitAt?]
  | cons c cs ih =>
    obtain ⟨n, hn⟩ := Nat.exists_eq_add_one.mpr c.utf8Size_pos
    have hsize : c.utf8Size + (String.ofList cs).utf8ByteSize =
        n + (String.ofList cs).utf8ByteSize + 1 := by omega
    have hrest : n + (String.ofList cs).utf8ByteSize + 1 - c.utf8Size =
        (String.ofList cs).utf8ByteSize := by omega
    rw [utf8ByteSize_ofList_cons, hsize, List.cons_append, splitAt?, if_pos (by omega), hrest, ih]
    rfl

namespace Edit

variable {e : Edit} {text text' before middle after : String}

/-! ## Edits in place -/

/-- **An edit is in place in a text**: its ends come in order, and each is between two characters or at
an end of the text. -/
structure IsInPlace (e : Edit) (text : String) : Prop where
  ordered : e.start ≤ e.stop
  start_valid : String.Pos.Raw.IsValid text ⟨e.start⟩
  stop_valid : String.Pos.Raw.IsValid text ⟨e.stop⟩

instance (e : Edit) (text : String) : Decidable (e.IsInPlace text) :=
  decidable_of_iff (e.start ≤ e.stop ∧ String.Pos.Raw.IsValid text ⟨e.start⟩ ∧
      String.Pos.Raw.IsValid text ⟨e.stop⟩)
    ⟨fun ⟨ordered, start, stop⟩ => ⟨ordered, start, stop⟩,
      fun ⟨ordered, start, stop⟩ => ⟨ordered, start, stop⟩⟩

/-- **An edit makes one text of another**: the bytes of the stretch give way to those of the
replacement. -/
def Makes (e : Edit) (text text' : String) : Prop :=
  text'.toByteArray = text.toByteArray.extract 0 e.start ++ e.replacement.toByteArray ++
    text.toByteArray.extract e.stop text.utf8ByteSize

instance (e : Edit) (text text' : String) : Decidable (e.Makes text text') :=
  inferInstanceAs (Decidable (_ = _))

/-- Two ways to cut a text in two, the second no earlier, cut it in three. -/
theorem exists_middle {first second third fourth : String} (h : first ++ second = third ++ fourth)
    (hle : first.utf8ByteSize ≤ third.utf8ByteSize) : ∃ middle, third = first ++ middle := by
  have hlist : first.toList ++ second.toList = third.toList ++ fourth.toList := by
    rw [← String.toList_append, h, String.toList_append]
  obtain ⟨cs, hthird, -⟩ | ⟨cs, hfirst, -⟩ := List.append_eq_append_iff.mp hlist
  · exact ⟨String.ofList cs, String.toList_inj.mp (by rw [hthird]; simp)⟩
  · have hsplit : first = third ++ String.ofList cs := String.toList_inj.mp (by rw [hfirst]; simp)
    have hempty : (String.ofList cs).utf8ByteSize = 0 := by
      rw [hsplit, String.utf8ByteSize_append] at hle
      omega
    rw [String.utf8ByteSize_eq_zero_iff.mp hempty, String.append_empty] at hsplit
    exact ⟨"", by rw [hsplit, String.append_empty]⟩

/-- An edit in place cuts a text in three. -/
theorem IsInPlace.exists_parts (h : e.IsInPlace text) : ∃ before middle after,
    text = before ++ middle ++ after ∧ e.start = before.utf8ByteSize ∧
      e.stop = before.utf8ByteSize + middle.utf8ByteSize := by
  obtain ⟨before, rest, hstart, hbefore⟩ := String.Pos.Raw.isValid_iff_exists_append.mp h.start_valid
  obtain ⟨front, after, hstop, hfront⟩ := String.Pos.Raw.isValid_iff_exists_append.mp h.stop_valid
  have hbefore : e.start = before.utf8ByteSize := congrArg String.Pos.Raw.byteIdx hbefore
  have hfront : e.stop = front.utf8ByteSize := congrArg String.Pos.Raw.byteIdx hfront
  obtain ⟨middle, rfl⟩ := exists_middle (hstart.symm.trans hstop)
    (by rw [← hbefore, ← hfront]; exact h.ordered)
  exact ⟨before, middle, after, hstop, hbefore, by rw [hfront, String.utf8ByteSize_append]⟩

theorem apply_append (hstart : e.start = before.utf8ByteSize)
    (hstop : e.stop = before.utf8ByteSize + middle.utf8ByteSize) :
    e.apply (before ++ middle ++ after) = .ok (before ++ e.replacement ++ after) := by
  have hfirst := splitAt?_append before.toList (middle.toList ++ after.toList)
  have hsecond := splitAt?_append middle.toList after.toList
  rw [String.ofList_toList] at hfirst hsecond
  have hlength : e.stop - e.start = middle.utf8ByteSize := by omega
  rw [apply, if_neg (by omega), String.toList_append, String.toList_append, List.append_assoc, hstart,
    hfirst]
  simp only [← hstart, hlength, hsecond, String.ofList_toList]

theorem makes_append (hstart : e.start = before.utf8ByteSize)
    (hstop : e.stop = before.utf8ByteSize + middle.utf8ByteSize) :
    e.Makes (before ++ middle ++ after) (before ++ e.replacement ++ after) := by
  have hfront : (before ++ middle ++ after).toByteArray.extract 0 e.start = before.toByteArray := by
    rw [String.append_assoc, String.toByteArray_append]
    exact ByteArray.extract_append_eq_left hstart
  have hback : (before ++ middle ++ after).toByteArray.extract e.stop
      (before ++ middle ++ after).utf8ByteSize = after.toByteArray := by
    rw [String.toByteArray_append]
    refine ByteArray.extract_append_eq_right ?_ ?_
    · rw [hstop, String.size_toByteArray, String.utf8ByteSize_append]
    · rw [String.size_toByteArray, String.size_toByteArray, String.utf8ByteSize_append]
  rw [Makes, hfront, hback, String.toByteArray_append, String.toByteArray_append]

/-- **An edit in place succeeds**, and the text that comes of it is the one that the edit makes. -/
theorem IsInPlace.exists_apply (h : e.IsInPlace text) :
    ∃ text', e.apply text = .ok text' ∧ e.Makes text text' := by
  obtain ⟨before, middle, after, rfl, hstart, hstop⟩ := h.exists_parts
  exact ⟨_, apply_append hstart hstop, makes_append hstart hstop⟩

/-! ## One edit after the other -/

/-- **Edits are in place**, each in the text that those before it have made. -/
def AllInPlace : String → List Edit → Prop
  | _, [] => True
  | text, e :: es => e.IsInPlace text ∧ ∀ text', e.Makes text text' → AllInPlace text' es

/-- **Edits make one text of another**, one after the other. -/
inductive MakeAll : List Edit → String → String → Prop
  | nil {text : String} : MakeAll [] text text
  | cons {e : Edit} {es : List Edit} {text text' text'' : String} (first : e.Makes text text')
      (others : MakeAll es text' text'') : MakeAll (e :: es) text text''

/-- There is only one text that an edit makes. -/
theorem Makes.unique {text₁ text₂ : String} (h₁ : e.Makes text text₁) (h₂ : e.Makes text text₂) :
    text₁ = text₂ :=
  String.toByteArray_inj.mp (h₁.trans h₂.symm)

end Edit

end LosslessSyntax.Text
