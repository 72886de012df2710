import PatternScript.Source.Bytes

/-!
Contract: where a text can be cut, and how its slices fit together.

A byte offset is a boundary if it falls between two characters. Between boundaries every slice
exists, and slices that follow each other concatenate to the slice around them.

Owns: boundaries, the characterization of cuts and slices by concatenation, and the algebra of
slices.
Does not own: character offsets.
-/

namespace PatternScript.Text

/-! ## Byte length -/

@[simp] theorem byteLength_nil : byteLength [] = 0 := rfl

@[simp] theorem byteLength_cons (c : Char) (rest : List Char) :
    byteLength (c :: rest) = c.utf8Size + byteLength rest := rfl

@[simp] theorem byteLength_append (left right : List Char) :
    byteLength (left ++ right) = byteLength left + byteLength right := by
  induction left with
  | nil => simp
  | cons c rest inductionHypothesis =>
      simp only [List.cons_append, byteLength_cons, inductionHypothesis]
      omega

theorem eq_nil_of_byteLength_eq_zero {text : List Char} (empty : byteLength text = 0) :
    text = [] := by
  cases text with
  | nil => rfl
  | cons c rest =>
      have positive := c.utf8Size_pos
      simp only [byteLength_cons] at empty
      omega

/-- Two ways to split one text agree once the first parts have the same number of bytes. -/
theorem append_inj_of_byteLength {left right left' right' : List Char}
    (same : left ++ right = left' ++ right')
    (length : byteLength left = byteLength left') :
    left = left' ∧ right = right' := by
  induction left generalizing left' with
  | nil =>
      have empty : left' = [] := eq_nil_of_byteLength_eq_zero length.symm
      subst empty
      exact ⟨rfl, same⟩
  | cons c rest inductionHypothesis =>
      cases left' with
      | nil =>
          have positive := c.utf8Size_pos
          simp only [byteLength_cons, byteLength_nil] at length
          omega
      | cons d rest' =>
          simp only [List.cons_append, List.cons.injEq] at same
          obtain ⟨rfl, sameRest⟩ := same
          simp only [byteLength_cons] at length
          obtain ⟨rfl, sameRight⟩ := inductionHypothesis sameRest (by omega)
          exact ⟨rfl, sameRight⟩

/-! ## Cuts -/

/-- A cut at an offset splits the text into parts of which the first has that many bytes. -/
theorem splitAtByte?_eq_some_iff {text : List Char} {offset : Nat} {before after : List Char} :
    splitAtByte? text offset = some (before, after) ↔
      text = before ++ after ∧ byteLength before = offset := by
  induction text generalizing offset before with
  | nil =>
      cases offset with
      | zero =>
          simp only [splitAtByte?, Option.some.injEq, Prod.mk.injEq, List.nil_eq_append_iff]
          constructor
          · rintro ⟨rfl, rfl⟩
            simp
          · rintro ⟨⟨rfl, rfl⟩, _⟩
            simp
      | succ offset =>
          simp only [splitAtByte?, reduceCtorEq, false_iff, List.nil_eq_append_iff]
          rintro ⟨⟨rfl, rfl⟩, length⟩
          simp at length
  | cons c rest inductionHypothesis =>
      have positive := c.utf8Size_pos
      cases offset with
      | zero =>
          simp only [splitAtByte?, Option.some.injEq, Prod.mk.injEq]
          constructor
          · rintro ⟨rfl, rfl⟩
            simp
          · rintro ⟨same, length⟩
            have empty := eq_nil_of_byteLength_eq_zero length
            subst empty
            exact ⟨rfl, same⟩
      | succ offset =>
          rw [splitAtByte?]
          constructor
          · intro cut
            split at cut
            · split at cut
              · rename_i head tail found
                simp only [Option.some.injEq, Prod.mk.injEq] at cut
                obtain ⟨rfl, rfl⟩ := cut
                obtain ⟨rfl, length⟩ := inductionHypothesis.mp found
                simp only [List.cons_append, byteLength_cons, true_and]
                omega
              · simp at cut
            · simp at cut
          · rintro ⟨same, length⟩
            cases before with
            | nil => simp at length
            | cons d head =>
                simp only [List.cons_append, List.cons.injEq] at same
                obtain ⟨rfl, rfl⟩ := same
                simp only [byteLength_cons] at length
                have found : splitAtByte? (head ++ after) (offset + 1 - c.utf8Size) =
                    some (head, after) :=
                  inductionHypothesis.mpr ⟨rfl, by omega⟩
                rw [if_pos (by omega), found]
          · omega

/-- The offset falls between two characters of the text, or at one of its ends. -/
def Boundary (text : List Char) (offset : Nat) : Prop :=
  (splitAtByte? text offset).isSome

instance (text : List Char) (offset : Nat) : Decidable (Boundary text offset) :=
  inferInstanceAs (Decidable (_ = true))

theorem boundary_iff {text : List Char} {offset : Nat} :
    Boundary text offset ↔
      ∃ before after, text = before ++ after ∧ byteLength before = offset := by
  simp only [Boundary, Option.isSome_iff_exists, Prod.exists, splitAtByte?_eq_some_iff]

theorem boundary_zero (text : List Char) : Boundary text 0 :=
  boundary_iff.mpr ⟨[], text, rfl, rfl⟩

theorem boundary_byteLength (text : List Char) : Boundary text (byteLength text) :=
  boundary_iff.mpr ⟨text, [], by simp, rfl⟩

theorem Boundary.le {text : List Char} {offset : Nat} (boundary : Boundary text offset) :
    offset ≤ byteLength text := by
  obtain ⟨before, after, rfl, rfl⟩ := boundary_iff.mp boundary
  simp

/-! ## Slices -/

/-- A slice is a middle part of the text, found by the bytes before it and its own. -/
theorem slice?_eq_some_iff {text : List Char} {start stop : Nat} {middle : List Char} :
    slice? text ⟨start, stop⟩ = some middle ↔
      ∃ before after, text = before ++ (middle ++ after) ∧ byteLength before = start ∧
        start + byteLength middle = stop := by
  unfold slice?
  constructor
  · intro found
    split at found
    · split at found
      · rename_i before rest cut
        split at found
        · rename_i inner after cutRest
          simp only [Option.some.injEq] at found
          subst found
          obtain ⟨rfl, length⟩ := splitAtByte?_eq_some_iff.mp cut
          obtain ⟨rfl, innerLength⟩ := splitAtByte?_eq_some_iff.mp cutRest
          exact ⟨before, after, rfl, length, by simp only at *; omega⟩
        · simp at found
      · simp at found
    · simp at found
  · rintro ⟨before, after, rfl, rfl, rfl⟩
    have cut : splitAtByte? (before ++ (middle ++ after)) (byteLength before) =
        some (before, middle ++ after) :=
      splitAtByte?_eq_some_iff.mpr ⟨rfl, rfl⟩
    have cutRest : splitAtByte? (middle ++ after)
        (byteLength before + byteLength middle - byteLength before) = some (middle, after) :=
      splitAtByte?_eq_some_iff.mpr ⟨rfl, by omega⟩
    simp only [Nat.le_add_right, ↓reduceIte, cut, cutRest]

/-- Between two boundaries in order there is a slice. -/
theorem slice?_of_boundaries {text : List Char} {start stop : Nat}
    (first : Boundary text start) (last : Boundary text stop) (ordered : start ≤ stop) :
    slice? text ⟨start, stop⟩ = some (slice text ⟨start, stop⟩) := by
  obtain ⟨before, rest, split, rfl⟩ := boundary_iff.mp first
  obtain ⟨longer, after, split', rfl⟩ := boundary_iff.mp last
  have isSome : ∃ middle, slice? text ⟨byteLength before, byteLength longer⟩ = some middle := by
    -- The longer first part starts with the shorter one, character by character.
    obtain ⟨extra, rfl⟩ | ⟨extra, rfl⟩ : (∃ extra, longer = before ++ extra) ∨
        (∃ extra, before = longer ++ extra) := by
      have same : before ++ rest = longer ++ after := split.symm.trans split'
      rcases List.append_eq_append_iff.mp same with ⟨extra, eq, _⟩ | ⟨extra, eq, _⟩
      · exact .inl ⟨extra, eq⟩
      · exact .inr ⟨extra, eq⟩
    · refine ⟨extra, slice?_eq_some_iff.mpr ⟨before, after, ?_, rfl, by simp⟩⟩
      rw [split', List.append_assoc]
    · have empty : extra = [] :=
        eq_nil_of_byteLength_eq_zero (by simp only [byteLength_append] at ordered; omega)
      subst empty
      refine ⟨[], slice?_eq_some_iff.mpr ⟨longer, after, ?_, by simp, by simp⟩⟩
      rw [split', List.nil_append]
  obtain ⟨middle, found⟩ := isSome
  simp [slice, found]

/-- The ends of a slice are boundaries in order. -/
theorem boundaries_of_slice? {text : List Char} {start stop : Nat} {middle : List Char}
    (found : slice? text ⟨start, stop⟩ = some middle) :
    Boundary text start ∧ Boundary text stop ∧ start ≤ stop := by
  obtain ⟨before, after, rfl, rfl, rfl⟩ := slice?_eq_some_iff.mp found
  refine ⟨boundary_iff.mpr ⟨before, _, rfl, rfl⟩, boundary_iff.mpr ⟨before ++ middle, after, ?_, ?_⟩,
    by omega⟩
  · rw [List.append_assoc]
  · simp

theorem slice_eq_of_append {before middle after : List Char} {start stop : Nat}
    (first : byteLength before = start) (last : start + byteLength middle = stop) :
    slice (before ++ (middle ++ after)) ⟨start, stop⟩ = middle := by
  have found : slice? (before ++ (middle ++ after)) ⟨start, stop⟩ = some middle :=
    slice?_eq_some_iff.mpr ⟨before, after, rfl, first, last⟩
  simp [slice, found]

/-- Slices that follow each other concatenate. -/
theorem slice_append_slice {text : List Char} {first middle last : Nat}
    (boundaryFirst : Boundary text first) (boundaryMiddle : Boundary text middle)
    (boundaryLast : Boundary text last) (ordered : first ≤ middle) (ordered' : middle ≤ last) :
    slice text ⟨first, middle⟩ ++ slice text ⟨middle, last⟩ = slice text ⟨first, last⟩ := by
  obtain ⟨before, rest, split, lengthBefore, lengthLeft⟩ :=
    slice?_eq_some_iff.mp (slice?_of_boundaries boundaryFirst boundaryMiddle ordered)
  obtain ⟨before', after, split', lengthBefore', lengthRight⟩ :=
    slice?_eq_some_iff.mp (slice?_of_boundaries boundaryMiddle boundaryLast ordered')
  have shifted : (before ++ slice text ⟨first, middle⟩) ++ rest =
      before' ++ (slice text ⟨middle, last⟩ ++ after) := by
    rw [List.append_assoc, ← split, ← split']
  obtain ⟨_, sameRest⟩ := append_inj_of_byteLength shifted
    (by simp only [byteLength_append]; omega)
  have joined : text = before ++
      ((slice text ⟨first, middle⟩ ++ slice text ⟨middle, last⟩) ++ after) := by
    rw [List.append_assoc, ← sameRest]
    exact split
  have found : slice? text ⟨first, last⟩ =
      some (slice text ⟨first, middle⟩ ++ slice text ⟨middle, last⟩) :=
    slice?_eq_some_iff.mpr ⟨before, after, joined, lengthBefore,
      by simp only [byteLength_append]; omega⟩
  simp [slice, found]

@[simp] theorem slice_self (text : List Char) (offset : Nat) :
    slice text ⟨offset, offset⟩ = [] := by
  unfold slice
  cases found : slice? text ⟨offset, offset⟩ with
  | none => rfl
  | some middle =>
      obtain ⟨before, after, _, _, length⟩ := slice?_eq_some_iff.mp found
      have empty : middle = [] := eq_nil_of_byteLength_eq_zero (by omega)
      simp [empty]

@[simp] theorem slice_whole (text : List Char) :
    slice text ⟨0, byteLength text⟩ = text := by
  have found := @slice_eq_of_append [] text [] 0 (byteLength text) rfl (by simp)
  simpa using found

end PatternScript.Text
