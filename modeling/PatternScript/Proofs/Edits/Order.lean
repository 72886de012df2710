import PatternScript.Edits

/-!
Contract: the order of replacements.

Owns: that the order of keys is a strict order, that keys recorded in their order end up in the
order in which they were recorded, and which keys come before the keys of a range.
Does not own: rendering.
-/

namespace PatternScript

namespace EditKey

theorem before_iff {left right : EditKey} :
    left.before right = true ↔
      left.start < right.start ∨ (left.start = right.start ∧ right.stop < left.stop) := by
  simp [before]

theorem before_irrefl (key : EditKey) : key.before key = false := by
  simp [before]

theorem before_trans {first second third : EditKey} (left : first.before second = true)
    (right : second.before third = true) : first.before third = true := by
  rw [before_iff] at *
  omega

theorem ne_of_before {left right : EditKey} (ordered : left.before right = true) :
    left ≠ right := by
  rintro rfl
  simp [before_irrefl] at ordered

/-- What comes before a key comes before every key inside it. -/
theorem before_of_within {key outer inner : EditKey} (ordered : key.before outer = true)
    (starts : outer.start ≤ inner.start) (stops : inner.stop ≤ outer.stop) :
    key.before inner = true := by
  rw [before_iff] at *
  omega

end EditKey

namespace Edit

/-- The bytes a replacement takes the place of. -/
def range (edit : Edit) : ByteRange :=
  ⟨edit.key.start, edit.key.stop⟩

end Edit

namespace Edits

/-- A replacement whose key comes last is put at the end. -/
theorem insert_eq_append {edit : Edit} {entries : List Edit}
    (last : ∀ other ∈ entries, other.key.before edit.key = true) :
    insert edit entries = entries ++ [edit] := by
  induction entries with
  | nil => rfl
  | cons other rest inductionHypothesis =>
      have earlier := last other List.mem_cons_self
      have different := EditKey.ne_of_before earlier
      have notBefore : edit.key.before other.key = false := by
        rw [← Bool.not_eq_true, EditKey.before_iff]
        rw [EditKey.before_iff] at earlier
        omega
      simp only [insert, different, ↓reduceIte, notBefore, Bool.false_eq_true, List.cons_append]
      rw [inductionHypothesis fun entry member => last entry (List.mem_cons_of_mem _ member)]

end Edits

end PatternScript
