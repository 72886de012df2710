import PatternScript.Proofs.Edits.Finishing

/-!
Contract: rendering split at a place that no replacement reaches over.

Replacements may overlap. Which of them are written is decided from the left, and by the end of the
range that is written; so two halves of a range could choose differently from the whole. They do not
if no replacement starts before the place where the range is split and ends behind it: those that
start before it end there at the latest, so the choice among them does not depend on the end of the
range, and the writer has not passed the place when it meets the others.

Owns: the order that recording keeps, and the law for a range and its halves.
Does not own: that ranges can be written.
-/

namespace PatternScript

open Text (Boundary)

/-! ## The order of replacements -/

/-- Of two different keys, one comes before the other. -/
theorem EditKey.before_of_not_before {left right : EditKey} (differ : left ≠ right)
    (notBefore : ¬ right.before left = true) : left.before right = true := by
  obtain ⟨start, stop⟩ := left
  obtain ⟨start', stop'⟩ := right
  simp only [before_iff, ne_eq, mk.injEq] at *
  omega

namespace Edits

/-- Replacements stand in the order of their keys, so each key occurs once. -/
def Ordered (edits : Edits) : Prop :=
  edits.entries.Pairwise fun earlier later => earlier.key.before later.key = true

theorem ordered_empty : Ordered {} :=
  .nil

/-- Putting a replacement into its place brings in no other one. -/
theorem mem_insert {edit other : Edit} {entries : List Edit} (member : other ∈ insert edit entries) :
    other = edit ∨ other ∈ entries := by
  induction entries with
  | nil => exact .inl (List.mem_singleton.mp member)
  | cons first rest inductionHypothesis =>
      rw [insert] at member
      split at member
      · exact (List.mem_cons.mp member).imp_right (List.mem_cons_of_mem first)
      · split at member
        · exact List.mem_cons.mp member
        · rcases List.mem_cons.mp member with rfl | inRest
          · exact .inr List.mem_cons_self
          · exact (inductionHypothesis inRest).imp_right (List.mem_cons_of_mem first)

theorem pairwise_insert {entries : List Edit}
    (ordered : entries.Pairwise fun earlier later => earlier.key.before later.key = true)
    (edit : Edit) :
    (insert edit entries).Pairwise fun earlier later => earlier.key.before later.key = true := by
  induction ordered with
  | nil => exact List.pairwise_singleton _ _
  | @cons first rest atFirst behind inductionHypothesis =>
      rw [insert]
      split
      case isTrue same =>
          exact .cons (fun later member => same ▸ atFirst later member) behind
      case isFalse differ =>
          split
          case isTrue earlier =>
              refine .cons (List.forall_mem_cons.mpr ⟨earlier, ?_⟩) (.cons atFirst behind)
              intro later member
              exact EditKey.before_trans earlier (atFirst later member)
          case isFalse notEarlier =>
              refine .cons ?_ inductionHypothesis
              intro later member
              rcases mem_insert member with rfl | inRest
              · exact EditKey.before_of_not_before differ notEarlier
              · exact atFirst later inRest

/-- Recording a replacement keeps the order. -/
theorem Ordered.replace {edits : Edits} (ordered : edits.Ordered) (range : ByteRange)
    (emission : Emission) : (edits.replace range emission).Ordered :=
  pairwise_insert ordered _

/-- In order, the replacements from a place on are those before a later place, and then those from
there on. -/
theorem filter_start_eq_append {entries : List Edit} {first middle : Nat}
    (ordered : entries.Pairwise fun earlier later => earlier.key.before later.key = true)
    (forward : first ≤ middle) :
    entries.filter (fun edit => first ≤ edit.key.start) =
      entries.filter (fun edit => first ≤ edit.key.start ∧ edit.key.start < middle) ++
        entries.filter fun edit => middle ≤ edit.key.start := by
  induction ordered with
  | nil => rfl
  | @cons edit rest atEdit _ inductionHypothesis =>
      rcases Nat.lt_or_ge edit.key.start middle with isBefore | isBehind
      · have notBehind : ¬ middle ≤ edit.key.start := Nat.not_le.mpr isBefore
        simp only [List.filter_cons, isBefore, notBehind, and_true, decide_false, Bool.false_eq_true,
          ↓reduceIte]
        split
        · rw [inductionHypothesis, List.cons_append]
        · exact inductionHypothesis
      · have noneBefore : rest.filter (fun other =>
            first ≤ other.key.start ∧ other.key.start < middle) = [] := by
          rw [List.filter_eq_nil_iff]
          intro other member
          have later := EditKey.before_iff.mp (atEdit other member)
          simp only [decide_eq_true_eq]
          omega
        rw [noneBefore, List.nil_append] at inductionHypothesis
        have inside : first ≤ edit.key.start := Nat.le_trans forward isBehind
        have notBefore : ¬ edit.key.start < middle := Nat.not_lt.mpr isBehind
        simp only [List.filter_cons, inside, isBehind, notBefore, and_false, decide_true, decide_false,
          Bool.false_eq_true, ↓reduceIte, noneBefore, List.nil_append, inductionHypothesis]

/-! ## Two halves of a range -/

/-- No replacement starts before a place and ends behind it. -/
def ClearOf (edits : Edits) (place : Nat) : Prop :=
  ∀ edit ∈ edits.entries, ¬ (edit.key.start < place ∧ place < edit.key.stop)

instance (edits : Edits) (place : Nat) : Decidable (edits.ClearOf place) :=
  inferInstanceAs (Decidable (∀ edit ∈ edits.entries, _))

/-- To whatever depth it is followed, the trace of a range is that of its halves. -/
theorem traceUpTo_split {edits : Edits} {text : List Char} {depth first middle last : Nat}
    {owner : Option EditKey} {left right : Traced}
    (ordered : edits.Ordered) (contained : ∀ edit ∈ edits.entries, edit.SelfContained text)
    (cutsLeft : ByteRange.Cuts text ⟨first, middle⟩) (cutsRight : ByteRange.Cuts text ⟨middle, last⟩)
    (clear : edits.ClearOf middle)
    (writtenLeft : traceUpTo edits text (depth + 1) ⟨first, middle⟩ owner = .ok left)
    (writtenRight : traceUpTo edits text (depth + 1) ⟨middle, last⟩ owner = .ok right) :
    traceUpTo edits text (depth + 1) ⟨first, last⟩ owner = .ok (left.append right) := by
  have split := filter_start_eq_append ordered cutsLeft.ordered
  simp only [traceUpTo, split] at writtenLeft ⊢
  -- The left half stops before the replacements of the right one.
  rw [traceFrom_append_of_beyond
    fun edit member => of_decide_eq_true (List.mem_filter.mp member).2] at writtenLeft
  refine traceFrom_append cutsRight.first cutsRight.last cutsRight.ordered cutsLeft.first
    cutsLeft.ordered ?_ ?_ writtenLeft writtenRight
  · intro edit member
    obtain ⟨inEntries, starts⟩ := List.mem_filter.mp member
    have starts := (of_decide_eq_true starts).2
    have endsThere : edit.key.stop ≤ middle :=
      Nat.not_lt.mp fun reaches => clear edit inEntries ⟨starts, reaches⟩
    exact ⟨starts, endsThere, (contained edit inEntries).cuts.last⟩
  · intro edit member
    obtain ⟨inEntries, starts⟩ := List.mem_filter.mp member
    exact ⟨of_decide_eq_true starts, (contained edit inEntries).cuts.first⟩

/-- Every range of whole characters has a trace. -/
theorem exists_trace_eq_ok {edits : Edits} {text : List Char} {range : ByteRange}
    (contained : ∀ edit ∈ edits.entries, edit.SelfContained text) (cuts : range.Cuts text) :
    ∃ traced, edits.trace text range = .ok traced := by
  have belongs : BelongsTo range none := by
    rintro key ⟨⟩
  cases traced : edits.trace text range with
  | ok made => exact ⟨made, rfl⟩
  | error fault =>
      have failed : edits.render text range = .error fault := by
        rw [← map_text_trace, traced]
        rfl
      obtain ⟨-, deep⟩ := writeUpTo_error contained cuts belongs failed
      rw [room_none] at deep
      exact absurd deep (Nat.not_succ_le_self _)

theorem render_of_trace {edits : Edits} {text : List Char} {range : ByteRange} {traced : Traced}
    (made : edits.trace text range = .ok traced) : edits.render text range = .ok traced.text := by
  rw [← map_text_trace, made]
  rfl

/-- A range of whole characters can be rendered in two halves wherever no replacement reaches over
the place between them, however the replacements overlap: both halves and the range can be rendered,
and the text of the range is that of the halves one behind the other. -/
theorem render_splits {edits : Edits} {text : List Char} {first middle last : Nat}
    (ordered : edits.Ordered) (contained : ∀ edit ∈ edits.entries, edit.SelfContained text)
    (atFirst : Boundary text first) (atMiddle : Boundary text middle) (atLast : Boundary text last)
    (forward : first ≤ middle) (forward' : middle ≤ last) (clear : edits.ClearOf middle) :
    ∃ left right, edits.render text ⟨first, middle⟩ = .ok left ∧
      edits.render text ⟨middle, last⟩ = .ok right ∧
      edits.render text ⟨first, last⟩ = .ok (left ++ right) := by
  have cutsLeft : ByteRange.Cuts text ⟨first, middle⟩ := ⟨forward, atFirst, atMiddle⟩
  have cutsRight : ByteRange.Cuts text ⟨middle, last⟩ := ⟨forward', atMiddle, atLast⟩
  obtain ⟨left, writtenLeft⟩ := exists_trace_eq_ok contained cutsLeft
  obtain ⟨right, writtenRight⟩ := exists_trace_eq_ok contained cutsRight
  have written : edits.trace text ⟨first, last⟩ = .ok (left.append right) :=
    traceUpTo_split ordered contained cutsLeft cutsRight clear writtenLeft writtenRight
  exact ⟨left.text, right.text, render_of_trace writtenLeft, render_of_trace writtenRight,
    render_of_trace written⟩

/-- Replacements of a text with a character of two bytes, recorded in no order: two that overlap, one
behind them that ends where the text is split, an empty one there, one that starts there, and one that
reaches from there past the end of the range. -/
theorem render_splits_overlapping :
    let text := ['a', 'é', 'b', 'c', 'd', 'e']
    let edits := (((((({} : Edits).replace ⟨4, 5⟩ (.name "x")).replace ⟨1, 4⟩
      (.parens (.source ⟨1, 4⟩))).replace ⟨3, 4⟩ (.callWith (.source ⟨3, 4⟩) [.number 3])).replace
      ⟨4, 4⟩ (.name "y")).replace ⟨4, 7⟩ (.await (.source ⟨5, 6⟩))).replace ⟨0, 3⟩ (.source ⟨1, 3⟩)
    (edits.Ordered ∧ (∀ edit ∈ edits.entries, edit.SelfContained text) ∧ edits.ClearOf 4) ∧
    edits.render text ⟨0, 4⟩ = .ok "éb(3)".toList ∧
    edits.render text ⟨4, 6⟩ = .ok "xd".toList ∧
    edits.render text ⟨0, 6⟩ = .ok "éb(3)xd".toList := by
  intro text edits
  have ordered : edits.Ordered :=
    (((((ordered_empty.replace _ _).replace _ _).replace _ _).replace _ _).replace _ _).replace _ _
  have contained : ∀ edit ∈ edits.entries, edit.SelfContained text := by decide +kernel
  have clear : edits.ClearOf 4 := by decide +kernel
  have left : edits.render text ⟨0, 4⟩ = .ok "éb(3)".toList := by decide +kernel
  have right : edits.render text ⟨4, 6⟩ = .ok "xd".toList := by decide +kernel
  obtain ⟨front, back, isFront, isBack, whole⟩ := render_splits ordered contained
    (by decide +kernel : Boundary text 0) (by decide +kernel : Boundary text 4)
    (by decide +kernel : Boundary text 6) (by decide) (by decide) clear
  rw [left, Except.ok.injEq] at isFront
  rw [right, Except.ok.injEq] at isBack
  subst isFront isBack
  exact ⟨⟨ordered, contained, clear⟩, left, right, whole⟩

end Edits

end PatternScript
