import PatternScript.Proofs.Edits.Trace
import PatternScript.Proofs.Source.Slices

/-!
Contract: rendering taken apart.

What is written for a range depends only on the replacements that lie in it. Those that the writer
passes over and those behind the range can be left out, and a range can be written piece by piece if
no replacement reaches over the place where it is divided.

Owns: these three laws for traced writing, and the law for a source part of a replacement.
Does not own: how the replacements of a program nest.
-/

namespace PatternScript.Edits

open Text (Boundary slice)

section Writing

variable {text : List Char} {write : TracedWriter} {stop : Nat} {owner : Option EditKey}

theorem copy_eq_ok {start stop : Nat} (first : Boundary text start) (last : Boundary text stop)
    (ordered : start ≤ stop) : copy text ⟨start, stop⟩ = .ok (slice text ⟨start, stop⟩) := by
  unfold copy
  rw [Text.slice?_of_boundaries first last ordered]

theorem traceCopy_eq_ok {start stop : Nat} (first : Boundary text start)
    (last : Boundary text stop) (ordered : start ≤ stop) :
    traceCopy text ⟨start, stop⟩ = .ok ⟨slice text ⟨start, stop⟩, []⟩ := by
  unfold traceCopy
  rw [copy_eq_ok first last ordered]
  rfl

/-- The writer at a cursor meets a replacement inside the range and does not write it. -/
def PassesOver (stop : Nat) (owner : Option EditKey) (cursor : Nat) (edit : Edit) : Prop :=
  edit.key.start < stop ∧
    (edit.key.start < cursor ∨ some edit.key = owner ∨ stop < edit.key.stop)

/-- Replacements that are passed over can be left out. -/
theorem traceFrom_append_of_passesOver {passed rest : List Edit} {cursor : Nat}
    (passes : ∀ edit ∈ passed, PassesOver stop owner cursor edit) :
    traceFrom text write stop owner cursor (passed ++ rest) =
      traceFrom text write stop owner cursor rest := by
  induction passed with
  | nil => rfl
  | cons edit passed inductionHypothesis =>
      obtain ⟨inside, reason⟩ := passes edit List.mem_cons_self
      rw [List.cons_append, traceFrom, if_neg (by omega), if_pos reason]
      exact inductionHypothesis fun other member => passes other (List.mem_cons_of_mem _ member)

/-- Replacements that start behind the range can be left out. -/
theorem traceFrom_append_of_beyond {entries beyond : List Edit} {cursor : Nat}
    (behind : ∀ edit ∈ beyond, stop ≤ edit.key.start) :
    traceFrom text write stop owner cursor (entries ++ beyond) =
      traceFrom text write stop owner cursor entries := by
  induction entries generalizing cursor with
  | nil =>
      cases beyond with
      | nil => rfl
      | cons edit rest =>
          have starts := behind edit List.mem_cons_self
          simp only [List.nil_append, traceFrom, starts, ↓reduceIte]
  | cons edit entries inductionHypothesis =>
      simp only [List.cons_append, traceFrom, inductionHypothesis]

/-- At the end of the range there is nothing left to write. -/
theorem traceFrom_stop {entries : List Edit} (atStop : Boundary text stop)
    (behind : ∀ edit ∈ entries, stop ≤ edit.key.start) :
    traceFrom text write stop owner stop entries = .ok ⟨[], []⟩ := by
  have written := @traceFrom_append_of_beyond text write stop owner [] entries stop behind
  rw [List.nil_append] at written
  rw [written, traceFrom, traceCopy_eq_ok atStop atStop (Nat.le_refl _), Text.slice_self]

/-- Text before the first replacement can be written ahead. -/
theorem traceFrom_advance {entries : List Edit} {cursor middle : Nat} {traced : Traced}
    (atCursor : Boundary text cursor) (atMiddle : Boundary text middle)
    (atStop : Boundary text stop) (ordered : cursor ≤ middle) (ordered' : middle ≤ stop)
    (later : ∀ edit ∈ entries, middle ≤ edit.key.start ∧ Boundary text edit.key.start)
    (written : traceFrom text write stop owner middle entries = .ok traced) :
    traceFrom text write stop owner cursor entries =
      .ok ⟨slice text ⟨cursor, middle⟩ ++ traced.text, traced.applied⟩ := by
  have atEnd : traceCopy text ⟨middle, stop⟩ = .ok traced →
      traceCopy text ⟨cursor, stop⟩ =
        .ok ⟨slice text ⟨cursor, middle⟩ ++ traced.text, traced.applied⟩ := by
    intro copied
    rw [traceCopy_eq_ok atMiddle atStop ordered', Except.ok.injEq] at copied
    rw [traceCopy_eq_ok atCursor atStop (by omega), ← copied,
      Text.slice_append_slice atCursor atMiddle atStop ordered ordered']
  induction entries with
  | nil => exact atEnd written
  | cons edit rest inductionHypothesis =>
      obtain ⟨notBefore, atEdit⟩ := later edit List.mem_cons_self
      rw [traceFrom] at written ⊢
      split at written
      case isTrue behind =>
          rw [if_pos behind]
          exact atEnd written
      case isFalse inside =>
          rw [if_neg inside]
          split at written
          case isTrue passed =>
              rw [if_pos (passed.imp_left (by omega))]
              exact inductionHypothesis
                (fun other member => later other (List.mem_cons_of_mem _ member)) written
          case isFalse taken =>
              rw [if_neg (fun passed => taken (passed.imp_left (by omega))),
                copy_eq_ok atCursor atEdit (by omega)]
              rw [copy_eq_ok atMiddle atEdit notBefore] at written
              -- Only the text before the replacement gets longer.
              revert written
              cases traceEmission write edit.key edit.emission with
              | error fault =>
                  intro failed
                  cases failed
              | ok replaced =>
                  cases traceFrom text write stop owner edit.key.stop rest with
                  | error fault =>
                      intro failed
                      cases failed
                  | ok after =>
                      intro written
                      have same := Except.ok.inj written
                      subst same
                      change Except.ok _ = Except.ok _
                      rw [← Text.slice_append_slice atCursor atMiddle atEdit ordered notBefore]
                      simp only [List.append_assoc]

/-- A range can be divided where no replacement reaches over: the replacements before the division
are written with the first part, those behind it with the second. -/
theorem traceFrom_append {before after : List Edit} {cursor middle : Nat}
    {first second : Traced}
    (atMiddle : Boundary text middle) (atStop : Boundary text stop) (ordered : middle ≤ stop)
    (atCursor : Boundary text cursor) (cursorLe : cursor ≤ middle)
    (left : ∀ edit ∈ before, edit.key.start < middle ∧ edit.key.stop ≤ middle ∧
      Boundary text edit.key.stop)
    (right : ∀ edit ∈ after, middle ≤ edit.key.start ∧ Boundary text edit.key.start)
    (writtenFirst : traceFrom text write middle owner cursor before = .ok first)
    (writtenSecond : traceFrom text write stop owner middle after = .ok second) :
    traceFrom text write stop owner cursor (before ++ after) = .ok (first.append second) := by
  induction before generalizing cursor first with
  | nil =>
      rw [traceFrom, traceCopy_eq_ok atCursor atMiddle cursorLe, Except.ok.injEq] at writtenFirst
      subst writtenFirst
      exact traceFrom_advance atCursor atMiddle atStop cursorLe ordered right writtenSecond
  | cons edit before inductionHypothesis =>
      obtain ⟨starts, within, atEdit⟩ := left edit List.mem_cons_self
      have leftRest := fun other member => left other (List.mem_cons_of_mem edit member)
      rw [traceFrom, if_neg (by omega)] at writtenFirst
      rw [List.cons_append, traceFrom, if_neg (by omega)]
      split at writtenFirst
      case isTrue passed =>
          rw [if_pos (passed.imp_right (Or.imp_right (by omega)))]
          exact inductionHypothesis atCursor cursorLe leftRest writtenFirst
      case isFalse taken =>
          rw [if_neg (fun passed => taken (passed.imp_right (Or.imp_right (by omega))))]
          revert writtenFirst
          cases copy text ⟨cursor, edit.key.start⟩ with
          | error fault =>
              intro failed
              cases failed
          | ok head =>
              cases traceEmission write edit.key edit.emission with
              | error fault =>
                  intro failed
                  cases failed
              | ok replaced =>
                  cases rest : traceFrom text write middle owner edit.key.stop before with
                  | error fault =>
                      intro failed
                      cases failed
                  | ok tail =>
                      intro writtenFirst
                      have same := Except.ok.inj writtenFirst
                      subst same
                      rw [inductionHypothesis atEdit within leftRest rest]
                      change Except.ok _ = Except.ok _
                      simp [Traced.append]

/-- A replacement at the cursor is written; those inside it are passed over afterwards, and writing
goes on behind it. -/
theorem traceFrom_cons {edit : Edit} {inside behind : List Edit} {replaced : List Char}
    {later : Traced} (atEdit : Boundary text edit.key.start)
    (covers : edit.key.start < edit.key.stop) (within : edit.key.stop ≤ stop)
    (notOwner : some edit.key ≠ owner)
    (nested : ∀ other ∈ inside, other.key.start < edit.key.stop)
    (written : writeEmission write.plain edit.key edit.emission = .ok replaced)
    (writtenLater : traceFrom text write stop owner edit.key.stop behind = .ok later) :
    traceFrom text write stop owner edit.key.start (edit :: (inside ++ behind)) =
      .ok ⟨replaced ++ later.text,
        edit :: appliedIn write edit.key edit.emission.sources ++ later.applied⟩ := by
  have taken : ¬(edit.key.start < edit.key.start ∨ some edit.key = owner ∨ stop < edit.key.stop) :=
    by
      simp only [notOwner, false_or]
      omega
  have passes : ∀ other ∈ inside, PassesOver stop owner edit.key.stop other := by
    intro other member
    have starts := nested other member
    exact ⟨by omega, .inl starts⟩
  rw [traceFrom, if_neg (by omega), if_neg taken, copy_eq_ok atEdit atEdit (Nat.le_refl _),
    traceEmission_eq, written, traceFrom_append_of_passesOver passes, writtenLater, Text.slice_self]
  rfl

end Writing

/-- A range is written with the replacements in it: of those before them in the order, none that
starts in the range is written, and those behind start behind the range. -/
theorem traceUpTo_eq_ok_of_block {edits : Edits} {text : List Char} {depth : Nat}
    {range : ByteRange} {owner : Option EditKey} {before block after : List Edit}
    {traced : Traced}
    (entries : edits.entries = before ++ (block ++ after))
    (passed : ∀ edit ∈ before, range.start ≤ edit.key.start →
      PassesOver range.stop owner range.start edit)
    (inside : ∀ edit ∈ block, range.start ≤ edit.key.start)
    (behind : ∀ edit ∈ after, range.stop ≤ edit.key.start)
    (written : traceFrom text (traceUpTo edits text depth) range.stop owner range.start block =
      .ok traced) :
    traceUpTo edits text (depth + 1) range owner = .ok traced := by
  have kept : block.filter (fun edit => range.start ≤ edit.key.start) = block :=
    List.filter_eq_self.mpr fun edit member => decide_eq_true (inside edit member)
  simp only [traceUpTo, entries, List.filter_append, kept]
  rw [traceFrom_append_of_passesOver, traceFrom_append_of_beyond, written]
  · intro edit member
    exact behind edit (List.mem_filter.mp member).1
  · intro edit member
    obtain ⟨inBefore, notEarlier⟩ := List.mem_filter.mp member
    exact passed edit inBefore (of_decide_eq_true notEarlier)

theorem traceUpTo_empty {edits : Edits} {text : List Char} {depth offset : Nat}
    {owner : Option EditKey} (boundary : Boundary text offset) :
    traceUpTo edits text (depth + 1) ⟨offset, offset⟩ owner = .ok ⟨[], []⟩ := by
  refine traceFrom_stop boundary ?_
  intro edit member
  exact of_decide_eq_true (List.mem_filter.mp member).2

end PatternScript.Edits
