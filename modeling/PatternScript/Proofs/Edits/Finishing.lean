import PatternScript.Proofs.Edits.Blocks
import PatternScript.Proofs.Edits.Verdicts

/-!
Contract: rendering comes to an end and never cuts a character.

Replacements may overlap, share an end, be empty or lie in each other, and one may hold the whole of
its own range. All that is asked of them is that they hold parts of the range they take the place of.
A source part is written without the replacement it belongs to. So what is written in it is shorter
than that replacement, even where the part is not, and writing nests no deeper than there are
replacements.

Owns: replacements that hold parts of themselves, how deep writing nests, and that it succeeds.
Does not own: what is written.
-/

namespace PatternScript

open Text (Boundary)

/-- Both ends of a range fall between characters of a text, and it does not end before it starts. -/
structure ByteRange.Cuts (text : List Char) (range : ByteRange) : Prop where
  ordered : range.start ≤ range.stop
  first : Boundary text range.start
  last : Boundary text range.stop

instance (text : List Char) (range : ByteRange) : Decidable (range.Cuts text) :=
  decidable_of_iff
    (range.start ≤ range.stop ∧ Boundary text range.start ∧ Boundary text range.stop)
    ⟨fun ⟨ordered, first, last⟩ => ⟨ordered, first, last⟩,
      fun ⟨ordered, first, last⟩ => ⟨ordered, first, last⟩⟩

/-- A replacement of whole characters that holds only whole characters of its own range. -/
structure Edit.SelfContained (text : List Char) (edit : Edit) : Prop where
  cuts : edit.range.Cuts text
  sources : ∀ source ∈ edit.emission.sources, source.Cuts text ∧ source.Within edit.range

instance (text : List Char) (edit : Edit) : Decidable (edit.SelfContained text) :=
  decidable_of_iff
    (edit.range.Cuts text ∧
      ∀ source ∈ edit.emission.sources, source.Cuts text ∧ source.Within edit.range)
    ⟨fun ⟨cuts, sources⟩ => ⟨cuts, sources⟩, fun ⟨cuts, sources⟩ => ⟨cuts, sources⟩⟩

namespace EditKey

/-- The bytes of the key. -/
def range (key : EditKey) : ByteRange :=
  ⟨key.start, key.stop⟩

/-- The number of bytes of the key. -/
def length (key : EditKey) : Nat :=
  key.stop - key.start

/-- Of two different ranges, one inside the other, the inner one is shorter. -/
theorem length_lt_of_within {inner outer : EditKey} (ordered : inner.start ≤ inner.stop)
    (within : inner.range.Within outer.range) (differ : inner ≠ outer) :
    inner.length < outer.length := by
  obtain ⟨starts, stops⟩ := within
  have apart : inner.start ≠ outer.start ∨ inner.stop ≠ outer.stop := by
    rw [← not_and_or]
    rintro ⟨sameStart, sameStop⟩
    cases inner
    cases outer
    exact differ (by simp_all)
  simp only [length, range] at *
  omega

end EditKey

namespace Edits

/-! ## What a range asks for -/

section Asking

variable {write write' : RangeWriter}

theorem exists_of_verdictOn_error {owner : EditKey} {sources : List ByteRange} {fault : RenderFault}
    (failed : verdictOn write owner sources = .error fault) :
    ∃ source ∈ sources, write source owner = .error fault := by
  induction sources with
  | nil => cases failed
  | cons source rest inductionHypothesis =>
      rw [← List.singleton_append, verdictOn_append, verdictOn_singleton] at failed
      cases written : write source owner with
      | error found =>
          rw [written] at failed
          obtain rfl : found = fault := Except.error.inj failed
          exact ⟨source, List.mem_cons_self, written⟩
      | ok made =>
          rw [written] at failed
          obtain ⟨other, member, atOther⟩ := inductionHypothesis failed
          exact ⟨other, List.mem_cons_of_mem _ member, atOther⟩

/-- An emission fails only where one of its source parts fails. -/
theorem exists_of_writeEmission_error {owner : EditKey} {emission : Emission} {fault : RenderFault}
    (failed : writeEmission write owner emission = .error fault) :
    ∃ source ∈ emission.sources, write source owner = .error fault := by
  have judged : verdict (writeEmission write owner emission) =
      verdictOn write owner emission.sources := verdict_writeEmission emission
  rw [failed] at judged
  exact exists_of_verdictOn_error judged.symm

mutual

/-- An emission is written alike by writers that agree on its source parts. -/
theorem writeEmission_congr {owner : EditKey} : ∀ emission : Emission,
    (∀ source ∈ emission.sources, write source owner = write' source owner) →
      writeEmission write owner emission = writeEmission write' owner emission
  | .name _, _ | .quoted _, _ | .identifier _, _ | .number _, _ => rfl
  | .source range, same => same range (by simp [Emission.sources])
  | .parens inner, same | .member inner _, same | .await inner, same => by
      simp only [writeEmission, writeEmission_congr inner same]
  | .call callee arguments, same => by
      simp only [Emission.sources, List.forall_mem_append] at same
      simp only [writeEmission, writeEmission_congr callee same.1,
        writeArguments_congr arguments same.2]

theorem writeArguments_congr {owner : EditKey} : ∀ arguments : Arguments,
    (∀ source ∈ arguments.sources, write source owner = write' source owner) →
      writeArguments write owner arguments = writeArguments write' owner arguments
  | .list items, same => by
      simp only [writeArguments, writeItems_congr items same]
  | .before first none, same => by
      simp only [Arguments.sources, Option.toList_none, List.append_nil] at same
      simp only [writeArguments, writeEmission_congr first same]
  | .before first (some range), same => by
      simp only [Arguments.sources, Option.toList_some, List.forall_mem_append,
        List.forall_mem_singleton] at same
      simp only [writeArguments, writeEmission_congr first same.1, same.2]

theorem writeItems_congr {owner : EditKey} : ∀ items : List Emission,
    (∀ source ∈ Emission.sourcesAll items, write source owner = write' source owner) →
      writeItems write owner items = writeItems write' owner items
  | [], _ => rfl
  | [last], same => by
      simp only [Emission.sourcesAll, List.append_nil] at same
      simp only [writeItems, writeEmission_congr last same]
  | item :: next :: rest, same => by
      rw [Emission.sourcesAll, List.forall_mem_append] at same
      simp only [writeItems, writeEmission_congr item same.1, writeItems_congr (next :: rest) same.2]

end

variable {text : List Char} {stop : Nat} {owner : Option EditKey} {entries : List Edit}

/-- Between boundaries the writing of a range fails only where a source part of a replacement in it
fails: the cursor stays on boundaries and never runs ahead of what is copied next. -/
theorem exists_of_writeFrom_error {cursor : Nat} {fault : RenderFault}
    (atCursor : Boundary text cursor) (atStop : Boundary text stop) (ordered : cursor ≤ stop)
    (cuts : ∀ edit ∈ entries, edit.range.Cuts text)
    (failed : writeFrom text write stop owner cursor entries = .error fault) :
    ∃ edit ∈ entries, edit.key.stop ≤ stop ∧ some edit.key ≠ owner ∧
      ∃ source ∈ edit.emission.sources, write source edit.key = .error fault := by
  induction entries generalizing cursor with
  | nil =>
      rw [writeFrom, copy_eq_ok atCursor atStop ordered] at failed
      cases failed
  | cons edit rest inductionHypothesis =>
      obtain ⟨cutsEdit, cutsRest⟩ := List.forall_mem_cons.mp cuts
      -- What fails behind this replacement fails in the rest.
      have later : ∀ {cursor : Nat}, Boundary text cursor → cursor ≤ stop →
          writeFrom text write stop owner cursor rest = .error fault → _ :=
        fun atNext orderedNext failedNext =>
          (inductionHypothesis atNext orderedNext cutsRest failedNext).imp
            fun other found => found.imp_left (List.mem_cons_of_mem edit)
      rw [writeFrom] at failed
      split at failed
      case isTrue behind =>
          rw [copy_eq_ok atCursor atStop ordered] at failed
          cases failed
      case isFalse inside =>
          split at failed
          case isTrue passed => exact later atCursor ordered failed
          case isFalse taken =>
              simp only [not_or, Nat.not_lt] at taken
              obtain ⟨notBefore, notOwner, fits⟩ := taken
              have copied : copy text ⟨cursor, edit.key.start⟩ = _ :=
                copy_eq_ok atCursor cutsEdit.first notBefore
              rw [copied] at failed
              cases written : writeEmission write edit.key edit.emission with
              | error found =>
                  rw [written] at failed
                  obtain rfl : found = fault := Except.error.inj failed
                  exact ⟨edit, List.mem_cons_self, fits, notOwner,
                    exists_of_writeEmission_error written⟩
              | ok replaced =>
                  rw [written] at failed
                  cases after : writeFrom text write stop owner edit.key.stop rest with
                  | error found =>
                      rw [after] at failed
                      obtain rfl : found = fault := Except.error.inj failed
                      exact later cutsEdit.last fits after
                  | ok behind =>
                      rw [after] at failed
                      cases failed

/-- A range is written alike by writers that agree on the source parts of the replacements in it. -/
theorem writeFrom_congr {cursor : Nat}
    (same : ∀ edit ∈ entries, edit.key.stop ≤ stop → some edit.key ≠ owner →
      ∀ source ∈ edit.emission.sources, write source edit.key = write' source edit.key) :
    writeFrom text write stop owner cursor entries =
      writeFrom text write' stop owner cursor entries := by
  induction entries generalizing cursor with
  | nil => rfl
  | cons edit rest inductionHypothesis =>
      obtain ⟨sameEdit, sameRest⟩ := List.forall_mem_cons.mp same
      rw [writeFrom, writeFrom]
      split
      · rfl
      · split
        · exact inductionHypothesis sameRest
        case isFalse taken =>
            simp only [not_or, Nat.not_lt] at taken
            rw [writeEmission_congr edit.emission (sameEdit taken.2.2 taken.2.1),
              inductionHypothesis sameRest]

end Asking

/-! ## How deep writing nests -/

/-- A range lies inside the replacement it is a source part of. -/
def BelongsTo (range : ByteRange) (owner : Option EditKey) : Prop :=
  ∀ key ∈ owner, range.Within key.range

/-- The number of replacements that can be written inside each other: in a source part of a
replacement only those that are shorter. -/
def room (edits : Edits) (owner : Option EditKey) : Nat :=
  edits.entries.countP fun edit => owner.all fun key => edit.key.length < key.length

theorem room_none (edits : Edits) : edits.room none = edits.size := by
  simp [room, size]

section Nesting

variable {edits : Edits} {text : List Char} {range : ByteRange} {owner : Option EditKey}

/-- There is less room in a replacement than in the range it is written in. -/
theorem room_lt_room {edit : Edit} (member : edit ∈ edits.entries)
    (ordered : edit.key.start ≤ edit.key.stop) (belongs : BelongsTo range owner)
    (within : edit.range.Within range) (notOwner : some edit.key ≠ owner) :
    edits.room (some edit.key) < edits.room owner := by
  have shorter : owner.all (fun key => edit.key.length < key.length) := by
    rw [Option.all_eq_true]
    intro key isOwner
    have around := belongs key isOwner
    have inside : edit.key.range.Within key.range :=
      ⟨Nat.le_trans around.1 within.1, Nat.le_trans within.2 around.2⟩
    refine decide_eq_true (EditKey.length_lt_of_within ordered inside ?_)
    rintro rfl
    exact notOwner (Option.mem_def.mp isOwner).symm
  have fewer : ∀ entries : List Edit,
      entries.countP (fun other => other.key.length < edit.key.length) ≤
        entries.countP (fun other => owner.all fun key => other.key.length < key.length) := by
    intro entries
    apply List.countP_mono_left
    intro other _ below
    rw [Option.all_eq_true] at shorter ⊢
    intro key isOwner
    have below := of_decide_eq_true below
    have above := of_decide_eq_true (shorter key isOwner)
    exact decide_eq_true (Nat.lt_trans below above)
  obtain ⟨before, after, split⟩ := List.append_of_mem member
  have atFront := fewer before
  have atBack := fewer after
  simp only [room, split, List.countP_append, List.countP_cons, Option.all_some, shorter,
    Nat.lt_irrefl, decide_false, Bool.false_eq_true, ↓reduceIte]
  omega

section Bounded

variable (contained : ∀ edit ∈ edits.entries, edit.SelfContained text)

include contained

/-- One step inwards: a source part of a replacement that is written in a range belongs to that
replacement and has less room. -/
theorem room_lt_of_source {edit : Edit} {source : ByteRange} (belongs : BelongsTo range owner)
    (member : edit ∈ edits.entries) (within : edit.range.Within range)
    (notOwner : some edit.key ≠ owner) (isSource : source ∈ edit.emission.sources) :
    source.Cuts text ∧ BelongsTo source (some edit.key) ∧
      edits.room (some edit.key) < edits.room owner := by
  have sound := contained edit member
  obtain ⟨cutsSource, inside⟩ := sound.sources source isSource
  refine ⟨cutsSource, ?_, room_lt_room member sound.cuts.ordered belongs within notOwner⟩
  rintro key ⟨⟩
  exact inside

/-- Writing fails only for want of depth, and then every replacement there was room for has been
nested. -/
theorem writeUpTo_error {depth : Nat} {fault : RenderFault} (cuts : range.Cuts text)
    (belongs : BelongsTo range owner)
    (failed : writeUpTo edits text depth range owner = .error fault) :
    fault = .endless ∧ depth ≤ edits.room owner := by
  induction depth generalizing range owner with
  | zero => exact ⟨(Except.error.inj failed).symm, Nat.zero_le _⟩
  | succ depth inductionHypothesis =>
      have cutsAll : ∀ edit ∈ edits.entries.filter fun edit => range.start ≤ edit.key.start,
          edit.range.Cuts text := by
        intro edit member
        exact (contained edit (List.mem_filter.mp member).1).cuts
      obtain ⟨edit, member, fits, notOwner, source, isSource, failedThere⟩ :=
        exists_of_writeFrom_error cuts.first cuts.last cuts.ordered cutsAll failed
      obtain ⟨inEntries, notBefore⟩ := List.mem_filter.mp member
      obtain ⟨cutsSource, belongsToEdit, less⟩ := room_lt_of_source contained belongs inEntries
        ⟨of_decide_eq_true notBefore, fits⟩ notOwner isSource
      obtain ⟨isEndless, deep⟩ := inductionHypothesis cutsSource belongsToEdit failedThere
      exact ⟨isEndless, by omega⟩

/-- Beyond the room there is, depth makes no difference. -/
theorem writeUpTo_eq_of_room_lt {depth depth' : Nat} (belongs : BelongsTo range owner)
    (enough : edits.room owner < depth) (enough' : edits.room owner < depth') :
    writeUpTo edits text depth range owner = writeUpTo edits text depth' range owner := by
  induction depth generalizing depth' range owner with
  | zero => exact absurd enough (Nat.not_lt_zero _)
  | succ depth inductionHypothesis =>
      obtain _ | depth' := depth'
      · exact absurd enough' (Nat.not_lt_zero _)
      apply writeFrom_congr
      intro edit member fits notOwner source isSource
      obtain ⟨inEntries, notBefore⟩ := List.mem_filter.mp member
      obtain ⟨-, belongsToEdit, less⟩ := room_lt_of_source contained belongs inEntries
        ⟨of_decide_eq_true notBefore, fits⟩ notOwner isSource
      exact inductionHypothesis belongsToEdit (by omega) (by omega)

end Bounded

end Nesting

/-- Replacements that hold parts of themselves can be written in every range of whole characters,
however they lie to each other. No piece that is copied on the way starts behind its end, reaches
past the text or splits a character, to whatever depth writing is followed. Writing is complete once
it may nest as deep as there are replacements, and no depth beyond that changes it. -/
theorem render_finishes {edits : Edits} {text : List Char} {range : ByteRange}
    (contained : ∀ edit ∈ edits.entries, edit.SelfContained text) (cuts : range.Cuts text) :
    (∃ written, edits.render text range = .ok written ∧
      ∀ depth, edits.size < depth → edits.writeUpTo text depth range none = .ok written) ∧
    ∀ depth, edits.writeUpTo text depth range none ≠ .error .badSlice := by
  have belongs : BelongsTo range none := by
    rintro key ⟨⟩
  refine ⟨?_, ?_⟩
  · cases written : edits.render text range with
    | error fault =>
        obtain ⟨-, deep⟩ := writeUpTo_error contained cuts belongs written
        rw [room_none] at deep
        exact absurd deep (Nat.not_succ_le_self _)
    | ok chars =>
        refine ⟨chars, rfl, ?_⟩
        intro depth enough
        rw [← written]
        apply writeUpTo_eq_of_room_lt contained belongs <;> rw [room_none]
        · exact enough
        · exact Nat.lt_succ_self _
  · intro depth failed
    cases (writeUpTo_error contained cuts belongs failed).1

/-- Replacements of a text with a character of two bytes: one that holds itself, two in it that
overlap, one that holds the empty end of its range, and an empty one. -/
theorem render_finishes_overlapping :
    let text := ['a', 'é', 'b', 'c']
    let edits := Edits.mk
      [ ⟨⟨0, 5⟩, .parens (.await (.source ⟨0, 5⟩))⟩,
        ⟨⟨0, 3⟩, .callWith (.source ⟨0, 3⟩) [.source ⟨1, 3⟩]⟩,
        ⟨⟨1, 4⟩, .name "x"⟩,
        ⟨⟨3, 5⟩, .callBefore (.source ⟨3, 4⟩) (.identifier "i") (some ⟨5, 5⟩)⟩,
        ⟨⟨4, 4⟩, .name "y"⟩ ]
    (∀ edit ∈ edits.entries, edit.SelfContained text) ∧
    edits.render text ⟨0, 5⟩ = .ok "(await aé(é)b('i'))".toList ∧
    edits.writeUpTo text 100 ⟨0, 5⟩ none = .ok "(await aé(é)b('i'))".toList := by
  intro text edits
  have contained : ∀ edit ∈ edits.entries, edit.SelfContained text := by decide +kernel
  have rendered : edits.render text ⟨0, 5⟩ = .ok "(await aé(é)b('i'))".toList := by decide +kernel
  obtain ⟨⟨written, same, deeper⟩, -⟩ := render_finishes contained
    (by decide +kernel : ByteRange.Cuts text ⟨0, 5⟩)
  rw [rendered, Except.ok.injEq] at same
  subst same
  exact ⟨contained, rendered, deeper 100 (by decide)⟩

end Edits

end PatternScript
