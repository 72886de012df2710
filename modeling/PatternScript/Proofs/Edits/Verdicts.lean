import Mathlib.Data.List.Forall2
import PatternScript.Proofs.Edits.Trace

/-!
Contract: whether a range can be written.

The text of an emission is made of fixed texts and of source parts, and only source parts can fail. So
whether a range can be written, and why not if it cannot, is decided by the keys of the replacements
and by their source parts, whatever else they write.

Owns: verdicts on results, replacements with the same source parts, and their verdicts.
Does not own: what is written.
-/

namespace PatternScript

/-- Whether something was made, or why not. -/
def verdict {ε α : Type} (result : Except ε α) : Except ε Unit :=
  result.map fun _ => ()

/-- What is made in two steps is decided step by step. -/
theorem verdict_bind {ε α β α' β' : Type} {first : Except ε α} {first' : Except ε α'}
    {next : α → Except ε β} {next' : α' → Except ε β'} (atFirst : verdict first = verdict first')
    (atNext : ∀ made made', verdict (next made) = verdict (next' made')) :
    verdict (first >>= next) = verdict (first' >>= next') := by
  cases first with
  | error fault =>
      cases first' with
      | error fault' =>
          obtain rfl : fault = fault' := Except.error.inj atFirst
          rfl
      | ok made' => cases atFirst
  | ok made =>
      cases first' with
      | error fault' => cases atFirst
      | ok made' => exact atNext made made'

/-- Two replacements of the same range hold the same parts of the program. -/
def Edit.SameFrame (left right : Edit) : Prop :=
  left.key = right.key ∧ left.emission.sources = right.emission.sources

namespace Edits

/-- The verdict on some source parts of a replacement. -/
def verdictOn (write : RangeWriter) (owner : EditKey) (sources : List ByteRange) :
    Except RenderFault Unit :=
  sources.forM fun range => verdict (write range owner)

section Emissions

variable {write : RangeWriter} {owner : EditKey}

theorem verdictOn_append (sources more : List ByteRange) :
    verdictOn write owner (sources ++ more) =
      (verdictOn write owner sources >>= fun _ => verdictOn write owner more) := by
  simp [verdictOn]

theorem verdictOn_singleton (range : ByteRange) :
    verdictOn write owner [range] = verdict (write range owner) := by
  show (verdict (write range owner) >>= fun _ => pure ()) = verdict (write range owner)
  cases write range (some owner) <;> rfl

mutual

/-- An emission can be written if its source parts can. -/
theorem verdict_writeEmission : ∀ emission : Emission,
    verdict (writeEmission write owner emission) = verdictOn write owner emission.sources
  | .name _ | .quoted _ | .identifier _ | .number _ => rfl
  | .source range => by
      rw [writeEmission, Emission.sources, verdictOn_singleton]
  | .parens inner | .member inner _ | .await inner => by
      simp only [writeEmission, Emission.sources, ← verdict_writeEmission inner]
      cases writeEmission write owner inner <;> rfl
  | .call callee arguments => by
      simp only [writeEmission, Emission.sources, verdictOn_append, ← verdict_writeEmission callee,
        ← verdict_writeArguments arguments]
      cases writeEmission write owner callee with
      | error fault => rfl
      | ok function => cases writeArguments write owner arguments <;> rfl

theorem verdict_writeArguments : ∀ arguments : Arguments,
    verdict (writeArguments write owner arguments) = verdictOn write owner arguments.sources
  | .list items => by
      rw [writeArguments, Arguments.sources, verdict_writeItems items]
  | .before first none => by
      rw [writeArguments, Arguments.sources, Option.toList_none, List.append_nil,
        verdict_writeEmission first]
  | .before first (some range) => by
      simp only [writeArguments, Arguments.sources, verdictOn_append, ← verdict_writeEmission first]
      cases writeEmission write owner first with
      | error fault => rfl
      | ok written =>
          rw [Option.toList_some, verdictOn_singleton]
          cases write range (some owner) <;> rfl

theorem verdict_writeItems : ∀ items : List Emission,
    verdict (writeItems write owner items) = verdictOn write owner (Emission.sourcesAll items)
  | [] => rfl
  | [last] => by
      rw [writeItems, Emission.sourcesAll, Emission.sourcesAll, List.append_nil,
        verdict_writeEmission last]
  | item :: next :: rest => by
      rw [writeItems, Emission.sourcesAll, verdictOn_append, ← verdict_writeEmission item,
        ← verdict_writeItems (next :: rest)]
      · cases writeEmission write owner item with
        | error fault => rfl
        | ok written => cases writeItems write owner (next :: rest) <;> rfl
      · simp

end

end Emissions

section Ranges

variable {write write' : RangeWriter} {entries entries' : List Edit}

theorem verdict_writeFrom (text : List Char) (stop : Nat) (owner : Option EditKey)
    (sameWriters : ∀ range owner, verdict (write range owner) = verdict (write' range owner))
    (sameFrames : List.Forall₂ Edit.SameFrame entries entries') (cursor : Nat) :
    verdict (writeFrom text write stop owner cursor entries) =
      verdict (writeFrom text write' stop owner cursor entries') := by
  induction sameFrames generalizing cursor with
  | nil => rfl
  | @cons edit edit' rest rest' sameFrame _ inductionHypothesis =>
      obtain ⟨sameKey, sameSources⟩ := sameFrame
      have replaced : verdict (writeEmission write edit'.key edit.emission) =
          verdict (writeEmission write' edit'.key edit'.emission) := by
        rw [verdict_writeEmission, verdict_writeEmission, sameSources]
        simp only [verdictOn, sameWriters]
      rw [writeFrom, writeFrom, sameKey]
      split
      · rfl
      · split
        · exact inductionHypothesis cursor
        · apply verdict_bind rfl
          intro before before'
          apply verdict_bind replaced
          intro written written'
          exact verdict_bind (inductionHypothesis _) fun _ _ => rfl

theorem verdict_writeUpTo {edits edits' : Edits} (text : List Char)
    (sameFrames : List.Forall₂ Edit.SameFrame edits.entries edits'.entries) (depth : Nat)
    (range : ByteRange) (owner : Option EditKey) :
    verdict (writeUpTo edits text depth range owner) =
      verdict (writeUpTo edits' text depth range owner) := by
  induction depth generalizing range owner with
  | zero => rfl
  | succ depth inductionHypothesis =>
      apply verdict_writeFrom text range.stop owner inductionHypothesis
      apply List.rel_filter _ sameFrames
      intro edit edit' sameFrame
      simp only [sameFrame.1]

/-- Whether a range can be written depends on the frames of the replacements alone. -/
theorem verdict_render {edits edits' : Edits} (text : List Char)
    (sameFrames : List.Forall₂ Edit.SameFrame edits.entries edits'.entries) (range : ByteRange) :
    verdict (edits.render text range) = verdict (edits'.render text range) := by
  rw [render, render, size, size, sameFrames.length_eq]
  exact verdict_writeUpTo text sameFrames _ range none

/-- Replacements with the same frames are put into the same places. -/
theorem forall₂_insert {edit edit' : Edit} (sameFrame : edit.SameFrame edit')
    (sameFrames : List.Forall₂ Edit.SameFrame entries entries') :
    List.Forall₂ Edit.SameFrame (insert edit entries) (insert edit' entries') := by
  induction sameFrames with
  | nil => exact .cons sameFrame .nil
  | cons atHead behind inductionHypothesis =>
      rw [insert, insert, sameFrame.1, atHead.1]
      split
      · exact .cons sameFrame behind
      · split
        · exact .cons sameFrame (.cons atHead behind)
        · exact .cons atHead inductionHypothesis

end Ranges

end Edits

end PatternScript
