import PatternScript.Proofs.Edits.Order

/-!
Contract: rendering that keeps a record of the replacements it makes.

The traced writer is the writer with one addition: beside the text it answers which replacements
were written, in the order in which their writing starts. A replacement is followed by those written
inside its source parts.

Owns: the source parts of an emission, traced writing, and that its text is the text that is
rendered.
Does not own: which replacements are written.
-/

namespace PatternScript

mutual

/-- The parts of the program that an emission holds, in the order in which they are written. -/
def Emission.sources : Emission → List ByteRange
  | .name _ | .quoted _ | .identifier _ | .number _ => []
  | .source range => [range]
  | .parens inner => inner.sources
  | .call callee arguments => callee.sources ++ arguments.sources
  | .member object _ => object.sources
  | .await inner => inner.sources

/-- The parts of the program among the arguments of an emitted call. -/
def Arguments.sources : Arguments → List ByteRange
  | .list items => Emission.sourcesAll items
  | .before first rest => first.sources ++ rest.toList

/-- The parts of the program that some emissions hold. -/
def Emission.sourcesAll : List Emission → List ByteRange
  | [] => []
  | item :: rest => item.sources ++ Emission.sourcesAll rest

end

namespace Edits

/-- A text, and the replacements that were made in it. -/
structure Traced where
  text : List Char
  applied : List Edit

namespace Traced

/-- One traced text behind another. -/
def append (first second : Traced) : Traced :=
  ⟨first.text ++ second.text, first.applied ++ second.applied⟩

end Traced

/-- How a range is written, together with the replacements that are made. -/
abbrev TracedWriter := ByteRange → Option EditKey → Except RenderFault Traced

namespace TracedWriter

/-- The text alone. -/
def plain (write : TracedWriter) : RangeWriter :=
  fun range owner => (write range owner).map Traced.text

/-- The replacements alone; none if the range cannot be written. -/
def applied (write : TracedWriter) (range : ByteRange) (owner : Option EditKey) : List Edit :=
  match write range owner with
  | .ok traced => traced.applied
  | .error _ => []

end TracedWriter

/-- A piece of the text, in which nothing is replaced. -/
def traceCopy (text : List Char) (range : ByteRange) : Except RenderFault Traced :=
  (copy text range).map fun chars => ⟨chars, []⟩

mutual

/-- Traced writing of an emission that belongs to the replacement `owner`. -/
def traceEmission (write : TracedWriter) (owner : EditKey) :
    Emission → Except RenderFault Traced
  | .name text => .ok ⟨text.toList, []⟩
  | .quoted value => .ok ⟨Text.quoteDouble value.toList, []⟩
  | .identifier value => .ok ⟨Text.quoteSingle value.toList, []⟩
  | .number value => .ok ⟨Nat.toDigits 10 value, []⟩
  | .source range => write range (some owner)
  | .parens inner => do
      let written ← traceEmission write owner inner
      return ⟨'(' :: written.text ++ [')'], written.applied⟩
  | .call callee arguments => do
      let function ← traceEmission write owner callee
      let given ← traceArguments write owner arguments
      return ⟨function.text ++ '(' :: given.text ++ [')'], function.applied ++ given.applied⟩
  | .member object property => do
      let written ← traceEmission write owner object
      return ⟨written.text ++ '.' :: property.toList, written.applied⟩
  | .await inner => do
      let written ← traceEmission write owner inner
      return ⟨"await ".toList ++ written.text, written.applied⟩

/-- Traced writing between the parentheses of an emitted call. -/
def traceArguments (write : TracedWriter) (owner : EditKey) :
    Arguments → Except RenderFault Traced
  | .list items => traceItems write owner items
  | .before first none => traceEmission write owner first
  | .before first (some range) => do
      let written ← traceEmission write owner first
      let given ← write range (some owner)
      let rest := Text.trimLeft given.text
      return ⟨if rest.isEmpty then written.text else written.text ++ ", ".toList ++ rest,
        written.applied ++ given.applied⟩

/-- Traced writing of emitted arguments with commas between them. -/
def traceItems (write : TracedWriter) (owner : EditKey) :
    List Emission → Except RenderFault Traced
  | [] => .ok ⟨[], []⟩
  | [last] => traceEmission write owner last
  | item :: rest => do
      let written ← traceEmission write owner item
      let more ← traceItems write owner rest
      return ⟨written.text ++ ", ".toList ++ more.text, written.applied ++ more.applied⟩

end

/-- The text of a range from `cursor` on with the replacements made, given those that do not start
before the range. -/
def traceFrom (text : List Char) (write : TracedWriter) (stop : Nat) (owner : Option EditKey) :
    (cursor : Nat) → List Edit → Except RenderFault Traced
  | cursor, [] => traceCopy text ⟨cursor, stop⟩
  | cursor, edit :: rest =>
      if stop ≤ edit.key.start then traceCopy text ⟨cursor, stop⟩
      else if edit.key.start < cursor ∨ some edit.key = owner ∨ stop < edit.key.stop then
        traceFrom text write stop owner cursor rest
      else do
        let before ← copy text ⟨cursor, edit.key.start⟩
        let replaced ← traceEmission write edit.key edit.emission
        let after ← traceFrom text write stop owner edit.key.stop rest
        return {
          text := before ++ replaced.text ++ after.text
          applied := edit :: replaced.applied ++ after.applied }

/-- Traced writing with source parts nested at most `depth` deep. -/
def traceUpTo (edits : Edits) (text : List Char) : (depth : Nat) → TracedWriter
  | 0 => fun _ _ => .error .endless
  | depth + 1 => fun range owner =>
      traceFrom text (traceUpTo edits text depth) range.stop owner range.start
        (edits.entries.filter fun edit => range.start ≤ edit.key.start)

/-- The text of a range with all replacements made, and the replacements that were made. -/
def trace (edits : Edits) (text : List Char) (range : ByteRange) : Except RenderFault Traced :=
  traceUpTo edits text (edits.size + 1) range none

/-! ## Emissions -/

section Emissions

variable {write : TracedWriter} {owner : EditKey}

/-- What is written for some source parts of a replacement. -/
def appliedIn (write : TracedWriter) (owner : EditKey) (sources : List ByteRange) : List Edit :=
  sources.flatMap fun range => write.applied range owner

mutual

/-- A traced emission is its text with the replacements made in its source parts. -/
theorem traceEmission_eq : ∀ emission : Emission,
    traceEmission write owner emission =
      (writeEmission write.plain owner emission).map fun text =>
        ⟨text, appliedIn write owner emission.sources⟩
  | .name _ | .quoted _ | .identifier _ | .number _ => rfl
  | .source range => by
      simp only [traceEmission, writeEmission, TracedWriter.plain, appliedIn, Emission.sources,
        List.flatMap_cons, List.flatMap_nil, TracedWriter.applied]
      cases write range (some owner) <;> simp [Except.map]
  | .parens inner | .member inner _ | .await inner => by
      simp only [traceEmission, writeEmission, Emission.sources, traceEmission_eq inner]
      cases writeEmission write.plain owner inner <;> rfl
  | .call callee arguments => by
      simp only [traceEmission, writeEmission, Emission.sources, traceEmission_eq callee,
        traceArguments_eq arguments]
      cases writeEmission write.plain owner callee with
      | error fault => rfl
      | ok function =>
          cases writeArguments write.plain owner arguments <;>
            simp [appliedIn, Except.map, bind, Except.bind, pure, Except.pure]

theorem traceArguments_eq : ∀ arguments : Arguments,
    traceArguments write owner arguments =
      (writeArguments write.plain owner arguments).map fun text =>
        ⟨text, appliedIn write owner arguments.sources⟩
  | .list items => by
      simp only [traceArguments, writeArguments, Arguments.sources, traceItems_eq items]
  | .before first none => by
      simp only [traceArguments, writeArguments, Arguments.sources, traceEmission_eq first,
        Option.toList_none, List.append_nil]
  | .before first (some range) => by
      simp only [traceArguments, writeArguments, Arguments.sources, traceEmission_eq first]
      cases writeEmission write.plain owner first with
      | error fault => rfl
      | ok written =>
          cases given : write range (some owner) <;>
            simp [appliedIn, TracedWriter.plain, TracedWriter.applied, given, Except.map, bind,
              Except.bind, pure, Except.pure]

theorem traceItems_eq : ∀ items : List Emission,
    traceItems write owner items =
      (writeItems write.plain owner items).map fun text =>
        ⟨text, appliedIn write owner (Emission.sourcesAll items)⟩
  | [] => rfl
  | [last] => by
      simp only [traceItems, writeItems, Emission.sourcesAll, traceEmission_eq last,
        List.append_nil]
  | item :: next :: rest => by
      simp only [traceItems, writeItems, traceEmission_eq item, traceItems_eq (next :: rest)]
      cases writeEmission write.plain owner item with
      | error fault => rfl
      | ok written =>
          cases writeItems write.plain owner (next :: rest) <;>
            simp [appliedIn, Emission.sourcesAll, Except.map, bind, Except.bind, pure, Except.pure]

end

end Emissions

/-! ## The text of a trace -/

theorem map_text_traceFrom (text : List Char) (write : TracedWriter) (stop : Nat)
    (owner : Option EditKey) (cursor : Nat) (entries : List Edit) :
    (traceFrom text write stop owner cursor entries).map Traced.text =
      writeFrom text write.plain stop owner cursor entries := by
  have copied : ∀ range, (traceCopy text range).map Traced.text = copy text range := by
    intro range
    unfold traceCopy
    cases copy text range <;> rfl
  induction entries generalizing cursor with
  | nil => exact copied _
  | cons edit rest inductionHypothesis =>
      simp only [traceFrom, writeFrom]
      split
      · exact copied _
      · split
        · exact inductionHypothesis cursor
        · rw [← inductionHypothesis edit.key.stop, traceEmission_eq]
          cases copy text ⟨cursor, edit.key.start⟩ with
          | error fault => rfl
          | ok before =>
              cases writeEmission write.plain edit.key edit.emission with
              | error fault => rfl
              | ok replaced =>
                  cases traceFrom text write stop owner edit.key.stop rest <;> rfl

theorem plain_traceUpTo (edits : Edits) (text : List Char) (depth : Nat) :
    (traceUpTo edits text depth).plain = writeUpTo edits text depth := by
  induction depth with
  | zero => rfl
  | succ depth inductionHypothesis =>
      funext range owner
      simp only [TracedWriter.plain, traceUpTo, writeUpTo, map_text_traceFrom]
      rw [inductionHypothesis]

/-- The text of the trace is the text that is rendered. -/
theorem map_text_trace (edits : Edits) (text : List Char) (range : ByteRange) :
    (trace edits text range).map Traced.text = render edits text range := by
  unfold trace render
  rw [← plain_traceUpTo]
  rfl

end Edits

end PatternScript
