import PatternScript.Transpile.Ending
import PatternScript.Transpile.Pass
import PatternScript.Transpile.Reading

/-!
Contract: transpiling a program of patterns to plain JavaScript.

Owns: the whole way from a text to its result.
Does not own: reading a program, collecting its replacements and writing it, of which this is made.
-/

namespace PatternScript

/-- Transpiles the program that a syntax tree stands for. -/
def transpileTree (source : SourceText) (tree : Script.Node) (options : Options)
    (registry : Registry) : Except TranspileError Transpiled := do
  let pass := Pass.ofTree ⟨source, registry, options⟩ tree
  let output ← Ending.text source tree pass.edits options
  return {
    output := String.ofList output
    locations := if options.emitLocations then some pass.locations else none
    widgets := if options.emitWidgets then some pass.widgets else none }

/-- Transpiles a program text. -/
def transpile (text : String) (options : Options) (registry : Registry) :
    Except TranspileError Transpiled := do
  let source := SourceText.ofString text
  let tree ← readProgram source
  transpileTree source tree options registry

end PatternScript
