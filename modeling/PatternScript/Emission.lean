import PatternScript.Source.Span

/-!
Contract: the expressions that take the place of parts of a program.

An emission is mostly made of source text: `source` stands for a part of the program with all its
own replacements made, so that what wraps a part of the program need not know what happens inside.

Owns: emissions and their abbreviations.
Does not own: their text.
-/

namespace PatternScript

mutual

/-- An expression to be written into a program. -/
inductive Emission where
  /-- A name, written as it is. -/
  | name (text : String)
  /-- A string literal in double quotes. -/
  | quoted (value : String)
  /-- A string literal in single quotes, used for widget identifiers. -/
  | identifier (value : String)
  /-- A natural number. -/
  | number (value : Nat)
  /-- A part of the program. -/
  | source (range : ByteRange)
  /-- An expression in parentheses. -/
  | parens (inner : Emission)
  /-- A call. -/
  | call (callee : Emission) (arguments : Arguments)
  /-- A member of an object. -/
  | member (object : Emission) (property : String)
  /-- An awaited expression. -/
  | await (inner : Emission)

/-- The arguments of an emitted call. -/
inductive Arguments where
  /-- Just these. -/
  | list (items : List Emission)
  /-- A new first argument before the argument text of the program. -/
  | before (first : Emission) (rest : Option ByteRange)

end

namespace Emission

/-- A call with emitted arguments. -/
def callWith (callee : Emission) (arguments : List Emission) : Emission :=
  .call callee (.list arguments)

/-- A call with a new first argument. -/
def callBefore (callee first : Emission) (rest : Option ByteRange) : Emission :=
  .call callee (.before first rest)

/-- A call of a method. -/
def method (object : Emission) (property : String) (arguments : List Emission) : Emission :=
  callWith (.member object property) arguments

end Emission

end PatternScript
