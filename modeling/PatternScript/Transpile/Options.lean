/-!
Contract: what a user may choose about a transpilation.

Owns: the choices and what they are if nothing is said.
Does not own: how choices are read from files or arguments.
-/

namespace PatternScript

/-- The choices for one transpilation. -/
structure Options where
  /-- Put the program into a function that is called at once and may await. -/
  wrapAsync : Bool := false
  /-- Return the value of the last statement. -/
  addReturn : Bool := true
  /-- Report the spans of notation leaves. -/
  emitLocations : Bool := true
  /-- Report the controls. -/
  emitWidgets : Bool := true
  /-- Leads the identifiers of controls that are method calls. -/
  callerId : Option String := none
deriving DecidableEq, Repr, Inhabited

end PatternScript
