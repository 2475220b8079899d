/-!
# Options

What can be chosen about a compilation. None of it changes what is accepted:
the first two and the last shape the text, and the limit shortens the report.
-/

namespace Heritage

/-- **The options of a compilation.** -/
structure Options where
  /-- The number of spaces for each level of indentation. -/
  indentWidth : Nat := 4
  /-- Whether the text starts with a comment that says where it is from. -/
  banner : Bool := true
  /-- How many issues are kept at most. -/
  errorLimit : Option Nat := none
  /-- What the comment calls the program. -/
  unitName : String := "main"
deriving DecidableEq, Inhabited

end Heritage
