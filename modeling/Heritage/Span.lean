/-!
# Places and words of the source

Every node of a tree carries the place it came from, and every word of a
program – a class name, a variable, a written type – carries its own. The
two are independent: a node's span is the one it was given and is never
computed from the spans of its parts, so an issue can say exactly which of
the two it points at.
-/

namespace Heritage

/-- **Where a piece of source stands**: the line and column of its first
character and its length. The default, all zero, is the place of what was
never written down. -/
structure Span where
  /-- Line, counted from one. -/
  line : Nat := 0
  /-- Column, counted from one. -/
  col : Nat := 0
  /-- Length in bytes. -/
  len : Nat := 0
deriving DecidableEq, Inhabited

/-- The form a place has in messages, `line:col`. The length is not shown. -/
def Span.text (s : Span) : String :=
  toString s.line ++ ":" ++ toString s.col

/-- **A word of the source with its place**: the name of a class, a member
or a variable, or a type as it was written. -/
structure Ident where
  /-- The word itself. Nothing is asked of its characters. -/
  text : String
  /-- Where it was written. -/
  span : Span := {}
deriving DecidableEq, Inhabited

end Heritage
