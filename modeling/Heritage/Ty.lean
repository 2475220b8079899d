import Heritage.Span

/-!
# Types

A type is one of the two primitives or a class. Classes, like every symbol of
a table, are named by their position in it, so a class type is a number and
two types are equal exactly when they are the same.
-/

namespace Heritage

/-- The position of a class among the classes of a table. -/
abbrev ClassId := Nat

/-- The position of a method among the methods of a table. -/
abbrev MethodId := Nat

/-- The position of a variable among the variables of a table. -/
abbrev VarId := Nat

/-- The position of a scope among the scopes of a table. -/
abbrev ScopeId := Nat

/-- The four sorts of symbols a table numbers. -/
inductive SymbolSort where
  | cls | method | var | scope
deriving DecidableEq, Inhabited

/-- A symbol as messages name it: its sort and its position. -/
def SymbolSort.label (s : SymbolSort) (index : Nat) : String :=
  (match s with
    | .cls => "class#"
    | .method => "method#"
    | .var => "var#"
    | .scope => "scope#") ++ toString index

/-- **A type.** `void` is the type of a call that gives no value. -/
inductive Ty where
  | int
  | void
  | cls (c : ClassId)
deriving DecidableEq, Inhabited

namespace Ty

/-- The word for a primitive type. -/
def keyword? : Ty → Option String
  | .int => some "int"
  | .void => some "void"
  | .cls _ => none

/-- The primitive type a word stands for. -/
def ofKeyword? (s : String) : Option Ty :=
  if s = "int" then some .int
  else if s = "void" then some .void
  else none

end Ty

end Heritage
