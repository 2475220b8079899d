import Heritage.Tree

/-!
# Issues

An issue is a cause with a place. The wording is chosen here and nowhere else:
the parts of the library that find issues name the cause and the words that
fill it, and `Issue.message` writes the text.

Causes are finer than kinds. Three different ways for a name to denote nothing
are one kind, and the kind `typeMismatch` has the many causes of `Mismatch`.
`Mismatch.other` and `Malformed.other` stand for issues that a front end
raises in words of its own.
-/

namespace Heritage

/-- The kinds into which issues are sorted. -/
inductive Kind where
  | duplicateDeclaration
  | unknownParentClass
  | cyclicInheritance
  | ambiguousMethodResolution
  | undeclaredIdentifier
  | typeMismatch
  | arityMismatch
  | unresolvedClass
  | malformedTree
deriving DecidableEq, Inhabited

namespace Kind

/-- The name of a kind, as reports show it. -/
def name : Kind → String
  | .duplicateDeclaration => "DuplicateDeclaration"
  | .unknownParentClass => "UnknownParentClass"
  | .cyclicInheritance => "CyclicInheritance"
  | .ambiguousMethodResolution => "AmbiguousMethodResolution"
  | .undeclaredIdentifier => "UndeclaredIdentifier"
  | .typeMismatch => "TypeMismatch"
  | .arityMismatch => "ArityMismatch"
  | .unresolvedClass => "UnresolvedClass"
  | .malformedTree => "MalformedTree"

/-- Every kind once. -/
def all : List Kind :=
  [.duplicateDeclaration, .unknownParentClass, .cyclicInheritance, .ambiguousMethodResolution,
    .undeclaredIdentifier, .typeMismatch, .arityMismatch, .unresolvedClass, .malformedTree]

/-- The kind with a given name. -/
def ofName? (s : String) : Option Kind :=
  all.find? fun k => k.name == s

end Kind

/-- A word between quotes, as messages show the words of a program. -/
def quoted (s : String) : String :=
  "'" ++ s ++ "'"

/-- **Why a type does not fit.** Types appear by their source spelling. -/
inductive Mismatch where
  /-- A variable, parameter or field of type `void`. -/
  | voidVariable (name : String)
  /-- A value stored where another type is expected. `use` says what for. -/
  | stored (use expected found : String)
  /-- The result of a method without one, used as a value. -/
  | voidValue
  /-- A literal outside the range of `int`. -/
  | literalRange (value : Int)
  /-- A condition that is no integer. -/
  | condition (found : String)
  /-- An operand that is no integer. -/
  | operand (op : BinOp) (found : String)
  /-- A bare return from a method with a result. -/
  | missingResult (method type : String)
  /-- A value returned from a method without a result. -/
  | unwantedResult (method : String)
  /-- A method called on a value that is no object. -/
  | notAnObject (method type : String)
  /-- An assignment to the receiver. -/
  | fixedReceiver (name : String)
  /-- Any other reason, in words. -/
  | other (text : String)
deriving DecidableEq, Inhabited

/-- The wording of a mismatch. -/
def Mismatch.text : Mismatch → String
  | .voidVariable name => quoted name ++ " cannot have type 'void'"
  | .stored use expected found =>
    use ++ ": expected " ++ quoted expected ++ ", found " ++ quoted found
  | .voidValue => "void value used where a value is required"
  | .literalRange value => "integer literal " ++ toString value ++ " does not fit in 'int'"
  | .condition found => "condition must be 'int', found " ++ quoted found
  | .operand op found =>
    "operator " ++ quoted op.symbol ++ " expects 'int' operands, found " ++ quoted found
  | .missingResult method type =>
    quoted method ++ " must return a value of type " ++ quoted type
  | .unwantedResult method => quoted method ++ " returns void but a value was returned"
  | .notAnObject method type =>
    "cannot call method " ++ quoted method ++ " on a value of type " ++ quoted type
  | .fixedReceiver name => "cannot assign to the receiver " ++ quoted name
  | .other text => text

/-- **Why a tree cannot be read**: it lacks a part, or it is not the tree its
symbols were collected from. -/
inductive Malformed where
  /-- A method without parameters. -/
  | noReceiver (method : String)
  /-- A method whose first parameter has a type. -/
  | typedReceiver (method : String)
  /-- A parameter after the first without a type. -/
  | untypedParam (param method : String)
  /-- A class that the tree does not hold. -/
  | noClass (cls : String)
  /-- A method that the tree does not hold. -/
  | noMethod (cls method : String)
  /-- A block for which no scope was collected. -/
  | noScope
  /-- A local that was not collected. -/
  | noLocal (name : String)
  /-- Any other reason, in words. -/
  | other (text : String)
deriving DecidableEq, Inhabited

/-- The wording of a malformed tree. -/
def Malformed.text : Malformed → String
  | .noReceiver method => "method " ++ quoted method ++ " has no receiver parameter"
  | .typedReceiver method =>
    "first parameter of method " ++ quoted method ++ " must be the untyped receiver"
  | .untypedParam param method =>
    "parameter " ++ quoted param ++ " of method " ++ quoted method ++ " has no type"
  | .noClass cls => "no declaration for class " ++ quoted cls
  | .noMethod cls method => "no declaration for method " ++ quoted (cls ++ "." ++ method)
  | .noScope => "block has no registered scope"
  | .noLocal name => "local " ++ quoted name ++ " was not collected"
  | .other text => text

/-- **Something wrong with a program**, and where. -/
inductive Issue where
  /-- A name declared twice where names are unique. `first` is where it was
  declared before. -/
  | duplicate (what name : String) (first span : Span)
  /-- A written parent that is no class. -/
  | unknownParent (cls parent : String) (span : Span)
  /-- A class that inherits from itself. -/
  | cyclic (cls : String) (span : Span)
  /-- A method that unrelated ancestors declare with different signatures. -/
  | ambiguous (cls method candidates : String) (span : Span)
  /-- A name that denotes no variable. -/
  | undeclared (name : String) (span : Span)
  /-- A written type that is none. -/
  | unknownType (name : String) (span : Span)
  /-- A method that a class does not have. -/
  | unknownMethod (method cls : String) (span : Span)
  /-- A type that does not fit. -/
  | mismatch (why : Mismatch) (span : Span)
  /-- A call with the wrong number of arguments. -/
  | arity (name : String) (expected got : Nat) (span : Span)
  /-- A class whose ancestry could not be resolved. -/
  | unresolved (cls : String) (span : Span)
  /-- A tree that cannot be read. -/
  | malformed (why : Malformed) (span : Span)
deriving DecidableEq, Inhabited

namespace Issue

/-- The kind of an issue. -/
def kind : Issue → Kind
  | .duplicate .. => .duplicateDeclaration
  | .unknownParent .. => .unknownParentClass
  | .cyclic .. => .cyclicInheritance
  | .ambiguous .. => .ambiguousMethodResolution
  | .undeclared .. => .undeclaredIdentifier
  | .unknownType .. => .undeclaredIdentifier
  | .unknownMethod .. => .undeclaredIdentifier
  | .mismatch .. => .typeMismatch
  | .arity .. => .arityMismatch
  | .unresolved .. => .unresolvedClass
  | .malformed .. => .malformedTree

/-- Where an issue points. -/
def span : Issue → Span
  | .duplicate _ _ _ span => span
  | .unknownParent _ _ span => span
  | .cyclic _ span => span
  | .ambiguous _ _ _ span => span
  | .undeclared _ span => span
  | .unknownType _ span => span
  | .unknownMethod _ _ span => span
  | .mismatch _ span => span
  | .arity _ _ _ span => span
  | .unresolved _ span => span
  | .malformed _ span => span

/-- The wording of an issue, without its place. -/
def text : Issue → String
  | .duplicate what name first _ =>
    "duplicate declaration of " ++ what ++ " " ++ quoted name ++ " (first declared at "
      ++ first.text ++ ")"
  | .unknownParent cls parent _ =>
    "class " ++ quoted cls ++ " inherits from unknown class " ++ quoted parent
  | .cyclic cls _ => "circular inheritance for " ++ quoted cls
  | .ambiguous cls method candidates _ =>
    "ambiguous method " ++ quoted method ++ " in class " ++ quoted cls ++ ": inherited from "
      ++ candidates
  | .undeclared name _ => "undeclared identifier " ++ quoted name
  | .unknownType name _ => "unknown type " ++ quoted name
  | .unknownMethod method cls _ =>
    "unknown method " ++ quoted method ++ " on type " ++ quoted cls
  | .mismatch why _ => why.text
  | .arity name expected got _ =>
    quoted name ++ " expects " ++ toString expected ++ " argument(s), got " ++ toString got
  | .unresolved cls _ => "class " ++ quoted cls ++ " has an unresolved inheritance chain"
  | .malformed why _ => "malformed syntax tree: " ++ why.text

/-- **The message of an issue**: its place, then its wording. -/
def message (i : Issue) : String :=
  "at " ++ i.span.text ++ ": " ++ i.text

end Issue

end Heritage
