import Heritage.C.Name
import Heritage.Tree

/-!
# Reaching the parts of an object

The struct of a class holds the struct of each of its parents as a part. An
object of a class, given by a pointer, is used as an object of an ancestor by
the address of a part inside it, and an inherited field is a member of such a
part. Both follow the path from the class to the ancestor, part by part.
-/

namespace Heritage.C

/-- The members that lead along a path, part by part. -/
def partChain (t : SymbolTable) (path : List ClassId) : String :=
  ".".intercalate (path.map fun c => partName (t.classAt c).name)

/-- Whether a text starts like a word. A name, a member access and a call do,
and bind tighter than the arrow. -/
def startsWord (code : String) : Bool :=
  match code.toList.head? with
  | some c => c.isAlpha || c == '_'
  | none => false

/-- A text as the left side of an arrow. -/
def arrowOperand (code : String) : String :=
  if startsWord code then code else "(" ++ code ++ ")"

/-- **A pointer to an object of a class as a pointer to an object of an
ancestor.** Without a path, or with nowhere to go, it stays as it is. -/
def upcast (t : SymbolTable) (code : String) (source target : ClassId) : String :=
  match t.basePath source target with
  | none => code
  | some [] => code
  | some path => "&" ++ arrowOperand code ++ "->" ++ partChain t path

/-- A value of a type as a value of another. -/
def convert (t : SymbolTable) (code : String) (source : Option Ty) (target : Ty) : String :=
  match source, target with
  | some (.cls c), .cls a => upcast t code c a
  | _, _ => code

/-- **The field of the receiver**, from a body of a class that has it. -/
def fieldAccess (t : SymbolTable) (cls : ClassId) (field : VarId) : String :=
  let name := ident (t.varAt field).name
  match ((t.fieldOwner field).bind (t.basePath cls)).getD [] with
  | [] => receiver ++ "->" ++ name
  | path => receiver ++ "->" ++ partChain t path ++ "." ++ name

/-- The text of an expression that stands alone. A binary operation needs its
outer parentheses only inside another expression. -/
def standalone (e : Expr) (code : String) : String :=
  match e, code.toList with
  | .binary .., '(' :: rest =>
    if rest.getLast? = some ')' then String.ofList rest.dropLast else code
  | _, _ => code

end Heritage.C
