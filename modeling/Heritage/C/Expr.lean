import Heritage.C.Path
import Heritage.Typing.Expr

/-!
# Expressions in C

The C text of an expression at a site. It is a function of its own, beside the
type and the issues: text is written whatever is wrong with the expression,
and where there is nothing to write – a name that denotes nothing, a call that
reaches nothing, the value of a call that gives none – it is empty.

A binary operation is written in parentheses, and keeps them unless it stands
alone. A method is called as the function of the class that declares it, with
the receiver converted to that class; a construction is the address of a
zeroed compound literal.
-/

namespace Heritage.Site

open C (convert fieldAccess functionName standalone upcast)

/-- The text of a variable. -/
def varCode (s : Site) (v : VarId) : String :=
  match (s.table.varAt v).kind with
  | .receiver => C.receiver
  | .field => fieldAccess s.table s.cls v
  | _ => C.ident (s.table.varAt v).name

/-- The text of an expression whose value is used, given its text. -/
def valueText (s : Site) (e : Expr) (code : String) : String :=
  if s.type? e = some .void then "" else code

/-- The text of an expression whose value is stored where a type is expected,
given the text of its value. A value that does not fit is left as it is. -/
def storeText (s : Site) (e : Expr) (target : Option Ty) (code : String) : String :=
  match s.valueType? e, target with
  | some source, some target =>
    if s.table.isCompatible source target then
      standalone e (convert s.table code (some source) target)
    else code
  | _, _ => standalone e code

/-- The text of a call, given that of its receiver and of its arguments, each
of which brings its comma. -/
def callText (s : Site) (receiver args : String) : Target → String
  | .construct c => "&(" ++ C.ident (s.table.classAt c).name ++ ")\x7b0\x7d"
  | .nothing _ => ""
  | .method on m =>
    if (s.table.methodAt m).returnType.isNone then ""
    else
      let owner := (s.table.methodAt m).owner
      functionName (s.table.classAt owner).name (s.table.methodAt m).name
        ++ "(" ++ upcast s.table receiver on owner ++ args ++ ")"

mutual
/-- **The C text of an expression.** -/
def code (s : Site) : Expr → String
  | .int value _ => if fitsInt value then toString value else ""
  | .name ident =>
    match s.var ident with
    | .ok v => s.varCode v
    | .error _ => ""
  | .self _ => C.receiver
  | .binary op left right _ =>
    "(" ++ s.valueText left (s.code left) ++ " " ++ op.symbol ++ " "
      ++ s.valueText right (s.code right) ++ ")"
  | .call callee args _ =>
    let target := s.callTarget callee
    s.callText C.receiver (s.argsCode target 0 args) target
  | .send receiver callee args _ =>
    let target := s.sendTarget (s.valueType? receiver) callee
    s.callText (s.valueText receiver (s.code receiver)) (s.argsCode target 0 args) target
/-- The C text of the arguments of a call from the given one on, each after a
comma. -/
def argsCode (s : Site) (target : Target) (i : Nat) : List Expr → String
  | [] => ""
  | e :: rest =>
    ", " ++ s.storeText e (s.paramType? target i) (s.valueText e (s.code e))
      ++ s.argsCode target (i + 1) rest
end

/-- The C text of an expression whose value is used. -/
def valueCode (s : Site) (e : Expr) : String :=
  s.valueText e (s.code e)

/-- The C text of an expression whose value is stored where a type is
expected. -/
def checkCode (s : Site) (e : Expr) (target : Option Ty) : String :=
  s.storeText e target (s.valueCode e)

end Heritage.Site
