import Heritage.Typing.Rules

/-!
# The types of expressions, and what is wrong with them

An expression is checked at a `Site`: a point of a body of a class. Its type
depends on little – a binary operation is an integer whatever its operands
are, and a call has the type its method returns whatever its arguments are –
so it is a function of its own, `Site.type?`, and an expression without one
has been reported for it. What is wrong with an expression is the list
`Site.issues`, in the order in which a reader meets it, and an expression that
has no type causes no further issues around it.
-/

namespace Heritage

/-- **A point of a body**: where an expression stands. -/
structure Site where
  /-- The resolved table. -/
  table : SymbolTable
  /-- What is in scope. -/
  env : Env
  /-- The class of the receiver. -/
  cls : ClassId

/-- **What a call reaches.** -/
inductive Target where
  /-- The construction of an object of a class. -/
  | construct (c : ClassId)
  /-- A method, called on an object of a class that has it. -/
  | method (on : ClassId) (m : MethodId)
  /-- Nothing, with what is wrong if that was not reported elsewhere. -/
  | nothing (why : Option Issue)
deriving DecidableEq, Inhabited

namespace Site

/-- What a name denotes here. -/
def var (s : Site) (name : Ident) : Except Issue VarId :=
  s.table.variableNamed s.env s.cls name.text name.span

/-- The type of a variable here. The receiver is an object of the class that
the body belongs to. -/
def varType? (s : Site) (v : VarId) : Option Ty :=
  match (s.table.varAt v).kind with
  | .receiver => some (.cls s.cls)
  | _ => (s.table.varAt v).type

/-- What a call of a method on an object of a class reaches. -/
def methodTarget (s : Site) (cls : ClassId) (callee : Ident) : Target :=
  match s.table.methodNamed cls callee.text callee.span with
  | .ok (.found m) => .method cls m
  | .ok .ambiguous => .nothing none
  | .error i => .nothing (some i)

/-- What a call without a receiver reaches. A class by the name of the callee
comes before any method. -/
def callTarget (s : Site) (callee : Ident) : Target :=
  match s.table.lookupClass callee.text with
  | some c => .construct c
  | none => s.methodTarget s.cls callee

/-- What a call on a value of a type reaches. -/
def sendTarget (s : Site) (receiver : Option Ty) (callee : Ident) : Target :=
  match receiver with
  | none => .nothing none
  | some (.cls c) => s.methodTarget c callee
  | some type =>
    .nothing (some (.mismatch (.notAnObject callee.text (s.table.typeName type)) callee.span))

/-- The type of a call. -/
def targetType? (s : Site) : Target → Option Ty
  | .construct c => some (.cls c)
  | .method _ m => (s.table.methodAt m).returnType
  | .nothing _ => none

/-- A type that a value can have. -/
def asValue (type : Option Ty) : Option Ty :=
  type.filter (· != .void)

/-- **The type of an expression**, `void` for a call that gives no value. -/
def type? (s : Site) : Expr → Option Ty
  | .int value _ => if fitsInt value then some .int else none
  | .name ident =>
    match s.var ident with
    | .ok v => s.varType? v
    | .error _ => none
  | .self _ => some (.cls s.cls)
  | .binary .. => some .int
  | .call callee _ _ => s.targetType? (s.callTarget callee)
  | .send receiver callee _ _ =>
    s.targetType? (s.sendTarget (asValue (s.type? receiver)) callee)

/-- The type of an expression whose value is used. -/
def valueType? (s : Site) (e : Expr) : Option Ty :=
  asValue (s.type? e)

/-! ## Issues -/

/-- What is wrong with using the value of an expression, beyond what is wrong
with the expression. -/
def useIssues (s : Site) (e : Expr) : List Issue :=
  match s.type? e with
  | none => []
  | some type => (valueIssue? type e.span).toList

/-- What is wrong with storing the value of an expression where a type is
expected, beyond what is wrong with the value. -/
def storeIssues (s : Site) (e : Expr) (target : Option Ty) (use : String) : List Issue :=
  match s.valueType? e, target with
  | some source, some target => (s.table.storeIssue? source target use e.span).toList
  | _, _ => []

/-- What is wrong with the value of an expression as an operand, beyond what is
wrong with the value. -/
def operandIssues (s : Site) (op : BinOp) (e : Expr) : List Issue :=
  match s.valueType? e with
  | none => []
  | some type => (s.table.operandIssue? op type e.span).toList

/-- The type of the parameter that an argument of a call is passed for. -/
def paramType? (s : Site) (target : Target) (i : Nat) : Option Ty :=
  match target with
  | .method _ m => (s.table.explicitParams m)[i]?.bind fun v => (s.table.varAt v).type
  | _ => none

/-- What an argument of a call is for. -/
def argUse (s : Site) (target : Target) (i : Nat) : String :=
  match target with
  | .method _ m => "argument " ++ toString (i + 1) ++ " of " ++ quoted (s.table.qualifiedName m)
  | _ => ""

/-- What is wrong with a call apart from its receiver and arguments. -/
def targetIssues (s : Site) (callee : Ident) (got : Nat) (span : Span) : Target → List Issue
  | .construct _ => if got = 0 then [] else [.arity callee.text 0 got span]
  | .method _ m => (s.table.arityIssue? m got span).toList
  | .nothing why => why.toList

mutual
/-- **What is wrong with an expression.** -/
def issues (s : Site) : Expr → List Issue
  | .int value span => (literalIssue? value span).toList
  | .name ident =>
    match s.var ident with
    | .ok _ => []
    | .error i => [i]
  | .self _ => []
  | .binary op left right _ =>
    s.issues left ++ s.useIssues left ++ s.operandIssues op left
      ++ (s.issues right ++ s.useIssues right ++ s.operandIssues op right)
  | .call callee args span =>
    let target := s.callTarget callee
    s.targetIssues callee args.length span target ++ s.argIssues target 0 args
  | .send receiver callee args span =>
    let target := s.sendTarget (s.valueType? receiver) callee
    s.issues receiver ++ s.useIssues receiver
      ++ (s.targetIssues callee args.length span target ++ s.argIssues target 0 args)
/-- What is wrong with the arguments of a call from the given one on. -/
def argIssues (s : Site) (target : Target) (i : Nat) : List Expr → List Issue
  | [] => []
  | e :: rest =>
    s.issues e ++ s.useIssues e ++ s.storeIssues e (s.paramType? target i) (s.argUse target i)
      ++ s.argIssues target (i + 1) rest
end

/-- What is wrong with an expression whose value is used. -/
def valueIssues (s : Site) (e : Expr) : List Issue :=
  s.issues e ++ s.useIssues e

/-- What is wrong with an expression whose value is stored where a type is
expected. -/
def checkIssues (s : Site) (e : Expr) (target : Option Ty) (use : String) : List Issue :=
  s.valueIssues e ++ s.storeIssues e target use

end Site

end Heritage
