import Heritage.Env
import Heritage.Issue

/-!
# Rules

The questions that checking a body asks of a resolved table, one rule each:
what a name denotes, which method a call reaches, whether a value may stand
where it stands. A rule answers with the issue it finds, if it finds one, and
leaves the table as it is.

A class whose ancestry is broken is not blamed for members that it might have
inherited: a name that it does not have is an issue of the class, not of the
name.
-/

namespace Heritage

/-- What a method name denotes in a class. -/
inductive MethodLookup where
  /-- A method. -/
  | found (m : MethodId)
  /-- Several methods, which was reported where they met. -/
  | ambiguous
deriving DecidableEq, Inhabited

/-- Whether a literal is in the range of the C type it is emitted at, that of
signed 32-bit integers. -/
def fitsInt (value : Int) : Bool :=
  decide (-2147483648 ≤ value) && decide (value ≤ 2147483647)

/-- What is wrong with a literal. -/
def literalIssue? (value : Int) (span : Span) : Option Issue :=
  if fitsInt value then none else some (.mismatch (.literalRange value) span)

/-- What is wrong with a type where a value is needed. -/
def valueIssue? (type : Ty) (span : Span) : Option Issue :=
  if type = .void then some (.mismatch .voidValue span) else none

namespace SymbolTable

/-! ## Names -/

/-- **What a name denotes in a body**: the innermost variable declared with
it, or else the field of the class. -/
def variableNamed (t : SymbolTable) (env : Env) (cls : ClassId) (name : String) (span : Span) :
    Except Issue VarId :=
  match (env.lookup t name).or (t.findField cls name) with
  | some v => .ok v
  | none =>
    if (t.classAt cls).state.isBroken then .error (.unresolved (t.classAt cls).name span)
    else .error (.undeclared name span)

/-- **What a method name denotes in a class.** -/
def methodNamed (t : SymbolTable) (cls : ClassId) (name : String) (span : Span) :
    Except Issue MethodLookup :=
  match t.findMethod cls name with
  | some m => .ok (.found m)
  | none =>
    if (t.classAt cls).members.isAmbiguous name then .ok .ambiguous
    else if (t.classAt cls).state.isBroken then
      .error (.unresolved (t.classAt cls).name span)
    else .error (.unknownMethod name (t.classAt cls).name span)

/-! ## Types -/

/-- What is wrong with storing a value of one type where another is expected.
`use` says what the value is for. -/
def storeIssue? (t : SymbolTable) (source target : Ty) (use : String) (span : Span) :
    Option Issue :=
  if t.isCompatible source target then none
  else some (.mismatch (.stored use (t.typeName target) (t.typeName source)) span)

/-- What is wrong with the type of a condition. -/
def conditionIssue? (t : SymbolTable) (type : Ty) (span : Span) : Option Issue :=
  if type = .int then none else some (.mismatch (.condition (t.typeName type)) span)

/-- What is wrong with the type of an operand. -/
def operandIssue? (t : SymbolTable) (op : BinOp) (type : Ty) (span : Span) : Option Issue :=
  if type = .int then none else some (.mismatch (.operand op (t.typeName type)) span)

/-- What is wrong with the number of arguments of a call. -/
def arityIssue? (t : SymbolTable) (m : MethodId) (got : Nat) (span : Span) : Option Issue :=
  if t.arity m = got then none
  else some (.arity (t.qualifiedName m) (t.arity m) got span)

/-- What is wrong with a return without a value. -/
def bareReturnIssue? (t : SymbolTable) (m : MethodId) (span : Span) : Option Issue :=
  match (t.methodAt m).returnType with
  | none => none
  | some .void => none
  | some type => some (.mismatch (.missingResult (t.qualifiedName m) (t.typeName type)) span)

/-- What is wrong with returning a value of a type. -/
def returnIssue? (t : SymbolTable) (m : MethodId) (type : Ty) (span : Span) : Option Issue :=
  match (t.methodAt m).returnType with
  | none => none
  | some .void => some (.mismatch (.unwantedResult (t.qualifiedName m)) span)
  | some expected => (valueIssue? type span).or (t.storeIssue? type expected "return value" span)

end SymbolTable

end Heritage
