import Heritage.C.Expr
import Heritage.Report

/-!
# Expressions, in one walk

An expression is checked and written in one walk over it, with the report at hand.
What the walk brings back from an expression is its type and its text (`Info`).
One that failed a check brings back neither; what was wrong with it has been
reported, and the checks around it keep quiet.
-/

namespace Heritage

/-- **What a walk brings back from an expression.** -/
structure Info where
  /-- The type, if the expression has one. -/
  type : Option Ty
  /-- The C text. -/
  code : String
deriving DecidableEq, Inhabited

/-- What is brought back from an expression that failed a check. -/
def Info.poisoned : Info where
  type := none
  code := ""

namespace Site

open C (convert standalone)

/-- An expression that may fail a check of its own. -/
def settle (result : Except Issue Info) : Reporting Info := do
  let info ← Reporting.record result
  return info.getD .poisoned

/-- An expression whose value is used. -/
def useValue (e : Expr) (info : Info) : Reporting Info :=
  match info.type.bind fun type => valueIssue? type e.span with
  | none => pure info
  | some i => do
    Reporting.report i
    return .poisoned

/-- A value that is an operand. -/
def useOperand (s : Site) (op : BinOp) (e : Expr) (info : Info) : Reporting String := do
  Reporting.reportAny (info.type.bind fun type => s.table.operandIssue? op type e.span)
  return info.code

/-- A value that is stored where a type is expected. -/
def storeValue (s : Site) (e : Expr) (target : Option Ty) (use : String) (info : Info) :
    Reporting String :=
  match info.type, target with
  | some source, some target =>
    match s.table.storeIssue? source target use e.span with
    | some i => do
      Reporting.report i
      return info.code
    | none => return standalone e (convert s.table info.code (some source) target)
  | _, _ => return standalone e info.code

/-- A construction takes no arguments. -/
def refuseArgs (callee : Ident) (got : Nat) (span : Span) (discard : Reporting Unit) :
    Reporting Unit :=
  if got = 0 then pure ()
  else do
    Reporting.report (.arity callee.text 0 got span)
    discard

/-- A call, given what it reaches. Its arguments are passed to a method, and
checked for their own sake otherwise. -/
def inferCall (s : Site) (receiver : String) (callee : Ident) (got : Nat) (span : Span)
    (discard : Reporting Unit) (pass : Reporting String) : Target → Reporting Info
  | .construct c => do
    refuseArgs callee got span discard
    return { type := some (.cls c), code := s.callText receiver "" (.construct c) }
  | .nothing why => do
    Reporting.reportAny why
    discard
    return .poisoned
  | .method on m => do
    Reporting.reportAny (s.table.arityIssue? m got span)
    let args ← pass
    return { type := (s.table.methodAt m).returnType
             code := s.callText receiver args (.method on m) }

mutual
/-- **Check an expression and write it.** -/
def infer (s : Site) : Expr → Reporting Info
  | .int value span =>
    settle <|
      match literalIssue? value span with
      | none => .ok { type := some .int, code := toString value }
      | some i => .error i
  | .name ident => settle ((s.var ident).map fun v => { type := s.varType? v, code := s.varCode v })
  | .self _ => pure { type := some (.cls s.cls), code := C.receiver }
  | .binary op left right _ => do
    let info ← s.infer left
    let info ← useValue left info
    let leftText ← s.useOperand op left info
    let info ← s.infer right
    let info ← useValue right info
    let rightText ← s.useOperand op right info
    return { type := some .int
             code := "(" ++ leftText ++ " " ++ op.symbol ++ " " ++ rightText ++ ")" }
  | .call callee args span =>
    let target := s.callTarget callee
    s.inferCall C.receiver callee args.length span (s.discardArgs args) (s.passArgs target 0 args)
      target
  | .send receiver callee args span => do
    let info ← s.infer receiver
    let info ← useValue receiver info
    let target := s.sendTarget info.type callee
    s.inferCall info.code callee args.length span (s.discardArgs args) (s.passArgs target 0 args)
      target
/-- Check the arguments of a call that reaches no method. -/
def discardArgs (s : Site) : List Expr → Reporting Unit
  | [] => pure ()
  | e :: rest => do
    let info ← s.infer e
    let _ ← useValue e info
    s.discardArgs rest
/-- Check and write the arguments of a call from the given one on, each after a
comma. -/
def passArgs (s : Site) (target : Target) (i : Nat) : List Expr → Reporting String
  | [] => pure ""
  | e :: rest => do
    let info ← s.infer e
    let info ← useValue e info
    let text ← s.storeValue e (s.paramType? target i) (s.argUse target i) info
    let others ← s.passArgs target (i + 1) rest
    return ", " ++ text ++ others
end

/-- Check and write an expression whose value is used. -/
def inferValue (s : Site) (e : Expr) : Reporting Info := do
  let info ← s.infer e
  useValue e info

/-- Check and write an expression whose value is stored where a type is
expected. -/
def check (s : Site) (e : Expr) (target : Option Ty) (use : String) : Reporting String := do
  let info ← s.inferValue e
  s.storeValue e target use info

end Site

end Heritage
