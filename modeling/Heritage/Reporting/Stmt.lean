import Heritage.C.Stmt
import Heritage.Reporting.Expr

/-!
# Statements, in one walk

A body is checked and written in one walk, statement by statement, with the report
at hand and with what was written before. The walk goes on whatever is reported;
where the tree is not the one the symbols were collected from, it stops.
-/

namespace Heritage

/-- **Writing a body**: what is written grows, and the walk may stop. -/
abbrev Writing := ExceptT Issue (StateT (List C.Step) Reporting)

namespace Writing

/-- Write one more step. -/
def emit (step : C.Step) : Writing Unit :=
  modify (· ++ [step])

end Writing

namespace Body

open C (Step declaration standalone)
open Writing (emit)

/-! ## Parts of statements -/

/-- The line of a declarator, given the variable that it declares and the text of
its initial value. -/
def lineOfVar (b : Body) (type : Ident) (v : Declarator) (id : VarId) (init : Option String) :
    String :=
  let text :=
    match (b.table.varAt id).type with
    | some t => C.typeText b.table t
    | none => type.text
  let start := declaration text (C.ident v.name.text)
  match init with
  | none => start ++ ";"
  | some code => start ++ " = " ++ code ++ ";"

/-- Check the initial value of a local, if it has one. -/
def checkInit (b : Body) (env : Env) (v : Declarator) (id : VarId) : Reporting (Option String) :=
  match v.init with
  | none => return none
  | some e => do
    let code ← (b.site env).check e (b.table.varAt id).type (initUse v.name.text)
    return some code

/-- Check a condition. -/
def checkCond (b : Body) (env : Env) (cond : Expr) : Reporting String := do
  let info ← (b.site env).inferValue cond
  Reporting.reportAny (info.type.bind fun type => b.table.conditionIssue? type cond.span)
  return standalone cond info.code

/-- The text of a returned value, converted to the type the method returns if it
fits there. -/
def convertReturned (b : Body) (value : Expr) (info : Info) : Reporting String :=
  match info.type with
  | none => return info.code
  | some type =>
    match b.table.returnIssue? b.method type value.span with
    | some i => do
      Reporting.report i
      return info.code
    | none =>
      match (b.table.methodAt b.method).returnType with
      | some expected => return C.convert b.table info.code (some type) expected
      | none => return info.code

/-- Check a return. -/
def checkReturn (b : Body) (env : Env) (value : Option Expr) (span : Span) : Reporting String :=
  match value with
  | none => do
    Reporting.reportAny (b.table.bareReturnIssue? b.method span)
    return "return;"
  | some e => do
    let info ← (b.site env).infer e
    let code ← b.convertReturned e info
    return "return " ++ standalone e code ++ ";"

/-- Check what an assignment goes to. -/
def checkTarget (b : Body) (env : Env) (target : Ident) : Reporting (Option Ty × String) :=
  match (b.site env).var target with
  | .error i => do
    Reporting.report i
    return (none, C.ident target.text)
  | .ok v =>
    match (b.table.varAt v).kind with
    | .receiver => do
      Reporting.report (.mismatch (.fixedReceiver target.text) target.span)
      return (none, C.receiver)
    | _ => return ((b.table.varAt v).type, (b.site env).varCode v)

/-! ## Statements -/

/-- Check and write the declarators of a statement. -/
def compileVars (b : Body) (type : Ident) : List Declarator → Env → Writing Env
  | [], env => return env
  | v :: rest, env =>
    match b.table.lookupIn env.scope v.name.text with
    | none => throw (.malformed (.noLocal v.name.text) v.span)
    | some id => do
      let init ← b.checkInit env v id
      emit (.line (b.lineOfVar type v id init))
      b.compileVars type rest (env.declare b.table v.name.text)

/-- Walk through a block, in the next scope collected for it. -/
def inBlock (b : Body) (span : Span) (env : Env) (walk : Env → Writing Env) : Writing Env := do
  let inside ← env.enter b.table span
  let inside ← walk inside
  return inside.leave

mutual
/-- **Check a statement and write it.** -/
def compile (b : Body) : Stmt → Env → Writing Env
  | .declare type vars _, env => b.compileVars type vars env
  | .ifThen cond body bodySpan _, env => do
    let code ← b.checkCond env cond
    emit (.opening ("if (" ++ code ++ ")"))
    let env ← b.inBlock bodySpan env fun inside => b.compileAll body inside
    emit (.closing "\x7d")
    return env
  | .ifElse cond body bodySpan other otherSpan _, env => do
    let code ← b.checkCond env cond
    emit (.opening ("if (" ++ code ++ ")"))
    let env ← b.inBlock bodySpan env fun inside => b.compileAll body inside
    emit (.closing "\x7d else \x7b")
    emit .indent
    let env ← b.inBlock otherSpan env fun inside => b.compileAll other inside
    emit (.closing "\x7d")
    return env
  | .loop cond body bodySpan _, env => do
    let code ← b.checkCond env cond
    emit (.opening ("while (" ++ code ++ ")"))
    let env ← b.inBlock bodySpan env fun inside => b.compileAll body inside
    emit (.closing "\x7d")
    return env
  | .ret value span, env => do
    let line ← b.checkReturn env value span
    emit (.line line)
    return env
  | .assign target value _, env => do
    let place ← b.checkTarget env target
    let code ← (b.site env).check value place.1 (assignUse target.text)
    emit (.line (place.2 ++ " = " ++ code ++ ";"))
    return env
  | .eval expr _, env => do
    let info ← (b.site env).infer expr
    emit (.line (standalone expr info.code ++ ";"))
    return env
/-- Check and write a list of statements. -/
def compileAll (b : Body) : List Stmt → Env → Writing Env
  | [], env => return env
  | s :: rest, env => do
    let env ← b.compile s env
    b.compileAll rest env
end

/-- Check and write a body, and report why it stops before its end if it does. -/
def compileBody (b : Body) (body : List Stmt) : StateT (List Step) Reporting Unit := do
  match ← (b.compileAll body b.start).run with
  | .ok _ => pure ()
  | .error i => Reporting.report i

end Body

end Heritage
