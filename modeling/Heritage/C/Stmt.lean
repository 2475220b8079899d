import Heritage.C.Expr
import Heritage.C.Layout

/-!
# Statements in C

A body is followed statement by statement, in an environment that each
statement passes on to the next (`Body.after`). Beside it stand what is
written for a statement (`Body.steps`) and what is wrong with it
(`Body.issues`).

Whatever is wrong with its expressions, a statement is written and the next
one follows. Only a tree that is not the one the symbols were collected from –
a block without a scope, a local that was not collected – stops a body: what
was written before stays, and blocks that are open stay open.
-/

namespace Heritage

/-- **A method whose body is written**: the table, and the method in it. -/
structure Body where
  /-- The resolved table. -/
  table : SymbolTable
  /-- The method. -/
  method : MethodId

namespace Body

open C (Step declaration standalone)

/-- The class of the method. -/
def cls (b : Body) : ClassId :=
  (b.table.methodAt b.method).owner

/-- A point of the body. -/
def site (b : Body) (env : Env) : Site where
  table := b.table
  env := env
  cls := b.cls

/-! ## The environment -/

/-- The environment after a declarator. -/
def afterVar (b : Body) (env : Env) (v : Declarator) : Except Issue Env :=
  match b.table.lookupIn env.scope v.name.text with
  | none => .error (.malformed (.noLocal v.name.text) v.span)
  | some _ => .ok (env.declare b.table v.name.text)

/-- The environment after the declarators of a statement. -/
def afterVars (b : Body) : List Declarator → Env → Except Issue Env
  | [], env => .ok env
  | v :: rest, env =>
    match b.afterVar env v with
    | .error i => .error i
    | .ok env => b.afterVars rest env

mutual
/-- **The environment after a statement**, or why the body stops there. -/
def after (b : Body) : Stmt → Env → Except Issue Env
  | .declare _ vars _, env => b.afterVars vars env
  | .ifThen _ body bodySpan _, env => do
    let inside ← env.enter b.table bodySpan
    let inside ← b.afterAll body inside
    return inside.leave
  | .ifElse _ body bodySpan other otherSpan _, env => do
    let inside ← env.enter b.table bodySpan
    let inside ← b.afterAll body inside
    let inside ← inside.leave.enter b.table otherSpan
    let inside ← b.afterAll other inside
    return inside.leave
  | .loop _ body bodySpan _, env => do
    let inside ← env.enter b.table bodySpan
    let inside ← b.afterAll body inside
    return inside.leave
  | .ret _ _, env => .ok env
  | .assign _ _ _, env => .ok env
  | .eval _ _, env => .ok env
/-- The environment after a list of statements, or why the body stops in
it. -/
def afterAll (b : Body) : List Stmt → Env → Except Issue Env
  | [], env => .ok env
  | s :: rest, env => do
    let env ← b.after s env
    b.afterAll rest env
end

/-- The environment after a block. -/
def afterBlock (b : Body) (body : List Stmt) (span : Span) (env : Env) : Except Issue Env := do
  let inside ← env.enter b.table span
  let inside ← b.afterAll body inside
  return inside.leave

/-! ## What a statement refers to -/

/-- The variable an assignment goes to: its type, if values can be stored in
it, and its text. -/
def assignTarget (b : Body) (env : Env) (target : Ident) : Option Ty × String :=
  match (b.site env).var target with
  | .error _ => (none, C.ident target.text)
  | .ok v =>
    match (b.table.varAt v).kind with
    | .receiver => (none, C.receiver)
    | _ => ((b.table.varAt v).type, (b.site env).varCode v)

/-- What is wrong with what an assignment goes to. -/
def assignTargetIssues (b : Body) (env : Env) (target : Ident) : List Issue :=
  match (b.site env).var target with
  | .error i => [i]
  | .ok v =>
    match (b.table.varAt v).kind with
    | .receiver => [.mismatch (.fixedReceiver target.text) target.span]
    | _ => []

/-- What a local's initial value is for. -/
def initUse (name : String) : String :=
  "initializer of " ++ quoted name

/-- What an assigned value is for. -/
def assignUse (name : String) : String :=
  "assignment to " ++ quoted name

/-! ## What is written -/

/-- The line of a declarator, given the variable that it declares. A type that
is none is written as it was. -/
def varLine (b : Body) (env : Env) (type : Ident) (v : Declarator) (id : VarId) : String :=
  let known := (b.table.varAt id).type
  let text :=
    match known with
    | some t => C.typeText b.table t
    | none => type.text
  let start := declaration text (C.ident v.name.text)
  match v.init with
  | none => start ++ ";"
  | some e => start ++ " = " ++ (b.site env).checkCode e known ++ ";"

/-- What is written for declarators, up to one that was not collected. -/
def varSteps (b : Body) (type : Ident) : List Declarator → Env → List Step
  | [], _ => []
  | v :: rest, env =>
    match b.table.lookupIn env.scope v.name.text with
    | none => []
    | some id =>
      .line (b.varLine env type v id)
        :: b.varSteps type rest (env.declare b.table v.name.text)

/-- The text of a condition. -/
def condCode (b : Body) (env : Env) (cond : Expr) : String :=
  standalone cond ((b.site env).valueCode cond)

/-- The text of a returned value. It is converted to the type the method
returns if it fits there. -/
def returnCode (b : Body) (env : Env) (value : Expr) : String :=
  let s := b.site env
  let converted :=
    match s.type? value, (b.table.methodAt b.method).returnType with
    | some type, some expected =>
      if (b.table.returnIssue? b.method type value.span).isNone then
        C.convert b.table (s.code value) (some type) expected
      else s.code value
    | _, _ => s.code value
  standalone value converted

/-- The line that closes a statement, if the body got there. -/
def closeIfReached (r : Except Issue Env) : List Step :=
  match r with
  | .ok _ => [.closing "\x7d"]
  | .error _ => []

mutual
/-- **What is written for a statement.** -/
def steps (b : Body) : Stmt → Env → List Step
  | .declare type vars _, env => b.varSteps type vars env
  | .ifThen cond body bodySpan span, env =>
    .opening ("if (" ++ b.condCode env cond ++ ")")
      :: ((match env.enter b.table bodySpan with
          | .ok inside => b.stepsAll body inside
          | .error _ => [])
        ++ closeIfReached (b.after (.ifThen cond body bodySpan span) env))
  | .ifElse cond body bodySpan other otherSpan span, env =>
    .opening ("if (" ++ b.condCode env cond ++ ")")
      :: ((match env.enter b.table bodySpan with
          | .ok inside => b.stepsAll body inside
          | .error _ => [])
        ++ (match b.afterBlock body bodySpan env with
          | .error _ => []
          | .ok env =>
            .closing "\x7d else \x7b" :: .indent
              :: (match env.enter b.table otherSpan with
                | .ok inside => b.stepsAll other inside
                | .error _ => []))
        ++ closeIfReached (b.after (.ifElse cond body bodySpan other otherSpan span) env))
  | .loop cond body bodySpan span, env =>
    .opening ("while (" ++ b.condCode env cond ++ ")")
      :: ((match env.enter b.table bodySpan with
          | .ok inside => b.stepsAll body inside
          | .error _ => [])
        ++ closeIfReached (b.after (.loop cond body bodySpan span) env))
  | .ret none _, _ => [.line "return;"]
  | .ret (some value) _, env => [.line ("return " ++ b.returnCode env value ++ ";")]
  | .assign target value _, env =>
    let (type, text) := b.assignTarget env target
    [.line (text ++ " = " ++ (b.site env).checkCode value type ++ ";")]
  | .eval expr _, env => [.line (standalone expr ((b.site env).code expr) ++ ";")]
/-- What is written for a list of statements. -/
def stepsAll (b : Body) : List Stmt → Env → List Step
  | [], _ => []
  | s :: rest, env =>
    b.steps s env
      ++ (match b.after s env with
        | .ok env => b.stepsAll rest env
        | .error _ => [])
end

/-! ## What is wrong -/

/-- What is wrong with declarators, up to one that was not collected. -/
def varIssues (b : Body) : List Declarator → Env → List Issue
  | [], _ => []
  | v :: rest, env =>
    match b.table.lookupIn env.scope v.name.text with
    | none => []
    | some id =>
      (match v.init with
        | none => []
        | some e => (b.site env).checkIssues e (b.table.varAt id).type (initUse v.name.text))
        ++ b.varIssues rest (env.declare b.table v.name.text)

/-- What is wrong with a condition. -/
def condIssues (b : Body) (env : Env) (cond : Expr) : List Issue :=
  (b.site env).valueIssues cond
    ++ (match (b.site env).valueType? cond with
      | none => []
      | some type => (b.table.conditionIssue? type cond.span).toList)

/-- What is wrong with a return. -/
def returnIssues (b : Body) (env : Env) (value : Option Expr) (span : Span) : List Issue :=
  match value with
  | none => (b.table.bareReturnIssue? b.method span).toList
  | some e =>
    (b.site env).issues e
      ++ (match (b.site env).type? e with
        | none => []
        | some type => (b.table.returnIssue? b.method type e.span).toList)

mutual
/-- **What is wrong with a statement**, apart from why the body stops in
it. -/
def issues (b : Body) : Stmt → Env → List Issue
  | .declare _ vars _, env => b.varIssues vars env
  | .ifThen cond body bodySpan _, env =>
    b.condIssues env cond
      ++ (match env.enter b.table bodySpan with
        | .ok inside => b.issuesAll body inside
        | .error _ => [])
  | .ifElse cond body bodySpan other otherSpan _, env =>
    b.condIssues env cond
      ++ (match env.enter b.table bodySpan with
        | .ok inside => b.issuesAll body inside
        | .error _ => [])
      ++ (match b.afterBlock body bodySpan env with
        | .error _ => []
        | .ok env =>
          match env.enter b.table otherSpan with
          | .ok inside => b.issuesAll other inside
          | .error _ => [])
  | .loop cond body bodySpan _, env =>
    b.condIssues env cond
      ++ (match env.enter b.table bodySpan with
        | .ok inside => b.issuesAll body inside
        | .error _ => [])
  | .ret value span, env => b.returnIssues env value span
  | .assign target value _, env =>
    b.assignTargetIssues env target
      ++ (b.site env).checkIssues value (b.assignTarget env target).1 (assignUse target.text)
  | .eval expr _, env => (b.site env).issues expr
/-- What is wrong with a list of statements, apart from why the body stops in
it. -/
def issuesAll (b : Body) : List Stmt → Env → List Issue
  | [], _ => []
  | s :: rest, env =>
    b.issues s env
      ++ (match b.after s env with
        | .ok env => b.issuesAll rest env
        | .error _ => [])
end

/-! ## Whole bodies -/

/-- The environment a body starts in. -/
def start (b : Body) : Env :=
  Env.ofMethod b.table b.method

/-- Why a body stops before its end, if it does. -/
def stopIssues (b : Body) (body : List Stmt) : List Issue :=
  match b.afterAll body b.start with
  | .ok _ => []
  | .error i => [i]

/-- What is written for a body. -/
def bodySteps (b : Body) (body : List Stmt) : List Step :=
  b.stepsAll body b.start

/-- What is wrong with a body. -/
def bodyIssues (b : Body) (body : List Stmt) : List Issue :=
  b.issuesAll body b.start ++ b.stopIssues body

end Body

end Heritage
