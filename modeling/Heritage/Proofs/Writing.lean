import Heritage.Proofs.Inferring
import Heritage.Proofs.Walk
import Heritage.Reporting.File

/-!
# One walk writes what is written and reports what is wrong

For a statement there are three functions: the environment after it, what is written for it, and
what is wrong with it. The walk that reports does what the three say, also where it stops.
-/

namespace Heritage

open C (Step)
open Reporting (Finds)

/-- **What a walk does whatever the report holds and whatever was written before**: it ends or
stops, writes steps and adds issues. -/
def Writes {α : Type} (x : Writing α) (result : Except Issue α) (steps : List Step)
    (found : List Issue) : Prop :=
  ∀ before, Finds (x.run.run before) (result, before ++ steps) found

namespace Writes

variable {α β : Type} {a : α} {result : Except Issue β} {i : Issue} {written written' : List Step}
  {is js : List Issue}

theorem pure (a : α) : Writes (Pure.pure a) (.ok a) [] [] := fun before =>
  (Finds.pure _).of_eq (Prod.ext rfl (List.append_nil before).symm) rfl

theorem stop (i : Issue) : Writes (throw i : Writing α) (.error i) [] [] := fun before =>
  (Finds.pure _).of_eq (Prod.ext rfl (List.append_nil before).symm) rfl

theorem emit (step : Step) : Writes (Writing.emit step) (.ok ()) [step] [] := fun _ => Finds.pure _

theorem report {x : Reporting α} (hx : Finds x a is) : Writes (liftM x) (.ok a) [] is := by
  intro before
  rw [List.append_nil]
  exact (hx.run_lift before).run_andThen (f := fun a => Pure.pure (Except.ok a)) (Finds.pure _)

theorem ofExcept (r : Except Issue α) : Writes (liftM r) r [] [] := fun before =>
  (Finds.pure _).of_eq (Prod.ext rfl (List.append_nil before).symm) rfl

/-- Where the first walk ends the second goes on. -/
theorem bind {x : Writing α} {f : α → Writing β} (hx : Writes x (.ok a) written is)
    (hf : Writes (f a) result written' js) :
    Writes (x >>= f) result (written ++ written') (is ++ js) := by
  intro before
  have hrest := hf (before ++ written)
  rw [List.append_assoc] at hrest
  exact (hx before).run_bind (f := ExceptT.bindCont f) hrest

/-- Where the first walk stops there is no second. -/
theorem bind_stop {x : Writing α} {f : α → Writing β} (hx : Writes x (.error i) written is) :
    Writes (x >>= f) (.error i) written is :=
  fun before => (hx before).run_andThen (f := ExceptT.bindCont f) (Finds.pure _)

/-- A walk that goes on without writing or reporting anything. -/
theorem andThen {x : Writing α} {f : α → Writing β} (hx : Writes x (.ok a) written is)
    (hf : Writes (f a) result [] []) : Writes (x >>= f) result written is := by
  have hboth := hx.bind hf
  rwa [List.append_nil, List.append_nil] at hboth

/-- A walk that starts with a check. -/
theorem check {x : Reporting α} {f : α → Writing β} (hx : Finds x a is)
    (hf : Writes (f a) result written js) : Writes (liftM x >>= f) result written (is ++ js) :=
  (report hx).bind hf

/-- A walk that starts with a step. -/
theorem step {step : Step} {x : Writing β} (hx : Writes x result written is) :
    Writes (Writing.emit step >>= fun _ => x) result (step :: written) is :=
  (emit step).bind hx

/-- A check whose text is written as one step. -/
theorem checked {x : Reporting α} (step : α → Step) {c : β} (hx : Finds x a is) :
    Writes (liftM x >>= fun a => Writing.emit (step a) >>= fun _ => Pure.pure c) (.ok c) [step a]
      is := by
  rw [← List.append_nil is]
  exact check hx (Writes.step (pure c))

end Writes

namespace Body

variable {b : Body}

/-! ## Parts of statements -/

theorem finds_checkInit (b : Body) (env : Env) (v : Declarator) (id : VarId) :
    Finds (b.checkInit env v id)
      (v.init.map fun e => (b.site env).checkCode e (b.table.varAt id).type)
      (match v.init with
        | none => []
        | some e =>
          (b.site env).checkIssues e (b.table.varAt id).type (initUse v.name.text)) := by
  unfold checkInit
  cases v.init with
  | none => exact Finds.pure _
  | some e => exact (Site.finds_check _ _ _ _).andThen (Finds.pure _)

theorem lineOfVar_eq (b : Body) (env : Env) (type : Ident) (v : Declarator) (id : VarId) :
    b.lineOfVar type v id (v.init.map fun e => (b.site env).checkCode e (b.table.varAt id).type)
      = b.varLine env type v id := by
  unfold lineOfVar varLine
  cases v.init with
  | none => rfl
  | some e => rfl

theorem finds_checkCond (b : Body) (env : Env) (cond : Expr) :
    Finds (b.checkCond env cond) (b.condCode env cond) (b.condIssues env cond) := by
  unfold condIssues
  refine (Site.finds_inferValue (b.site env) cond).bind ?_
  cases (b.site env).valueType? cond with
  | none => exact (Finds.reportAny none).andThen (Finds.pure _)
  | some type => exact (Finds.reportAny _).andThen (Finds.pure _)

/-- A returned value is converted as its text says. -/
theorem finds_convertReturned (b : Body) (env : Env) (e : Expr) :
    ∃ code, C.standalone e code = b.returnCode env e
      ∧ Finds (b.convertReturned e { type := (b.site env).type? e, code := (b.site env).code e })
        code
        (match (b.site env).type? e with
          | none => []
          | some type => (b.table.returnIssue? b.method type e.span).toList) := by
  refine ⟨_, rfl, ?_⟩
  unfold convertReturned
  cases (b.site env).type? e with
  | none => exact Finds.pure _
  | some type =>
    dsimp only
    cases (b.table.methodAt b.method).returnType with
    | none =>
      cases b.table.returnIssue? b.method type e.span with
      | none => exact Finds.pure _
      | some i => exact (Finds.report i).andThen (Finds.pure _)
    | some expected =>
      dsimp only
      cases b.table.returnIssue? b.method type e.span with
      | none => exact Finds.pure _
      | some i => exact (Finds.report i).andThen (Finds.pure _)

theorem finds_checkReturn (b : Body) (env : Env) (value : Option Expr) (span : Span) :
    Finds (b.checkReturn env value span)
      (match value with
        | none => "return;"
        | some e => "return " ++ b.returnCode env e ++ ";")
      (b.returnIssues env value span) := by
  unfold checkReturn returnIssues
  cases value with
  | none => exact (Finds.reportAny _).andThen (Finds.pure _)
  | some e =>
    obtain ⟨code, hcode, hconvert⟩ := finds_convertReturned b env e
    refine (Site.finds_infer (b.site env) e).bind (hconvert.andThen ?_)
    rw [hcode]
    exact Finds.pure _

theorem finds_checkTarget (b : Body) (env : Env) (target : Ident) :
    Finds (b.checkTarget env target) (b.assignTarget env target)
      (b.assignTargetIssues env target) := by
  unfold checkTarget assignTarget assignTargetIssues
  cases (b.site env).var target with
  | error i => exact (Finds.report i).andThen (Finds.pure _)
  | ok v =>
    dsimp only
    cases (b.table.varAt v).kind with
    | receiver => exact (Finds.report _).andThen (Finds.pure _)
    | field => exact Finds.pure _
    | parameter => exact Finds.pure _
    | localVar => exact Finds.pure _

/-! ## Statements -/

theorem writes_compileVars (b : Body) (type : Ident) (vars : List Declarator) (env : Env) :
    Writes (b.compileVars type vars env) (b.afterVars vars env) (b.varSteps type vars env)
      (b.varIssues vars env) := by
  induction vars generalizing env with
  | nil => exact Writes.pure env
  | cons v rest ih =>
    unfold compileVars afterVars varSteps varIssues afterVar
    cases b.table.lookupIn env.scope v.name.text with
    | none => exact Writes.stop _
    | some id =>
      refine Writes.check (finds_checkInit b env v id) ?_
      rw [lineOfVar_eq]
      exact Writes.step (ih _)

/-- A walk through a block does what the statements in it do, in the scope of the block. -/
theorem writes_inBlock {body : List Stmt} {walk : Env → Writing Env}
    (hwalk : ∀ inside, Writes (walk inside) (b.afterAll body inside) (b.stepsAll body inside)
      (b.issuesAll body inside)) (span : Span) (env : Env) :
    Writes (b.inBlock span env walk) (b.afterBlock body span env)
      (match env.enter b.table span with
        | .ok inside => b.stepsAll body inside
        | .error _ => [])
      (match env.enter b.table span with
        | .ok inside => b.issuesAll body inside
        | .error _ => []) := by
  unfold inBlock afterBlock
  cases henter : env.enter b.table span with
  | error i => exact Writes.bind_stop (Writes.ofExcept _)
  | ok inside =>
    have hinside := hwalk inside
    refine Writes.bind (Writes.ofExcept (.ok inside)) ?_
    show Writes _ (b.afterAll body inside >>= fun inside => .ok inside.leave) _ _
    cases hafter : b.afterAll body inside with
    | error i =>
      rw [hafter] at hinside
      exact Writes.bind_stop hinside
    | ok last =>
      rw [hafter] at hinside
      exact hinside.andThen (Writes.pure _)

/-- A block between the line that opens it and the one that closes it. -/
theorem writes_closed {x : Writing Env} {r : Except Issue Env} {written : List Step}
    {is : List Issue} (hx : Writes x r written is) :
    Writes (x >>= fun env => Writing.emit (.closing "\x7d") >>= fun _ => pure env) r
      (written ++ closeIfReached r) is := by
  cases r with
  | error i =>
    rw [closeIfReached, List.append_nil]
    exact Writes.bind_stop hx
  | ok env =>
    rw [← List.append_nil is]
    exact hx.bind (Writes.step (Writes.pure env))

mutual
/-- **The walk over a statement** ends or stops where the environment after it says, writes its
steps and reports its issues. -/
theorem writes_compile (b : Body) : (stmt : Stmt) → (env : Env) →
    Writes (b.compile stmt env) (b.after stmt env) (b.steps stmt env) (b.issues stmt env)
  | .declare type vars _, env => writes_compileVars b type vars env
  | .ifThen cond body bodySpan _, env => by
    unfold compile after steps issues
    refine Writes.check (finds_checkCond b env cond) (Writes.step ?_)
    exact writes_closed (writes_inBlock (writes_compileAll b body) bodySpan env)
  | .ifElse cond body bodySpan other otherSpan _, env => by
    have hbody := writes_inBlock (writes_compileAll b body) bodySpan env
    have hother (env' : Env) := writes_closed
      (writes_inBlock (writes_compileAll b other) otherSpan env')
    unfold compile steps issues
    rw [after_ifElse, List.append_assoc (b.condIssues env cond)]
    refine Writes.check (finds_checkCond b env cond) (Writes.step ?_)
    cases hafter : b.afterBlock body bodySpan env with
    | error i =>
      rw [hafter] at hbody
      show Writes _ (.error i) (_ ++ [] ++ []) (_ ++ [])
      rw [List.append_nil, List.append_nil, List.append_nil]
      exact Writes.bind_stop hbody
    | ok env' =>
      rw [hafter] at hbody
      rw [List.append_assoc]
      exact hbody.bind (Writes.step (Writes.step (hother env')))
  | .loop cond body bodySpan _, env => by
    unfold compile after steps issues
    refine Writes.check (finds_checkCond b env cond) (Writes.step ?_)
    exact writes_closed (writes_inBlock (writes_compileAll b body) bodySpan env)
  | .ret none span, env => Writes.checked _ (finds_checkReturn b env none span)
  | .ret (some value) span, env => Writes.checked _ (finds_checkReturn b env (some value) span)
  | .assign target value _, env => by
    have hvalue := Site.finds_check (b.site env) value (b.assignTarget env target).1
      (assignUse target.text)
    unfold compile after steps issues
    have hline := Writes.checked (c := env)
      (fun code => Step.line ((b.assignTarget env target).2 ++ " = " ++ code ++ ";")) hvalue
    refine Writes.check (a := b.assignTarget env target) (finds_checkTarget b env target) ?_
    exact hline
  | .eval expr _, env => by
    unfold compile after steps issues
    have hline := Writes.checked (c := env)
      (fun info => Step.line (C.standalone expr info.code ++ ";"))
      (Site.finds_infer (b.site env) expr)
    exact hline
theorem writes_compileAll (b : Body) : (body : List Stmt) → (env : Env) →
    Writes (b.compileAll body env) (b.afterAll body env) (b.stepsAll body env)
      (b.issuesAll body env)
  | [], env => Writes.pure env
  | stmt :: rest, env => by
    have hstmt := writes_compile b stmt env
    unfold compileAll afterAll stepsAll issuesAll
    cases hafter : b.after stmt env with
    | error i =>
      rw [hafter] at hstmt
      rw [List.append_nil, List.append_nil]
      exact Writes.bind_stop hstmt
    | ok env' =>
      rw [hafter] at hstmt
      exact hstmt.bind (writes_compileAll b rest env')
end

/-- **The walk over a body** writes it, and reports what is wrong with it and why it stops before
its end if it does. -/
theorem finds_compileBody (b : Body) (body : List Stmt) (before : List Step) :
    Finds ((b.compileBody body).run before) ((), before ++ b.bodySteps body)
      (b.bodyIssues body) := by
  have hwalk := writes_compileAll b body b.start before
  unfold compileBody bodySteps bodyIssues stopIssues
  cases hafter : b.afterAll body b.start with
  | ok env =>
    rw [hafter] at hwalk
    exact hwalk.run_bind (Finds.pure _)
  | error i =>
    rw [hafter] at hwalk
    exact hwalk.run_bind ((Finds.report i).run_lift _)

end Body

/-! ## Files -/

namespace C

variable {t : SymbolTable}

/-- More functions, for methods with their declarations. -/
def Functions.addAll (f : Functions) (t : SymbolTable) (ms : List (MethodId × MethodDecl)) :
    Functions where
  prototypes := f.prototypes ++ ms.map fun m => prototypeStep t m.1
  definitions := f.definitions ++ ms.map fun m => definitionSteps t m.1 m.2.body
  count := f.count + ms.length

theorem Functions.addAll_nil (f : Functions) : f.addAll t [] = f := by
  unfold addAll
  rw [List.map_nil, List.map_nil, List.append_nil, List.append_nil]
  rfl

theorem Functions.addAll_append (f : Functions) (ms ns : List (MethodId × MethodDecl)) :
    f.addAll t (ms ++ ns) = (f.addAll t ms).addAll t ns := by
  unfold addAll
  simp only [List.map_append, List.append_assoc, List.length_append, Nat.add_assoc]

/-- **A loop that writes functions.** -/
theorem finds_forM_addAll {α : Type} {write : α → StateT Functions Reporting Unit}
    {methods : α → List (MethodId × MethodDecl)} {found : α → List Issue}
    (turn : ∀ a f, Finds ((write a).run f) ((), f.addAll t (methods a)) (found a)) (xs : List α)
    (f : Functions) :
    Finds ((xs.forM write).run f) ((), f.addAll t (xs.flatMap methods)) (xs.flatMap found) := by
  induction xs generalizing f with
  | nil =>
    rw [List.flatMap_nil, Functions.addAll_nil]
    exact Finds.pure _
  | cons a rest ih =>
    rw [List.flatMap_cons, Functions.addAll_append]
    exact (turn a f).run_bind (ih _)

theorem finds_writeFunction (t : SymbolTable) (m : MethodId × MethodDecl) (f : Functions) :
    Finds ((writeFunction t m.1 m.2).run f) ((), f.addAll t [m])
      (methodIssues t (.ok m)) := by
  have hbody := Body.finds_compileBody { table := t, method := m.1 } m.2.body
    [.opening (signature t m.1)]
  exact (hbody.run_lift f).run_andThen (Finds.pure _)

theorem finds_writeClass (t : SymbolTable) (p : Program) (c : ClassId) (f : Functions) :
    Finds ((writeClass t p c).run f)
      ((), f.addAll t ((classMethods t p c).filterMap Except.toOption))
      ((classMethods t p c).flatMap (methodIssues t)) := by
  unfold writeClass classMethods
  dsimp only
  cases p.classes[(t.classAt c).declIndex]? with
  | none =>
    refine ((Finds.report _).run_lift f).of_eq ?_ rfl
    exact Prod.ext rfl f.addAll_nil.symm
  | some decl =>
    dsimp only
    rw [List.filterMap_map, List.flatMap_map, List.filterMap_eq_flatMap_toList]
    refine finds_forM_addAll (fun m f => ?_) _ f
    show Finds _ ((), f.addAll t (Except.toOption (methodDecl t (t.classAt c) decl m)).toList) _
    cases methodDecl t (t.classAt c) decl m with
    | ok d => exact finds_writeFunction t d f
    | error i =>
      refine ((Finds.report i).run_lift f).of_eq ?_ rfl
      exact Prod.ext rfl f.addAll_nil.symm

/-- **The walk over a program** writes its file, and reports what is wrong with its bodies. -/
theorem finds_writeFile (o : Options) (t : SymbolTable) (p : Program) :
    Finds (writeFile o t p)
      { text := (File.ofTable t p).text o
        classCount := (File.ofTable t p).structCount
        functionCount := (File.ofTable t p).functionCount }
      (File.ofTable t p).issues := by
  have hclasses := finds_forM_addAll (finds_writeClass t p) t.classIds {}
  have hheld : t.classIds.flatMap (fun c => (classMethods t p c).filterMap Except.toOption)
      = heldMethods t p := (List.filterMap_flatMap ..).symm
  have hissues : t.classIds.flatMap (fun c => (classMethods t p c).flatMap (methodIssues t))
      = (File.ofTable t p).issues := (List.flatMap_assoc ..).symm
  rw [hheld, hissues] at hclasses
  have hcount : (Functions.addAll {} t (heldMethods t p)).count = (heldMethods t p).length :=
    Nat.zero_add _
  refine hclasses.andThen ?_
  dsimp only
  rw [hcount]
  exact Finds.pure _

end C

end Heritage
