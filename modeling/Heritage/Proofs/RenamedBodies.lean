import Heritage.Proofs.Parts
import Heritage.Proofs.RenamedDeclarations

/-!
# Bodies in tables whose symbols stand elsewhere

A body is followed through the scopes of its method, and what it refers to is
found by name. Where the symbols stand in the table matters to none of it: at
every point of a body the other table offers the renamed variables and methods
under the same names. So the text of every expression and statement is the same,
and so is every issue, in the same order. The one name that is looked up among
all classes is that of a call without a receiver, so such names have to denote
the same in both tables.

Blocks are entered by their number among those of a scope. The scope of the
program is the only one whose blocks, those of the classes, stand in another
order, and no body is ever in it (`Env.Inside`).
-/

namespace Heritage

open SymbolTable

/-! ## Calls without a receiver -/

mutual
/-- **The names that an expression calls without a receiver**, from left to right. -/
def Expr.callees : Expr → List String
  | .int _ _ => []
  | .name _ => []
  | .self _ => []
  | .binary _ left right _ => left.callees ++ right.callees
  | .call callee args _ => callee.text :: argCallees args
  | .send receiver _ args _ => receiver.callees ++ argCallees args
/-- The names that the arguments of a call call without a receiver. -/
def argCallees : List Expr → List String
  | [] => []
  | e :: rest => e.callees ++ argCallees rest
end

/-- The names that the initial value of a variable calls without a receiver. -/
def Declarator.callees (v : Declarator) : List String :=
  (v.init.map Expr.callees).getD []

mutual
/-- The names that a statement calls without a receiver. -/
def Stmt.callees : Stmt → List String
  | .declare _ vars _ => vars.flatMap Declarator.callees
  | .ifThen cond body _ _ => cond.callees ++ calleesAll body
  | .ifElse cond body _ other _ _ => cond.callees ++ (calleesAll body ++ calleesAll other)
  | .loop cond body _ _ => cond.callees ++ calleesAll body
  | .ret value _ => (value.map Expr.callees).getD []
  | .assign _ value _ => value.callees
  | .eval expr _ => expr.callees
/-- **The names that a list of statements calls without a receiver.** -/
def calleesAll : List Stmt → List String
  | [] => []
  | s :: rest => s.callees ++ calleesAll rest
end

/-! ## Environments -/

namespace Renaming

variable (σ : Renaming)

/-- A scope around a point. -/
def frame (f : Frame) : Frame :=
  { f with scope := σ.scope f.scope }

/-- An environment. -/
def env (e : Env) : Env where
  top := σ.frame e.top
  outer := e.outer.map σ.frame
  visible := e.visible.map σ.var

/-- What a call reaches. -/
def target : Target → Target
  | .construct c => .construct (σ.cls c)
  | .method on m => .method (σ.cls on) (σ.method m)
  | .nothing why => .nothing why

theorem asValue (type : Option Ty) :
    Site.asValue (type.map σ.ty) = (Site.asValue type).map σ.ty := by
  cases type with
  | none => rfl
  | some a => cases a <;> rfl

theorem env_leave (e : Env) : (σ.env e).leave = σ.env e.leave := by
  obtain ⟨top, outer, visible⟩ := e
  cases outer <;> rfl

end Renaming

namespace SymbolTable.Carried

variable {σ : Renaming} {N : String → Prop} {t t' : SymbolTable} (h : Carried σ N t t')
include h

theorem env_lookupFrame (name : String) (e : Env) (f : Frame) :
    (σ.env e).lookupFrame t' name (σ.frame f) = (e.lookupFrame t name f).map σ.var := by
  unfold Env.lookupFrame
  show (t'.lookupIn (σ.scope f.scope) name).filter _ = _
  rw [h.lookupIn, Option.filter_map]
  refine congrArg (fun q => Option.map σ.var (Option.filter q _)) (funext fun v => ?_)
  refine Bool.eq_iff_iff.mpr ?_
  show (e.visible.map σ.var).contains (σ.var v) = true ↔ _
  rw [List.contains_iff_mem, List.contains_iff_mem]
  exact List.mem_map_of_injective σ.var_injective

/-- **A name denotes the renamed variable at a point**, frame by frame. -/
theorem env_lookup (name : String) (e : Env) :
    (σ.env e).lookup t' name = (e.lookup t name).map σ.var := by
  unfold Env.lookup
  rw [List.map_findSome?]
  show (e.frames.map σ.frame).findSome? _ = _
  rw [List.findSome?_map]
  exact congrArg (List.findSome? · e.frames) (funext fun f => h.env_lookupFrame name e f)

/-- **The block that is entered is the renamed one**, since the blocks of a scope stand in the same
order, and no point is in the scope of the program. -/
theorem env_enter {e : Env} (he : e.Inside t) (span : Span) :
    (σ.env e).enter t' span = (e.enter t span).map σ.env := by
  have hroot : e.scope ≠ rootScope :=
    (he e.top (List.mem_cons_self ..)).ne_rootScope h.formed
  have hblock : (t'.childrenOf (σ.env e).scope)[(σ.env e).top.entered]?
      = (t.childrenOf e.scope)[e.top.entered]?.map σ.scope := by
    show (t'.childrenOf (σ.scope e.scope))[e.top.entered]? = _
    rw [h.childrenOf hroot, List.getElem?_map]
  unfold Env.enter
  rw [hblock]
  cases (t.childrenOf e.scope)[e.top.entered]? <;> rfl

theorem env_declare (name : String) (e : Env) :
    (σ.env e).declare t' name = σ.env (e.declare t name) := by
  have hlook : t'.lookupIn (σ.env e).scope name = (t.lookupIn e.scope name).map σ.var :=
    h.lookupIn e.scope name
  unfold Env.declare
  rw [hlook]
  cases t.lookupIn e.scope name <;> rfl

/-- A body starts with the renamed parameters. -/
theorem env_ofMethod (m : MethodId) :
    Env.ofMethod t' (σ.method m) = σ.env (Env.ofMethod t m) := by
  unfold Env.ofMethod
  rw [h.methodAt_scope, h.paramsOf]
  rfl

/-- A name denotes the renamed variable or field, or is refused in the same way. -/
theorem variableNamed (e : Env) (c : ClassId) (name : String) (span : Span) :
    t'.variableNamed (σ.env e) (σ.cls c) name span
      = (t.variableNamed e c name span).map σ.var := by
  unfold SymbolTable.variableNamed
  rw [h.env_lookup, h.findField, ← Option.map_or, h.broken, h.className]
  cases (e.lookup t name).or (t.findField c name) with
  | some v => rfl
  | none =>
    show (if (t.classAt c).state.isBroken = true then _ else _)
      = Except.map σ.var (if _ then _ else _)
    split
    · rfl
    · rfl

end SymbolTable.Carried

/-! ## Points of a body -/

namespace Site

/-- **Two points of bodies that differ by where the symbols stand.** -/
structure Carried (σ : Renaming) (N : String → Prop) (s s' : Site) : Prop where
  table : SymbolTable.Carried σ N s.table s'.table
  env : s'.env = σ.env s.env
  cls : s'.cls = σ.cls s.cls

/-- A call that reaches a method reaches one of the table. -/
def Reachable (s : Site) : Target → Prop
  | .method _ m => m < s.table.methods.length
  | _ => True

variable {σ : Renaming} {N : String → Prop} {s s' : Site}

namespace Carried

variable (h : Carried σ N s s')
include h

theorem var (name : Ident) : s'.var name = (s.var name).map σ.var := by
  unfold Site.var
  rw [h.env, h.cls]
  exact h.table.variableNamed s.env s.cls name.text name.span

theorem varType? (v : VarId) : s'.varType? (σ.var v) = (s.varType? v).map σ.ty := by
  unfold Site.varType?
  rw [h.table.varAt, h.cls]
  dsimp only [Renaming.varSymbol]
  cases (s.table.varAt v).kind <;> rfl

/-- A method that is called is the renamed one, or is refused in the same way. -/
theorem methodTarget (c : ClassId) (callee : Ident) :
    s'.methodTarget (σ.cls c) callee = σ.target (s.methodTarget c callee) := by
  unfold Site.methodTarget SymbolTable.methodNamed
  rw [h.table.findMethod, h.table.isAmbiguous, h.table.broken, h.table.className]
  cases s.table.findMethod c callee.text with
  | some m => rfl
  | none =>
    dsimp only [Option.map_none]
    split_ifs
    · rfl
    · rfl
    · rfl

theorem methodTarget_reachable (c : ClassId) (callee : Ident) :
    s.Reachable (s.methodTarget c callee) := by
  unfold Site.methodTarget SymbolTable.methodNamed
  cases hm : s.table.findMethod c callee.text with
  | some m => exact h.table.method_lt hm
  | none =>
    dsimp only
    split_ifs
    · trivial
    · trivial
    · trivial

/-- **A call without a receiver reaches what it reached before**, if its name denotes the same class
or none. -/
theorem callTarget {callee : Ident} (hc : N callee.text) :
    s'.callTarget callee = σ.target (s.callTarget callee) := by
  unfold Site.callTarget
  -- Classes come first: here alone does it matter which names are those of classes.
  rw [h.table.lookupClass hc, h.cls]
  cases s.table.lookupClass callee.text with
  | some c => rfl
  | none => exact h.methodTarget s.cls callee

/-- What a call reaches is a method of the table. -/
theorem callTarget_reachable (callee : Ident) : s.Reachable (s.callTarget callee) := by
  unfold Site.callTarget
  cases s.table.lookupClass callee.text with
  | some c => trivial
  | none => exact h.methodTarget_reachable s.cls callee

/-- A call on a value reaches what it reached before. -/
theorem sendTarget (receiver : Option Ty) (callee : Ident) :
    s'.sendTarget (receiver.map σ.ty) callee = σ.target (s.sendTarget receiver callee) := by
  cases receiver with
  | none => rfl
  | some a =>
    cases a with
    | int => rfl
    | void => rfl
    | cls c => exact h.methodTarget c callee

theorem sendTarget_reachable (receiver : Option Ty) (callee : Ident) :
    s.Reachable (s.sendTarget receiver callee) := by
  cases receiver with
  | none => trivial
  | some a =>
    cases a with
    | int => trivial
    | void => trivial
    | cls c => exact h.methodTarget_reachable c callee

theorem targetType? (target : Target) :
    s'.targetType? (σ.target target) = (s.targetType? target).map σ.ty := by
  cases target with
  | construct c => rfl
  | method on m => exact h.table.methodAt_returnType m
  | nothing why => rfl

end Carried

/-- **The type of an expression.** -/
theorem Carried.type? (h : Carried σ N s s') (e : Expr) (he : ∀ w ∈ e.callees, N w) :
    s'.type? e = (s.type? e).map σ.ty := by
  cases e with
  | int value _ =>
    unfold Site.type?
    split
    · rfl
    · rfl
  | name ident =>
    unfold Site.type?
    rw [h.var]
    cases s.var ident with
    | error i => rfl
    | ok v => exact h.varType? v
  | self _ => exact congrArg (fun c => some (Ty.cls c)) h.cls
  | binary => rfl
  | call callee _ _ =>
    unfold Site.type?
    rw [h.callTarget (List.forall_mem_cons.mp he).1, h.targetType?]
  | send receiver callee _ _ =>
    unfold Site.type?
    rw [h.type? receiver (List.forall_mem_append.mp he).1, σ.asValue, h.sendTarget, h.targetType?]

namespace Carried

variable (h : Carried σ N s s') {e : Expr} (he : ∀ w ∈ e.callees, N w)
include h

section Value

include he

theorem valueType? : s'.valueType? e = (s.valueType? e).map σ.ty := by
  unfold Site.valueType?
  rw [h.type? e he, σ.asValue]

/-! ## What is wrong with an expression -/

theorem useIssues : s'.useIssues e = s.useIssues e := by
  unfold Site.useIssues
  rw [h.type? e he]
  cases s.type? e with
  | none => rfl
  | some a => exact congrArg Option.toList (SymbolTable.Carried.valueIssue?_ty σ a e.span)

theorem storeIssues (target : Option Ty) (use : String) :
    s'.storeIssues e (target.map σ.ty) use = s.storeIssues e target use := by
  unfold Site.storeIssues
  rw [h.valueType? he]
  cases s.valueType? e with
  | none => rfl
  | some a =>
    cases target with
    | none => rfl
    | some b => exact congrArg Option.toList (h.table.storeIssue? a b use e.span)

theorem operandIssues (op : BinOp) : s'.operandIssues op e = s.operandIssues op e := by
  unfold Site.operandIssues
  rw [h.valueType? he]
  cases s.valueType? e with
  | none => rfl
  | some a => exact congrArg Option.toList (h.table.operandIssue? op a e.span)

end Value

theorem paramType? (target : Target) (i : Nat) :
    s'.paramType? (σ.target target) i = (s.paramType? target i).map σ.ty := by
  cases target with
  | construct c => rfl
  | nothing why => rfl
  | method on m =>
    show (s'.table.explicitParams (σ.method m))[i]?.bind _
      = ((s.table.explicitParams m)[i]?.bind _).map σ.ty
    rw [h.table.explicitParams, List.getElem?_map]
    cases (s.table.explicitParams m)[i]? with
    | none => rfl
    | some v => exact h.table.varAt_type v

theorem argUse {target : Target} (ht : s.Reachable target) (i : Nat) :
    s'.argUse (σ.target target) i = s.argUse target i := by
  cases target with
  | construct c => rfl
  | nothing why => rfl
  | method on m =>
    exact congrArg (fun name => "argument " ++ toString (i + 1) ++ " of " ++ quoted name)
      (h.table.qualifiedName ht)

/-- A call is passed too many or too few arguments in both tables, or in neither. -/
theorem targetIssues {target : Target} (ht : s.Reachable target) (callee : Ident) (got : Nat)
    (span : Span) :
    s'.targetIssues callee got span (σ.target target) = s.targetIssues callee got span target := by
  cases target with
  | construct c => rfl
  | nothing why => rfl
  | method on m => exact congrArg Option.toList (h.table.arityIssue? ht got span)

end Carried

mutual
/-- **What is wrong with an expression.** -/
theorem Carried.issues (h : Carried σ N s s') : (e : Expr) → (∀ w ∈ e.callees, N w) →
    s'.issues e = s.issues e
  | .int value span, _ => by
    unfold Site.issues
    rfl
  | .name ident, _ => by
    unfold Site.issues
    rw [h.var]
    cases s.var ident <;> rfl
  | .self _, _ => by
    unfold Site.issues
    rfl
  | .binary op left right _, he => by
    obtain ⟨hl, hr⟩ := List.forall_mem_append.mp he
    unfold Site.issues
    rw [h.issues left hl, h.issues right hr, h.useIssues hl, h.useIssues hr, h.operandIssues hl,
      h.operandIssues hr]
  | .call callee args span, he => by
    obtain ⟨hc, ha⟩ := List.forall_mem_cons.mp he
    unfold Site.issues
    dsimp only
    rw [h.callTarget hc, h.targetIssues (h.callTarget_reachable callee),
      h.argIssues (h.callTarget_reachable callee) 0 args ha]
  | .send receiver callee args span, he => by
    obtain ⟨hr, ha⟩ := List.forall_mem_append.mp he
    have ht := h.sendTarget_reachable (s.valueType? receiver) callee
    unfold Site.issues
    dsimp only
    rw [h.valueType? hr, h.sendTarget, h.targetIssues ht, h.argIssues ht 0 args ha,
      h.issues receiver hr, h.useIssues hr]
theorem Carried.argIssues (h : Carried σ N s s') {target : Target}
    (ht : s.Reachable target) (i : Nat) : (args : List Expr) → (∀ w ∈ argCallees args, N w) →
    s'.argIssues (σ.target target) i args = s.argIssues target i args
  | [], _ => by
    unfold Site.argIssues
    rfl
  | e :: rest, he => by
    obtain ⟨he, hrest⟩ := List.forall_mem_append.mp he
    unfold Site.argIssues
    rw [h.issues e he, h.useIssues he, h.paramType?, h.storeIssues he, h.argUse ht,
      h.argIssues ht (i + 1) rest hrest]
end

namespace Carried

variable (h : Carried σ N s s') {e : Expr} (he : ∀ w ∈ e.callees, N w)
include h

section Value

include he

theorem valueIssues : s'.valueIssues e = s.valueIssues e := by
  unfold Site.valueIssues
  rw [h.issues e he, h.useIssues he]

theorem checkIssues (target : Option Ty) (use : String) :
    s'.checkIssues e (target.map σ.ty) use = s.checkIssues e target use := by
  unfold Site.checkIssues
  rw [h.valueIssues he, h.storeIssues he]

end Value

/-! ## The text of an expression -/

theorem varCode (v : VarId) : s'.varCode (σ.var v) = s.varCode v := by
  unfold Site.varCode
  rw [h.table.varAt, h.cls, h.table.fieldAccess]
  rfl

include he in
theorem valueText (code : String) : s'.valueText e code = s.valueText e code := by
  have hvoid : s'.type? e = some .void ↔ s.type? e = some .void := by
    rw [h.type? e he, Option.map_eq_some_iff]
    constructor
    · rintro ⟨a, ha, hvoid⟩
      rw [ha, σ.ty_eq_void_iff.mp hvoid]
    · intro hvoid
      exact ⟨.void, hvoid, rfl⟩
  unfold Site.valueText
  rw [if_congr hvoid rfl rfl]

include he in
/-- A value that is stored is converted by the same text. -/
theorem storeText (target : Option Ty) (code : String) :
    s'.storeText e (target.map σ.ty) code = s.storeText e target code := by
  unfold Site.storeText
  rw [h.valueType? he]
  cases s.valueType? e with
  | none => rfl
  | some a =>
    cases target with
    | none => rfl
    | some b =>
      show (if s'.table.isCompatible (σ.ty a) (σ.ty b) = true then
        C.standalone e (C.convert s'.table code ((some a).map σ.ty) (σ.ty b)) else code) = _
      rw [h.table.isCompatible, h.table.convert]

/-- A call is written by the same text. -/
theorem callText {target : Target} (ht : s.Reachable target) (receiver args : String) :
    s'.callText receiver args (σ.target target) = s.callText receiver args target := by
  cases target with
  | construct c =>
    exact congrArg (fun name => "&(" ++ C.ident name ++ ")\x7b0\x7d") (h.table.className c)
  | nothing why => rfl
  | method on m =>
    show Site.callText s' receiver args (.method (σ.cls on) (σ.method m)) = _
    unfold Site.callText
    dsimp only
    rw [h.table.methodAt_returnType, h.table.owner ht, h.table.className, h.table.methodAt_name,
      h.table.upcast, Option.isNone_map]

end Carried

mutual
/-- **The text of an expression.** -/
theorem Carried.code (h : Carried σ N s s') : (e : Expr) → (∀ w ∈ e.callees, N w) →
    s'.code e = s.code e
  | .int value span, _ => by
    unfold Site.code
    rfl
  | .name ident, _ => by
    unfold Site.code
    rw [h.var]
    cases s.var ident with
    | error i => rfl
    | ok v => exact h.varCode v
  | .self _, _ => by
    unfold Site.code
    rfl
  | .binary op left right _, he => by
    obtain ⟨hl, hr⟩ := List.forall_mem_append.mp he
    unfold Site.code
    rw [h.code left hl, h.code right hr, h.valueText hl, h.valueText hr]
  | .call callee args span, he => by
    obtain ⟨hc, ha⟩ := List.forall_mem_cons.mp he
    unfold Site.code
    dsimp only
    rw [h.callTarget hc, h.callText (h.callTarget_reachable callee),
      h.argsCode (h.callTarget_reachable callee) 0 args ha]
  | .send receiver callee args span, he => by
    obtain ⟨hr, ha⟩ := List.forall_mem_append.mp he
    have ht := h.sendTarget_reachable (s.valueType? receiver) callee
    unfold Site.code
    dsimp only
    rw [h.valueType? hr, h.sendTarget, h.callText ht, h.argsCode ht 0 args ha, h.code receiver hr,
      h.valueText hr]
theorem Carried.argsCode (h : Carried σ N s s') {target : Target}
    (ht : s.Reachable target) (i : Nat) : (args : List Expr) → (∀ w ∈ argCallees args, N w) →
    s'.argsCode (σ.target target) i args = s.argsCode target i args
  | [], _ => by
    unfold Site.argsCode
    rfl
  | e :: rest, he => by
    obtain ⟨he, hrest⟩ := List.forall_mem_append.mp he
    unfold Site.argsCode
    rw [h.code e he, h.valueText he, h.paramType?, h.storeText he,
      h.argsCode ht (i + 1) rest hrest]
end

section Value

variable (h : Carried σ N s s') {e : Expr} (he : ∀ w ∈ e.callees, N w)
include h he

theorem Carried.valueCode : s'.valueCode e = s.valueCode e := by
  unfold Site.valueCode
  rw [h.code e he, h.valueText he]

theorem Carried.checkCode (target : Option Ty) :
    s'.checkCode e (target.map σ.ty) = s.checkCode e target := by
  unfold Site.checkCode
  rw [h.valueCode he, h.storeText he]

end Value

end Site

/-! ## Bodies -/

namespace Body

/-- **Two methods that differ by where the symbols stand.** -/
structure Carried (σ : Renaming) (N : String → Prop) (b b' : Body) : Prop where
  table : SymbolTable.Carried σ N b.table b'.table
  method : b'.method = σ.method b.method
  method_lt : b.method < b.table.methods.length
  /-- No body is in the scope of the program, whose children do change their order. -/
  nested : Nested b.table

variable {σ : Renaming} {N : String → Prop} {b b' : Body}

namespace Carried

variable (h : Carried σ N b b')
include h

theorem cls : b'.cls = σ.cls b.cls := by
  unfold Body.cls
  rw [h.method, h.table.owner h.method_lt]

/-- **At each point of a body the site is the renamed one.** -/
theorem site (env : Env) : Site.Carried σ N (b.site env) (b'.site (σ.env env)) where
  table := h.table
  env := rfl
  cls := h.cls

theorem lookupIn (env : Env) (name : String) :
    b'.table.lookupIn (σ.env env).scope name = (b.table.lookupIn env.scope name).map σ.var :=
  h.table.lookupIn env.scope name

theorem returnType :
    (b'.table.methodAt b'.method).returnType
      = (b.table.methodAt b.method).returnType.map σ.ty := by
  rw [h.method, h.table.methodAt_returnType]

/-! ### The environment -/

/-- Declarators are passed alike. -/
theorem afterVars (vars : List Declarator) (env : Env) :
    b'.afterVars vars (σ.env env) = (b.afterVars vars env).map σ.env := by
  induction vars generalizing env with
  | nil => rfl
  | cons v rest ih =>
    unfold Body.afterVars Body.afterVar
    rw [h.lookupIn]
    cases b.table.lookupIn env.scope v.name.text with
    | none => rfl
    | some id =>
      show b'.afterVars rest ((σ.env env).declare b'.table v.name.text) = _
      rw [h.table.env_declare]
      exact ih _

/-- What follows in a block, if it follows in the statements of it. -/
theorem afterBlock_of {body : List Stmt}
    (hbody : ∀ {env : Env}, env.Inside b.table →
      b'.afterAll body (σ.env env) = (b.afterAll body env).map σ.env)
    (span : Span) {env : Env} (henv : env.Inside b.table) :
    b'.afterBlock body span (σ.env env) = (b.afterBlock body span env).map σ.env := by
  show ((σ.env env).enter b'.table span).bind _ = Except.map _ ((env.enter b.table span).bind _)
  rw [h.table.env_enter henv]
  cases henter : env.enter b.table span with
  | error i => rfl
  | ok inside =>
    show (b'.afterAll body (σ.env inside)).bind _ = Except.map _ ((b.afterAll body inside).bind _)
    rw [hbody (henv.enter h.nested henter)]
    cases b.afterAll body inside with
    | error i => rfl
    | ok last => exact congrArg Except.ok (σ.env_leave last)

end Carried

mutual
/-- **The environment after a statement.** -/
theorem Carried.after (h : Carried σ N b b') : (s : Stmt) → {env : Env} →
    env.Inside b.table → b'.after s (σ.env env) = (b.after s env).map σ.env
  | .declare _ vars _, env, _ => by
    unfold Body.after
    exact h.afterVars vars env
  | .ifThen cond body bodySpan span, _, henv => by
    rw [after_ifThen, after_ifThen]
    exact h.afterBlock_of (h.afterAll body) bodySpan henv
  | .ifElse cond body bodySpan other otherSpan span, env, henv => by
    rw [after_ifElse, after_ifElse, h.afterBlock_of (h.afterAll body) bodySpan henv]
    cases hblock : b.afterBlock body bodySpan env with
    | error i => rfl
    | ok env' =>
      exact h.afterBlock_of (h.afterAll other) otherSpan
        (afterBlock_inside h.nested body henv hblock)
  | .loop cond body bodySpan span, _, henv => by
    rw [after_loop, after_loop]
    exact h.afterBlock_of (h.afterAll body) bodySpan henv
  | .ret _ _, _, _ => by
    unfold Body.after
    rfl
  | .assign _ _ _, _, _ => by
    unfold Body.after
    rfl
  | .eval _ _, _, _ => by
    unfold Body.after
    rfl
theorem Carried.afterAll (h : Carried σ N b b') : (body : List Stmt) → {env : Env} →
    env.Inside b.table → b'.afterAll body (σ.env env) = (b.afterAll body env).map σ.env
  | [], _, _ => by
    unfold Body.afterAll
    rfl
  | s :: rest, env, henv => by
    show (b'.after s (σ.env env)).bind (b'.afterAll rest)
      = Except.map _ ((b.after s env).bind (b.afterAll rest))
    rw [h.after s henv]
    cases hs : b.after s env with
    | error i => rfl
    | ok env' => exact h.afterAll rest (after_inside h.nested s henv hs)
end

namespace Carried

variable (h : Carried σ N b b')
include h

theorem afterBlock (body : List Stmt) (span : Span) {env : Env} (henv : env.Inside b.table) :
    b'.afterBlock body span (σ.env env) = (b.afterBlock body span env).map σ.env :=
  h.afterBlock_of (h.afterAll body) span henv

/-! ### What is written -/

theorem assignTarget (env : Env) (target : Ident) :
    b'.assignTarget (σ.env env) target
      = ((b.assignTarget env target).1.map σ.ty, (b.assignTarget env target).2) := by
  unfold Body.assignTarget
  rw [(h.site env).var]
  cases (b.site env).var target with
  | error i => rfl
  | ok v =>
    dsimp only [Except.map]
    rw [(h.site env).varCode, h.table.varAt]
    dsimp only [Renaming.varSymbol]
    cases (b.table.varAt v).kind <;> rfl

theorem assignTargetIssues (env : Env) (target : Ident) :
    b'.assignTargetIssues (σ.env env) target = b.assignTargetIssues env target := by
  unfold Body.assignTargetIssues
  rw [(h.site env).var]
  cases (b.site env).var target with
  | error i => rfl
  | ok v =>
    dsimp only [Except.map]
    rw [h.table.varAt]
    rfl

/-- A local is declared by the same line. -/
theorem varLine (env : Env) (type : Ident) {v : Declarator} (hv : ∀ w ∈ v.callees, N w)
    (id : VarId) : b'.varLine (σ.env env) type v (σ.var id) = b.varLine env type v id := by
  unfold Body.varLine
  unfold Declarator.callees at hv
  rw [h.table.varAt_type]
  dsimp only
  cases hinit : v.init with
  | none =>
    cases (b.table.varAt id).type with
    | none => rfl
    | some a => exact congrArg (C.declaration · _ ++ ";") (h.table.typeText a)
  | some e =>
    rw [hinit] at hv
    dsimp only
    rw [(h.site env).checkCode hv]
    cases (b.table.varAt id).type with
    | none => rfl
    | some a => exact congrArg (C.declaration · _ ++ " = " ++ _ ++ ";") (h.table.typeText a)

/-- Locals are declared by the same lines, or the body stops at the same one. -/
theorem varSteps (type : Ident) (vars : List Declarator)
    (hvars : ∀ w ∈ vars.flatMap Declarator.callees, N w) (env : Env) :
    b'.varSteps type vars (σ.env env) = b.varSteps type vars env := by
  induction vars generalizing env with
  | nil => rfl
  | cons v rest ih =>
    obtain ⟨hv, hrest⟩ := List.forall_mem_append.mp hvars
    unfold Body.varSteps
    rw [h.lookupIn]
    cases b.table.lookupIn env.scope v.name.text with
    | none => rfl
    | some id =>
      dsimp only [Option.map_some]
      rw [h.varLine env type hv, h.table.env_declare, ih hrest]

theorem varIssues (vars : List Declarator) (hvars : ∀ w ∈ vars.flatMap Declarator.callees, N w)
    (env : Env) : b'.varIssues vars (σ.env env) = b.varIssues vars env := by
  induction vars generalizing env with
  | nil => rfl
  | cons v rest ih =>
    obtain ⟨hv, hrest⟩ := List.forall_mem_append.mp hvars
    unfold Declarator.callees at hv
    unfold Body.varIssues
    rw [h.lookupIn]
    cases b.table.lookupIn env.scope v.name.text with
    | none => rfl
    | some id =>
      dsimp only [Option.map_some]
      rw [h.table.env_declare, ih hrest, h.table.varAt_type]
      cases hinit : v.init with
      | none => rfl
      | some e =>
        rw [hinit] at hv
        exact congrArg (· ++ _) ((h.site env).checkIssues hv _ _)

theorem condCode (env : Env) {cond : Expr} (hc : ∀ w ∈ cond.callees, N w) :
    b'.condCode (σ.env env) cond = b.condCode env cond := by
  unfold Body.condCode
  rw [(h.site env).valueCode hc]

theorem condIssues (env : Env) {cond : Expr} (hc : ∀ w ∈ cond.callees, N w) :
    b'.condIssues (σ.env env) cond = b.condIssues env cond := by
  unfold Body.condIssues
  rw [(h.site env).valueIssues hc, (h.site env).valueType? hc]
  cases (b.site env).valueType? cond with
  | none => rfl
  | some a => exact congrArg (fun i => _ ++ Option.toList i) (h.table.conditionIssue? a cond.span)

theorem returnIssue? (a : Ty) (span : Span) :
    b'.table.returnIssue? b'.method (σ.ty a) span = b.table.returnIssue? b.method a span := by
  rw [h.method]
  exact h.table.returnIssue? h.method_lt a span

/-- A returned value is written by the same text. -/
theorem returnCode (env : Env) {value : Expr} (hv : ∀ w ∈ value.callees, N w) :
    b'.returnCode (σ.env env) value = b.returnCode env value := by
  unfold Body.returnCode
  dsimp only
  rw [(h.site env).type? value hv, (h.site env).code value hv, h.returnType]
  cases (b.site env).type? value with
  | none => rfl
  | some a =>
    cases (b.table.methodAt b.method).returnType with
    | none => rfl
    | some expected =>
      show C.standalone value
        (if (b'.table.returnIssue? b'.method (σ.ty a) value.span).isNone = true then
          C.convert b'.table _ ((some a).map σ.ty) (σ.ty expected) else _) = _
      rw [h.returnIssue?, h.table.convert]

theorem returnIssues (env : Env) {value : Option Expr}
    (hv : ∀ w ∈ (value.map Expr.callees).getD [], N w) (span : Span) :
    b'.returnIssues (σ.env env) value span = b.returnIssues env value span := by
  unfold Body.returnIssues
  cases value with
  | none =>
    dsimp only
    rw [h.method, h.table.bareReturnIssue? h.method_lt]
  | some e =>
    dsimp only
    rw [(h.site env).issues e hv, (h.site env).type? e hv]
    cases (b.site env).type? e with
    | none => rfl
    | some a => exact congrArg (fun i => _ ++ Option.toList i) (h.returnIssue? a e.span)

omit h in
theorem closeIfReached_map (r : Except Issue Env) :
    closeIfReached (r.map σ.env) = closeIfReached r := by
  cases r <;> rfl

/-- What is read off the inside of a block, if it is read off where the block starts. -/
theorem inside_of {α : Type} {f f' : Env → List α}
    (hf : ∀ {env : Env}, env.Inside b.table → f' (σ.env env) = f env)
    (span : Span) {env : Env} (henv : env.Inside b.table) :
    (match (σ.env env).enter b'.table span with
      | .ok inside => f' inside
      | .error _ => [])
      = (match env.enter b.table span with
      | .ok inside => f inside
      | .error _ => []) := by
  rw [h.table.env_enter henv]
  cases henter : env.enter b.table span with
  | error i => rfl
  | ok inside => exact hf (henv.enter h.nested henter)

end Carried

mutual
/-- **What is written for a statement.** -/
theorem Carried.steps (h : Carried σ N b b') : (s : Stmt) → (∀ w ∈ s.callees, N w) → {env : Env} →
    env.Inside b.table → b'.steps s (σ.env env) = b.steps s env
  | .declare type vars _, hs, env, _ => by
    unfold Body.steps
    exact h.varSteps type vars hs env
  | .ifThen cond body bodySpan span, hs, env, henv => by
    obtain ⟨hc, hbody⟩ := List.forall_mem_append.mp hs
    unfold Body.steps
    rw [h.condCode env hc, h.after _ henv, closeIfReached_map]
    exact congrArg (fun first => C.Step.opening _ :: (first ++ _))
      (h.inside_of (h.stepsAll body hbody) bodySpan henv)
  | .ifElse cond body bodySpan other otherSpan span, hs, env, henv => by
    obtain ⟨hc, hs⟩ := List.forall_mem_append.mp hs
    obtain ⟨hbody, hother⟩ := List.forall_mem_append.mp hs
    unfold Body.steps
    rw [h.condCode env hc, h.after _ henv, closeIfReached_map, h.afterBlock body bodySpan henv]
    refine congrArg₂ (fun first second => C.Step.opening _ :: (first ++ second ++ _))
      (h.inside_of (h.stepsAll body hbody) bodySpan henv) ?_
    cases hblock : b.afterBlock body bodySpan env with
    | error i => rfl
    | ok env' =>
      exact congrArg (fun second => C.Step.closing _ :: .indent :: second)
        (h.inside_of (h.stepsAll other hother) otherSpan
          (afterBlock_inside h.nested body henv hblock))
  | .loop cond body bodySpan span, hs, env, henv => by
    obtain ⟨hc, hbody⟩ := List.forall_mem_append.mp hs
    unfold Body.steps
    rw [h.condCode env hc, h.after _ henv, closeIfReached_map]
    exact congrArg (fun first => C.Step.opening _ :: (first ++ _))
      (h.inside_of (h.stepsAll body hbody) bodySpan henv)
  | .ret none _, _, _, _ => by
    unfold Body.steps
    rfl
  | .ret (some value) _, hs, env, _ => by
    unfold Body.steps
    rw [h.returnCode env hs]
  | .assign target value _, hs, env, _ => by
    unfold Body.steps
    dsimp only
    rw [h.assignTarget, (h.site env).checkCode hs]
  | .eval expr _, hs, env, _ => by
    unfold Body.steps
    rw [(h.site env).code expr hs]
theorem Carried.stepsAll (h : Carried σ N b b') : (body : List Stmt) →
    (∀ w ∈ calleesAll body, N w) → {env : Env} → env.Inside b.table →
    b'.stepsAll body (σ.env env) = b.stepsAll body env
  | [], _, _, _ => by
    unfold Body.stepsAll
    rfl
  | s :: rest, hs, env, henv => by
    obtain ⟨hs, hrest⟩ := List.forall_mem_append.mp hs
    unfold Body.stepsAll
    rw [h.steps s hs henv, h.after s henv]
    cases hafter : b.after s env with
    | error i => rfl
    | ok env' =>
      exact congrArg (_ ++ ·) (h.stepsAll rest hrest (after_inside h.nested s henv hafter))
end

mutual
/-- **What is wrong with a statement.** -/
theorem Carried.issues (h : Carried σ N b b') : (s : Stmt) → (∀ w ∈ s.callees, N w) →
    {env : Env} → env.Inside b.table → b'.issues s (σ.env env) = b.issues s env
  | .declare _ vars _, hs, env, _ => by
    unfold Body.issues
    exact h.varIssues vars hs env
  | .ifThen cond body bodySpan span, hs, env, henv => by
    obtain ⟨hc, hbody⟩ := List.forall_mem_append.mp hs
    unfold Body.issues
    rw [h.condIssues env hc]
    exact congrArg (_ ++ ·) (h.inside_of (h.issuesAll body hbody) bodySpan henv)
  | .ifElse cond body bodySpan other otherSpan span, hs, env, henv => by
    obtain ⟨hc, hs⟩ := List.forall_mem_append.mp hs
    obtain ⟨hbody, hother⟩ := List.forall_mem_append.mp hs
    unfold Body.issues
    rw [h.condIssues env hc, h.afterBlock body bodySpan henv]
    refine congrArg₂ (fun first second => _ ++ first ++ second)
      (h.inside_of (h.issuesAll body hbody) bodySpan henv) ?_
    cases hblock : b.afterBlock body bodySpan env with
    | error i => rfl
    | ok env' =>
      exact h.inside_of (h.issuesAll other hother) otherSpan
        (afterBlock_inside h.nested body henv hblock)
  | .loop cond body bodySpan span, hs, env, henv => by
    obtain ⟨hc, hbody⟩ := List.forall_mem_append.mp hs
    unfold Body.issues
    rw [h.condIssues env hc]
    exact congrArg (_ ++ ·) (h.inside_of (h.issuesAll body hbody) bodySpan henv)
  | .ret value span, hs, env, _ => by
    unfold Body.issues
    exact h.returnIssues env hs span
  | .assign target value _, hs, env, _ => by
    unfold Body.issues
    rw [h.assignTarget, h.assignTargetIssues, (h.site env).checkIssues hs]
  | .eval expr _, hs, env, _ => by
    unfold Body.issues
    rw [(h.site env).issues expr hs]
theorem Carried.issuesAll (h : Carried σ N b b') : (body : List Stmt) →
    (∀ w ∈ calleesAll body, N w) → {env : Env} → env.Inside b.table →
    b'.issuesAll body (σ.env env) = b.issuesAll body env
  | [], _, _, _ => by
    unfold Body.issuesAll
    rfl
  | s :: rest, hs, env, henv => by
    obtain ⟨hs, hrest⟩ := List.forall_mem_append.mp hs
    unfold Body.issuesAll
    rw [h.issues s hs henv, h.after s henv]
    cases hafter : b.after s env with
    | error i => rfl
    | ok env' =>
      exact congrArg (_ ++ ·) (h.issuesAll rest hrest (after_inside h.nested s henv hafter))
end

/-! ### Whole bodies -/

namespace Carried

variable (h : Carried σ N b b')
include h

/-- A body starts in the renamed environment. -/
theorem start : b'.start = σ.env b.start := by
  unfold Body.start
  rw [h.method]
  exact h.table.env_ofMethod b.method

theorem start_inside : b.start.Inside b.table :=
  Env.inside_ofMethod ⟨h.table.formed, h.method_lt⟩

/-- **The definition of a method.** -/
theorem definitionSteps (body : List Stmt) (hb : ∀ w ∈ calleesAll body, N w) :
    C.definitionSteps b'.table b'.method body = C.definitionSteps b.table b.method body := by
  have hbody : b'.bodySteps body = b.bodySteps body := by
    unfold Body.bodySteps
    rw [h.start, h.stepsAll body hb h.start_inside]
  unfold C.definitionSteps
  rw [hbody, h.method, h.table.signature h.method_lt]

/-- **What is wrong with the body of a method.** -/
theorem issuesAll_start (body : List Stmt) (hb : ∀ w ∈ calleesAll body, N w) :
    b'.issuesAll body b'.start = b.issuesAll body b.start := by
  rw [h.start, h.issuesAll body hb h.start_inside]

end Carried

end Body

/-! ## Parts of a file -/

section Parts

variable {σ : Renaming} {N : String → Prop}

/-- A method and its body, in the resolved table of a program and in another. -/
theorem carried_body {p : Program} {u' : SymbolTable}
    (h : SymbolTable.Carried σ N (collect p).table.resolve.table u') {m : MethodId}
    (hm : m < (collect p).table.resolve.table.methods.length) :
    Body.Carried σ N ⟨(collect p).table.resolve.table, m⟩ ⟨u', σ.method m⟩ where
  table := h
  method := rfl
  method_lt := hm
  nested := (collect_nested p).of_scopes (scopes_of_declared (resolve_declared _))

/-- **The part of a method.** -/
theorem functionPart_carried {p : Program} {u' : SymbolTable}
    (h : SymbolTable.Carried σ N (collect p).table.resolve.table u')
    {m : MethodId × MethodDecl} (hm : m.1 < (collect p).table.resolve.table.methods.length)
    (hb : ∀ w ∈ calleesAll m.2.body, N w) :
    C.functionPart u' (Prod.map σ.method id m)
      = C.functionPart (collect p).table.resolve.table m := by
  unfold C.functionPart
  dsimp only [Prod.map_fst, Prod.map_snd, id]
  rw [h.owner hm, h.className, h.methodAt_name, h.signature hm,
    (carried_body h hm).definitionSteps m.2.body hb]

/-- **The part of a class.** -/
theorem structPart_carried {t u' : SymbolTable} (h : SymbolTable.Carried σ N t u') (c : ClassId) :
    C.structPart u' (σ.cls c) = C.structPart t c := by
  unfold C.structPart
  rw [h.className, h.structSteps]

end Parts

end Heritage
