import Heritage.C.Function
import Heritage.Proofs.Bodies
import Heritage.Proofs.Marked

/-!
# Functions as trees

What is written for a method is a list of lines. It is also a C function: a
header that declares the parameters, and a body of declarations, statements and
blocks. Here the function is built as such a tree, in which declarations and the
names of variables are marked with the variables they were written for, and the
lines of the tree are those that are written (`Body.Of.steps_function`).
-/

namespace Heritage

open SymbolTable

namespace C

/-- **What a C block is made of.** -/
inductive Item where
  /-- The declaration of a local, with its initial value. -/
  | declare (type : String) (v : VarId) (init : Option (List Piece))
  /-- A statement on a line of its own. -/
  | line (text : List Piece)
  /-- A statement with a block, of which the header is a part. -/
  | block (header : List Piece) (body : List Item)
  /-- A statement with two blocks. -/
  | branch (header : List Piece) (body other : List Item)

/-- **A C function**: the parameters with the texts of their types, and the
body. -/
structure Function where
  /-- The text of the type that is returned. -/
  type : String
  /-- The name. -/
  name : String
  /-- The parameters, each with the text of its type. -/
  params : List (String × VarId)
  /-- The outermost block. -/
  body : List Item

/-- The line of a declaration. -/
def declarationLine (t : SymbolTable) (type : String) (v : VarId) (init : Option (List Piece)) :
    String :=
  match init with
  | none => declaration type (spelling t v) ++ ";"
  | some ps => declaration type (spelling t v) ++ " = " ++ render t ps ++ ";"

mutual
/-- The lines of an item. -/
def Item.steps (t : SymbolTable) : Item → List Step
  | .declare type v init => [.line (declarationLine t type v init)]
  | .line text => [.line (render t text)]
  | .block header body => .opening (render t header) :: (stepsOf t body ++ [.closing "\x7d"])
  | .branch header body other =>
    .opening (render t header)
      :: (stepsOf t body ++ .closing "\x7d else \x7b" :: .indent :: stepsOf t other
        ++ [.closing "\x7d"])
/-- The lines of a block. -/
def stepsOf (t : SymbolTable) : List Item → List Step
  | [] => []
  | item :: rest => item.steps t ++ stepsOf t rest
end

theorem stepsOf_append (t : SymbolTable) (xs ys : List Item) :
    stepsOf t (xs ++ ys) = stepsOf t xs ++ stepsOf t ys := by
  induction xs with
  | nil => rfl
  | cons x rest ih => rw [List.cons_append, stepsOf, ih, stepsOf, List.append_assoc]

/-- **The lines of a function.** -/
def Function.steps (t : SymbolTable) (f : Function) : List Step :=
  .opening (declaration f.type (f.name ++ "("
      ++ ", ".intercalate (f.params.map fun q => declaration q.1 (spelling t q.2)) ++ ")"))
    :: (stepsOf t f.body ++ [.closing "\x7d"])

end C

/-! ## The tree of a body -/

namespace Body

open C

/-- The pieces of an expression whose value is stored where a type is
expected. -/
def checkPieces (b : Body) (env : Env) (e : Expr) (target : Option Ty) : List Piece :=
  (b.site env).storePieces e target ((b.site env).valuePieces e ((b.site env).marked e))

/-- The pieces of a condition. -/
def condPieces (b : Body) (env : Env) (cond : Expr) : List Piece :=
  standalonePieces cond ((b.site env).valuePieces cond ((b.site env).marked cond))

/-- The pieces of a returned value. -/
def returnPieces (b : Body) (env : Env) (value : Expr) : List Piece :=
  let s := b.site env
  standalonePieces value <|
    match s.type? value, (b.table.methodAt b.method).returnType with
    | some type, some expected =>
      if (b.table.returnIssue? b.method type value.span).isNone then
        convertPieces b.table (s.marked value) (some type) expected
      else s.marked value
    | _, _ => s.marked value

/-- The pieces of what an assignment goes to. -/
def targetPieces (b : Body) (env : Env) (target : Ident) : List Piece :=
  match (b.site env).var target with
  | .error _ => [.text (C.ident target.text)]
  | .ok v => (b.site env).varPieces v

/-- The items of declarators. -/
def varItems (b : Body) (type : Ident) : List Declarator → Env → List Item
  | [], _ => []
  | v :: rest, env =>
    match b.table.lookupIn env.scope v.name.text with
    | none => []
    | some id =>
      let known := (b.table.varAt id).type
      .declare (known.elim type.text (typeText b.table)) id
          (v.init.map fun e => b.checkPieces env e known)
        :: b.varItems type rest (env.declare b.table v.name.text)

mutual
/-- The items of a statement. -/
def item (b : Body) : Stmt → Env → List Item
  | .declare type vars _, env => b.varItems type vars env
  | .ifThen cond body bodySpan _, env =>
    [.block (.text "if (" :: b.condPieces env cond ++ [.text ")"])
      (match env.enter b.table bodySpan with
        | .ok inside => b.items body inside
        | .error _ => [])]
  | .ifElse cond body bodySpan other otherSpan _, env =>
    [.branch (.text "if (" :: b.condPieces env cond ++ [.text ")"])
      (match env.enter b.table bodySpan with
        | .ok inside => b.items body inside
        | .error _ => [])
      (match b.afterBlock body bodySpan env with
        | .error _ => []
        | .ok env =>
          match env.enter b.table otherSpan with
          | .ok inside => b.items other inside
          | .error _ => [])]
  | .loop cond body bodySpan _, env =>
    [.block (.text "while (" :: b.condPieces env cond ++ [.text ")"])
      (match env.enter b.table bodySpan with
        | .ok inside => b.items body inside
        | .error _ => [])]
  | .ret none _, _ => [.line [.text "return;"]]
  | .ret (some value) _, env =>
    [.line (.text "return " :: b.returnPieces env value ++ [.text ";"])]
  | .assign target value _, env =>
    [.line (b.targetPieces env target ++ .text " = "
      :: b.checkPieces env value (b.assignTarget env target).1 ++ [.text ";"])]
  | .eval expr _, env =>
    [.line (standalonePieces expr ((b.site env).marked expr) ++ [.text ";"])]
/-- **The items of a list of statements.** -/
def items (b : Body) : List Stmt → Env → List Item
  | [], _ => []
  | s :: rest, env =>
    b.item s env
      ++ (match b.after s env with
        | .ok env => b.items rest env
        | .error _ => [])
end

/-- **The function for a method**, as a tree. -/
def function (b : Body) (body : List Stmt) : Function where
  type := memberTypeText b.table (b.table.methodAt b.method).returnType
    (b.table.methodAt b.method).returnTypeName
  name := functionName (b.table.classAt b.cls).name (b.table.methodAt b.method).name
  params := (b.table.paramsOf b.method).map fun v =>
    (memberTypeText b.table (b.table.varAt v).type (b.table.varAt v).typeName, v)
  body := b.items body b.start

/-! ## Its lines are those that are written -/

variable {p : Program} {t : SymbolTable} {b : Body} {result : Ty}

theorem render_checkPieces (env : Env) (e : Expr) (target : Option Ty) :
    render b.table (b.checkPieces env e target) = (b.site env).checkCode e target := by
  have hstore := Site.render_storePieces (s := b.site env)
    ((b.site env).bracketed_valuePieces e) target
  rw [Site.render_valuePieces, Site.render_marked] at hstore
  exact hstore

theorem render_condPieces (env : Env) (cond : Expr) :
    render b.table (b.condPieces env cond) = b.condCode env cond := by
  have hvalue := Site.render_valuePieces (s := b.site env) cond ((b.site env).marked cond)
  rw [Site.render_marked] at hvalue
  unfold condPieces condCode
  rw [render_standalonePieces ((b.site env).bracketed_valuePieces cond)]
  exact congrArg (standalone cond) hvalue

theorem render_returnPieces (env : Env) (value : Expr) :
    render b.table (b.returnPieces env value) = b.returnCode env value := by
  have hmarked : render b.table ((b.site env).marked value) = (b.site env).code value :=
    (b.site env).render_marked value
  have hbracketed := (b.site env).bracketed_marked value
  unfold returnPieces returnCode
  dsimp only
  cases htype : (b.site env).type? value with
  | none => rw [render_standalonePieces hbracketed, hmarked]
  | some type =>
    cases (b.table.methodAt b.method).returnType with
    | none => rw [render_standalonePieces hbracketed, hmarked]
    | some expected =>
      dsimp only
      split
      · rw [render_standalonePieces, render_convertPieces, hmarked]
        rintro op left right span rfl
        unfold Site.type? at htype
        obtain rfl := Option.some.inj htype
        exact hbracketed op left right span rfl
      · rw [render_standalonePieces hbracketed, hmarked]

theorem render_targetPieces (env : Env) (target : Ident) :
    render b.table (b.targetPieces env target) = (b.assignTarget env target).2 := by
  unfold targetPieces assignTarget
  cases (b.site env).var target with
  | error i => simp
  | ok v =>
    refine (Site.render_varPieces (s := b.site env) v).trans ?_
    dsimp only
    unfold Site.varCode
    cases hk : (b.table.varAt v).kind with
    | receiver => simp [site, hk]
    | field => simp [site, hk]
    | parameter => simp [site, hk]
    | localVar => simp [site, hk]

/-- A variable that is not the receiver is spelled like its name. -/
theorem spelling_of_binding {v : VarId} {name : String} {type : SourceTy}
    (h : b.binding t v = ⟨name, type, false⟩) : spelling b.table v = C.ident name := by
  rw [spelling_of_ne (beq_eq_false_iff_ne.mp (congrArg Binding.fixed h))]
  exact congrArg C.ident (congrArg Binding.name h)

/-- The lines of declarators. -/
theorem Of.steps_varItems (hb : b.Of p t result) {clean : Prop} (hclean : clean) {type : Ident}
    (vars : List Declarator) {env : Env} (held : ∀ v ∈ vars, Held t clean env.scope type v) :
    stepsOf b.table (b.varItems type vars env) = b.varSteps type vars env := by
  induction vars generalizing env with
  | nil => rfl
  | cons v rest ih =>
    obtain ⟨id, τ, hlook, -, -, htype, -, -, -, hbinding⟩ :=
      hb.local_declared hclean (held v List.mem_cons_self)
    unfold varItems varSteps
    rw [hlook]
    dsimp only
    rw [stepsOf, Env.declare_eq hlook,
      @ih { env with visible := id :: env.visible } fun w hw => held w (List.mem_cons_of_mem v hw)]
    refine congrArg (· :: b.varSteps type rest _) (congrArg Step.line ?_)
    unfold declarationLine varLine
    rw [spelling_of_binding hbinding, htype]
    cases v.init with
    | none => rfl
    | some e =>
      dsimp only [Option.map_some, Option.elim_some]
      rw [render_checkPieces]

theorem items_cons {s : Stmt} {env env' : Env} (h : b.after s env = .ok env') (rest : List Stmt) :
    b.items (s :: rest) env = b.item s env ++ b.items rest env' := by
  show b.item s env ++ _ = _
  rw [h]

section Blocks

variable {D : ScopeId → Ident → Declarator → Prop} {env e : Env} {block block' : ScopeId}
  {blocks : List ScopeId} {inner : List BlockScope}

theorem item_ifThen (next : env.ahead b.table = block :: blocks) (cond : Expr)
    (body : List Stmt) (bodySpan span : Span) :
    b.item (.ifThen cond body bodySpan span) env
      = [.block (.text "if (" :: b.condPieces env cond ++ [.text ")"])
          (b.items body (env.inside block))] := by
  unfold item
  rw [Env.enter_eq next]

theorem item_loop (next : env.ahead b.table = block :: blocks) (cond : Expr)
    (body : List Stmt) (bodySpan span : Span) :
    b.item (.loop cond body bodySpan span) env
      = [.block (.text "while (" :: b.condPieces env cond ++ [.text ")"])
          (b.items body (env.inside block))] := by
  unfold item
  rw [Env.enter_eq next]

/-- The item of a statement of a walk has the items of its blocks. -/
theorem Follows.item_ifElse {body : List Stmt}
    (inside : Follows b D body (env.inside block) e inner)
    (next : env.ahead b.table = block :: block' :: blocks) (cond : Expr) (other : List Stmt)
    (bodySpan otherSpan span : Span) :
    b.item (.ifElse cond body bodySpan other otherSpan span) env
      = [.branch (.text "if (" :: b.condPieces env cond ++ [.text ")"])
          (b.items body (env.inside block))
          (b.items other ((env.behind e.visible).inside block'))] := by
  unfold item
  rw [Env.enter_eq next, inside.afterBlock next]
  dsimp only
  rw [Env.enter_eq (Env.ahead_behind next _)]

end Blocks

theorem stepsAll_cons {s : Stmt} {env env' : Env} (h : b.after s env = .ok env')
    (rest : List Stmt) :
    b.stepsAll (s :: rest) env = b.steps s env ++ b.stepsAll rest env' := by
  show b.steps s env ++ _ = _
  rw [h]

/-- **The lines of the items of a walk** are those that are written along it. -/
theorem Of.steps_items (hb : b.Of p t result) {clean : Prop} (hclean : clean) {body : List Stmt}
    {env env' : Env} {opened : List BlockScope}
    (h : Follows b (Held t clean) body env env' opened) :
    stepsOf b.table (b.items body env) = b.stepsAll body env := by
  induction h with
  | nil => rfl
  | @declare type vars span rest env env' visible opened held hvars _ ih =>
    rw [items_cons (s := .declare type vars span) hvars,
      stepsAll_cons (s := .declare type vars span) hvars, stepsOf_append, ih]
    exact congrArg (· ++ _) (hb.steps_varItems hclean vars held)
  | @ifThen cond body bodySpan span rest env e env' block blocks inner opened next inside _ ihIn
      ih =>
    have hafter := inside.after_ifThen_eq next cond bodySpan span
    rw [items_cons hafter, stepsAll_cons hafter, stepsOf_append, ih]
    refine congrArg (· ++ b.stepsAll rest _) ?_
    unfold steps
    rw [item_ifThen next, hafter, Env.enter_eq next]
    simp [stepsOf, Item.steps, closeIfReached, render_condPieces, ihIn, String.append_assoc]
  | @ifElse cond body other bodySpan otherSpan span rest env e e' env' block block' blocks inner
      inner' opened next inside inside' _ ihIn ihIn' ih =>
    have hafter := inside.after_ifElse_eq inside' next cond bodySpan otherSpan span
    rw [items_cons hafter, stepsAll_cons hafter, stepsOf_append, ih]
    refine congrArg (· ++ b.stepsAll rest _) ?_
    unfold steps
    rw [inside.item_ifElse next, hafter, Env.enter_eq next, inside.afterBlock next]
    dsimp only
    rw [Env.enter_eq (Env.ahead_behind next _)]
    simp [stepsOf, Item.steps, closeIfReached, render_condPieces, ihIn, ihIn', String.append_assoc]
  | @loop cond body bodySpan span rest env e env' block blocks inner opened next inside _ ihIn ih =>
    have hafter := inside.after_loop_eq next cond bodySpan span
    rw [items_cons hafter, stepsAll_cons hafter, stepsOf_append, ih]
    refine congrArg (· ++ b.stepsAll rest _) ?_
    unfold steps
    rw [item_loop next, hafter, Env.enter_eq next]
    simp [stepsOf, Item.steps, closeIfReached, render_condPieces, ihIn, String.append_assoc]
  | @ret value span rest env env' opened _ ih =>
    rw [items_cons (s := .ret value span) rfl, stepsAll_cons (s := .ret value span) rfl,
      stepsOf_append, ih]
    refine congrArg (· ++ b.stepsAll rest _) ?_
    cases value with
    | none => simp [item, steps, stepsOf, Item.steps]
    | some e =>
      simp [item, steps, stepsOf, Item.steps, render_returnPieces, String.append_assoc]
  | @assign target value span rest env env' opened _ ih =>
    rw [items_cons (s := .assign target value span) rfl,
      stepsAll_cons (s := .assign target value span) rfl, stepsOf_append, ih]
    refine congrArg (· ++ b.stepsAll rest _) ?_
    simp [item, steps, stepsOf, Item.steps, render_checkPieces, render_targetPieces,
      String.append_assoc]
  | @eval expr span rest env env' opened _ ih =>
    rw [items_cons (s := .eval expr span) rfl, stepsAll_cons (s := .eval expr span) rfl,
      stepsOf_append, ih]
    refine congrArg (· ++ b.stepsAll rest _) ?_
    have hstand : render b.table (standalonePieces expr ((b.site env).marked expr))
        = standalone expr ((b.site env).code expr) :=
      (render_standalonePieces ((b.site env).bracketed_marked expr)).trans
        (congrArg (standalone expr) ((b.site env).render_marked expr))
    simp [item, steps, stepsOf, Item.steps, hstand]

/-- A pointer is declared with its star at the name. -/
theorem declaration_pointer (type name : String) :
    declaration (type ++ " *") name = type ++ " *" ++ name := by
  have hlast : lastChar? (type ++ " *") = some '*' := by simp [lastChar?]
  unfold declaration
  rw [if_pos hlast]

/-- **The parameters of a body**: the receiver first, and then others. -/
theorem Of.params_kinds (hb : b.Of p t result) {decl : MethodDecl}
    (hm : HoldsMethod p t b.method b.cls decl) :
    ∃ v vs, b.table.paramsOf b.method = v :: vs
      ∧ (∃ s name span, b.table.varAt v = receiverSymbol s name b.cls span)
      ∧ ∀ w ∈ vs, (b.table.varAt w).kind ≠ .receiver := by
  obtain ⟨receiver, params, -, -, hsymbols⟩ := hm.params
  obtain ⟨v, vs, hvs, hv, hrest⟩ := List.map_eq_cons_iff.mp hsymbols
  refine ⟨v, vs, ?_, ⟨(t.methodAt b.method).scope, receiver.name.text, receiver.span, ?_⟩,
    fun w hw => ?_⟩
  · rw [hb.table, paramsOf_of_declared (resolve_declared t), hvs]
  · rw [hb.table, resolve_varAt, hv]
    rfl
  · have hmem : t.varAt w ∈ paramSymbols _ params := hrest ▸ List.mem_map_of_mem hw
    obtain ⟨q, -, hq⟩ := List.mem_filterMap.mp hmem
    obtain ⟨x, -, hsymbol⟩ := Option.map_eq_some_iff.mp hq
    rw [hb.table, resolve_varAt, ← hsymbol]
    exact VarKind.noConfusion

/-- **The parameters of a function are declared as they are spelled.** -/
theorem Of.paramDeclarations_eq (hb : b.Of p t result) {decl : MethodDecl}
    (hm : HoldsMethod p t b.method b.cls decl) (body : List Stmt) :
    (b.function body).params.map (fun q => declaration q.1 (spelling b.table q.2))
      = paramDeclarations b.table b.method := by
  obtain ⟨v, vs, hparams, ⟨_, _, _, hreceiver⟩, hkind⟩ := hb.params_kinds hm
  unfold function paramDeclarations explicitParams
  dsimp only
  rw [hparams, List.map_map, List.map_cons]
  refine congrArg₂ List.cons ?_ (List.map_congr_left fun w hw => ?_)
  · have hspelling : spelling b.table v = C.receiver := by
      rw [spelling_receiver]
      rw [hreceiver]
      rfl
    dsimp only [Function.comp_apply]
    rw [hspelling, hreceiver]
    exact declaration_pointer _ _
  · dsimp only [Function.comp_apply]
    rw [spelling_of_ne (hkind w hw)]
    rfl

/-- **The lines of the function for a method are those that are written for its
definition.** -/
theorem Of.steps_function (hb : b.Of p t result) {decl : MethodDecl}
    (hm : HoldsMethod p t b.method b.cls decl) {clean : Prop} (hclean : clean) {env : Env}
    {opened : List BlockScope} (h : Follows b (Held t clean) decl.body b.start env opened) :
    (b.function decl.body).steps b.table = definitionSteps b.table b.method decl.body := by
  unfold Function.steps definitionSteps signature bodySteps
  rw [hb.paramDeclarations_eq hm]
  exact congrArg (fun steps => _ :: (steps ++ [Step.closing "\x7d"])) (hb.steps_items hclean h)

end Body

end Heritage
