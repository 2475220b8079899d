import Heritage.Proofs.Environment
import Heritage.Proofs.Typing

/-!
# Typable bodies

A body is checked along the walk that follows it, in environments; by the rules
its statements are typable in a context, a stack of blocks. The context of an
environment is its stack of blocks, each variable with its name, its type and
whether it is the receiver. Along a walk it changes as the rules say, so
nothing is wrong with a list of statements exactly if they are typable in the
context of the environment they are followed in.
-/

namespace Heritage

open SymbolTable

namespace Env

theorem mem_visible_of_lookup {t : SymbolTable} {e : Env} {name : String} {v : VarId}
    (h : e.lookup t name = some v) : v ∈ e.visible := by
  obtain ⟨f, -, hf⟩ := List.exists_of_findSome?_eq_some h
  exact List.contains_iff_mem.mp (Option.filter_eq_some_iff.mp hf).2

end Env

namespace Body

/-! ## The context of an environment -/

/-- The type of a variable of a body. The receiver is an object of the class of
the method. -/
def varType? (b : Body) (v : VarId) : Option Ty :=
  match (b.table.varAt v).kind with
  | .receiver => some (.cls b.cls)
  | _ => (b.table.varAt v).type

/-- A variable of a body as the rules have it in scope. -/
def binding (t : SymbolTable) (b : Body) (v : VarId) : Binding where
  name := (b.table.varAt v).name
  type := ((b.varType? v).map t.sourceTy).getD .void
  fixed := (b.table.varAt v).kind == .receiver

/-- **The context of an environment.** -/
def context (t : SymbolTable) (b : Body) (env : Env) : Context :=
  (env.blocks b.table).map fun block => block.map (b.binding t)

/-- A variable of a body has a type of values. -/
def Typed (t : SymbolTable) (b : Body) (v : VarId) : Prop :=
  ∃ τ, b.varType? v = some τ ∧ t.Known τ ∧ τ ≠ .void

/-- **A body of a method of a table that was resolved.** -/
structure Of (p : Program) (t : SymbolTable) (b : Body) (result : Ty) : Prop where
  /-- The program is in order but for its bodies. -/
  settled : Settled p t
  /-- The table is the resolved one. -/
  table : b.table = t.resolve.table
  /-- The method belongs to a class. -/
  cls_lt : b.cls < t.classes.length
  /-- It returns a type. -/
  returns : (b.table.methodAt b.method).returnType = some result
  /-- That is a type of the table. -/
  result_known : t.Known result

variable {p : Program} {t : SymbolTable} {b : Body} {result : Ty} {env : Env}
  {opened : List ScopeId}

theorem Of.formed (hb : b.Of p t result) : Formed b.table := by
  rw [hb.table]
  exact hb.settled.represents.formed.of_declared (resolve_declared t)

/-- **A name is bound in the context to the variable that it denotes.** -/
theorem find_context (hf : Formed b.table) (hs : env.Sound b.table opened) (name : String) :
    (b.context t env).find name = (env.lookup b.table name).map (b.binding t) := by
  rw [Env.lookup_eq_findIn hf hs]
  unfold Context.find context Env.findIn
  rw [List.findSome?_map, List.map_findSome?]
  refine congrArg (List.findSome? · _) (funext fun block => ?_)
  dsimp only [Function.comp_apply]
  rw [List.find?_map]
  rfl

/-- **What is in scope at a point of a body is what the rules have in scope.** -/
theorem Of.models (hb : b.Of p t result) (hs : env.Sound b.table opened)
    (typed : ∀ v ∈ env.visible, b.Typed t v) : (b.site env).Models t (b.context t env) where
  table := hb.table
  cls_lt := hb.cls_lt
  bound := by
    intro name v hlook
    obtain ⟨τ, hτ, hknown, hvoid⟩ := typed v (Env.mem_visible_of_lookup hlook)
    refine ⟨b.binding t v, τ, ?_, hτ, hknown, hvoid, ?_, beq_iff_eq⟩
    · exact (find_context hb.formed hs name).trans (congrArg (Option.map _) hlook)
    · show ((b.varType? v).map t.sourceTy).getD .void = _
      rw [hτ]
      rfl
  free := by
    intro name hlook
    exact (find_context hb.formed hs name).trans (congrArg (Option.map _) hlook)

/-! ## Declarations -/

/-- **A variable that was declared with a written type has this type.** -/
theorem Of.written_var (hb : b.Of p t result) {v : VarId} (hlt : v < t.vars.length) {type : Ident}
    (htype : (t.varAt v).type = none) (hname : (t.varAt v).typeName = some type)
    (hkind : (t.varAt v).kind ≠ .receiver) :
    ∃ τ, (b.table.varAt v).type = some τ ∧ t.Known τ ∧ t.sourceTy τ = .ofWord type.text
      ∧ b.Typed t v ∧ b.binding t v = ⟨(t.varAt v).name, .ofWord type.text, false⟩ := by
  have hword : type ∈ t.openWords := by
    refine List.mem_filterMap.mpr ⟨t.varAt v, List.mem_of_getElem? (getElem?_eq_getD hlt _), ?_⟩
    rw [htype, hname]
    rfl
  obtain ⟨τ, hτ, hvoid⟩ := (typeIssues_eq_nil_iff.mp
    (hb.settled.represents.typesOk_iff.mp hb.settled.types)).1 type hword
  obtain ⟨hknown, hsource⟩ := hb.settled.represents.resolveType_eq_some hτ
  have hvar : b.table.varAt v = { t.varAt v with type := some τ } := by
    rw [hb.table, resolve_varAt]
    unfold resolvedVarType
    rw [htype, hname, Option.none_or, Option.bind_some, hτ, Option.filter_some,
      if_pos (bne_iff_ne.mpr hvoid)]
  have hbody : b.varType? v = some τ := by
    unfold varType?
    rw [hvar]
    cases hk : (t.varAt v).kind with
    | receiver => exact absurd hk hkind
    | field => rfl
    | parameter => rfl
    | localVar => rfl
  refine ⟨τ, by rw [hvar], hknown, hsource, ⟨τ, hbody, hknown, hvoid⟩, ?_⟩
  unfold binding
  rw [hbody, hvar, Option.map_some, Option.getD_some, hsource, beq_eq_false_iff_ne.mpr hkind]

/-- **A local that was collected has the type it was written with.** -/
theorem Of.local_declared (hb : b.Of p t result) {clean : Prop} (hclean : clean) {s : ScopeId}
    {type : Ident} {v : Declarator} (held : Held t clean s type v) :
    ∃ id τ, b.table.lookupIn s v.name.text = some id ∧ id < b.table.vars.length
      ∧ (b.table.varAt id).scope = s ∧ (b.table.varAt id).type = some τ ∧ t.Known τ
      ∧ t.sourceTy τ = .ofWord type.text ∧ b.Typed t id
      ∧ b.binding t id = ⟨v.name.text, .ofWord type.text, false⟩ := by
  obtain ⟨id, hlt, hlook, hat⟩ := held
  have hsymbol := hat hclean
  have hlook' : b.table.lookupIn s v.name.text = some id := by
    rw [hb.table, lookupIn_of_declared (resolve_declared t), hlook]
  obtain ⟨hlt', hscope, -⟩ := (lookupIn_eq_some_iff hb.formed).mp hlook'
  have hname : (t.varAt id).typeName = some type := by rw [hsymbol]; rfl
  obtain ⟨τ, hτ, hknown, hsource, htyped, hbinding⟩ := hb.written_var hlt
    (by rw [hsymbol]; rfl) hname (by rw [hsymbol]; exact VarKind.noConfusion)
  refine ⟨id, τ, hlook', hlt', hscope, hτ, hknown, hsource, htyped, ?_⟩
  rw [hbinding, hsymbol]
  rfl

theorem Of.typed_of_held (hb : b.Of p t result) {clean : Prop} (hclean : clean) {s : ScopeId}
    {type : Ident} {v : Declarator} {id : VarId} (held : Held t clean s type v)
    (hid : b.table.lookupIn s v.name.text = some id) : b.Typed t id := by
  obtain ⟨id', τ, hlook, -, -, -, -, -, htyped, -⟩ := hb.local_declared hclean held
  obtain rfl := Option.some.inj (hlook.symm.trans hid)
  exact htyped

/-- Declaring a variable adds it to the innermost block of the context. -/
theorem context_declare (hs : env.Sound b.table opened) {v : VarId}
    (hv : (b.table.varAt v).scope = env.scope) :
    ∃ block outer, b.context t env = block :: outer
      ∧ b.context t { env with visible := v :: env.visible }
        = (b.binding t v :: block) :: outer := by
  obtain ⟨block, outer, hblocks, hblocks'⟩ := Env.blocks_declare hs hv
  refine ⟨block.map (b.binding t), outer.map (·.map (b.binding t)), ?_, ?_⟩
  · unfold context
    rw [hblocks]
    rfl
  · unfold context
    rw [hblocks']
    rfl

/-- **Nothing is wrong with declarators** exactly if they are in order by the
rules, and behind them the context is that of the environment. -/
theorem Of.varIssues_eq_nil_iff (hb : b.Of p t result) {clean : Prop} (hclean : clean)
    {type : Ident} (vars : List Declarator) {env env' : Env} (hs : env.Sound b.table opened)
    (typed : ∀ v ∈ env.visible, b.Typed t v)
    (held : ∀ v ∈ vars, Held t clean env.scope type v)
    (hvars : b.afterVars vars env = .ok env') :
    env'.Sound b.table opened ∧ (∀ v ∈ env'.visible, b.Typed t v)
      ∧ ∀ Γ', DeclaratorsOk p (t.classAt b.cls).name (.ofWord type.text) (b.context t env) vars Γ'
        ↔ b.varIssues vars env = [] ∧ Γ' = b.context t env' := by
  induction vars generalizing env with
  | nil =>
    obtain rfl := Except.ok.inj hvars
    refine ⟨hs, typed, fun Γ' => ⟨?_, ?_⟩⟩
    · rintro (_ | _)
      exact ⟨rfl, rfl⟩
    · rintro ⟨-, rfl⟩
      exact .nil
  | cons v rest ih =>
    obtain ⟨id, τ, hlook, hlt, hscope, htype, hknown, hsource, htyped, hbinding⟩ :=
      hb.local_declared hclean (held v List.mem_cons_self)
    unfold afterVars afterVar at hvars
    rw [hlook, Env.declare_eq hlook] at hvars
    obtain ⟨hs', typed', hiff⟩ := ih (hs.declare hlt hscope)
      (List.forall_mem_cons.mpr ⟨htyped, typed⟩)
      (fun w hw => held w (List.mem_cons_of_mem v hw)) hvars
    refine ⟨hs', typed', fun Γ' => ?_⟩
    obtain ⟨block, outer, hctx, hctx'⟩ := context_declare (t := t) hs hscope
    have hagrees := Site.agrees hb.settled (hb.models hs typed)
    have hinit : ∀ e, (b.site env).checkIssues e (b.table.varAt id).type (initUse v.name.text) = []
        ↔ HasValueFor p (t.classAt b.cls).name (block :: outer) e (.ofWord type.text) := by
      intro e
      rw [htype, (hagrees e).checkIssues_eq_nil_iff hb.settled hb.table hknown, hsource, hctx]
      rfl
    unfold varIssues
    rw [hlook]
    dsimp only
    rw [List.append_eq_nil_iff, Env.declare_eq hlook, and_assoc, ← hiff Γ', hctx', hbinding, hctx]
    constructor
    · rintro (_ | ⟨hvalue, htail⟩)
      refine ⟨?_, htail⟩
      cases hv : v.init with
      | none => rfl
      | some e => exact (hinit e).mpr (hvalue e hv)
    · rintro ⟨hissues, htail⟩
      refine .cons (fun e he => ?_) htail
      rw [he] at hissues
      exact (hinit e).mp hissues

/-! ## Statements -/

theorem issuesAll_cons {s : Stmt} {env env' : Env} (h : b.after s env = .ok env')
    (rest : List Stmt) :
    b.issuesAll (s :: rest) env = b.issues s env ++ b.issuesAll rest env' := by
  show b.issues s env ++ _ = _
  rw [h]

section Blocks

variable {D : ScopeId → Ident → Declarator → Prop} {body other : List Stmt} {env e e' : Env}
  {block block' : ScopeId} {blocks : List ScopeId} {inner inner' : List BlockScope}

theorem issues_ifThen (next : env.ahead b.table = block :: blocks) (cond : Expr)
    (body : List Stmt) (bodySpan span : Span) :
    b.issues (.ifThen cond body bodySpan span) env
      = b.condIssues env cond ++ b.issuesAll body (env.inside block) := by
  unfold issues
  rw [Env.enter_eq next]

theorem issues_loop (next : env.ahead b.table = block :: blocks) (cond : Expr)
    (body : List Stmt) (bodySpan span : Span) :
    b.issues (.loop cond body bodySpan span) env
      = b.condIssues env cond ++ b.issuesAll body (env.inside block) := by
  unfold issues
  rw [Env.enter_eq next]

/-- What is wrong with a statement of a walk is what is wrong with its condition
and inside its blocks. -/
theorem Follows.issues_ifElse (inside : Follows b D body (env.inside block) e inner)
    (next : env.ahead b.table = block :: block' :: blocks) (cond : Expr) (other : List Stmt)
    (bodySpan otherSpan span : Span) :
    b.issues (.ifElse cond body bodySpan other otherSpan span) env
      = b.condIssues env cond ++ b.issuesAll body (env.inside block)
        ++ b.issuesAll other ((env.behind e.visible).inside block') := by
  unfold issues
  rw [Env.enter_eq next, inside.afterBlock next]
  dsimp only
  rw [Env.enter_eq (Env.ahead_behind next _)]

theorem Follows.issuesAll_ifThen_eq_nil_iff (inside : Follows b D body (env.inside block) e inner)
    (next : env.ahead b.table = block :: blocks) (cond : Expr) (bodySpan span : Span)
    (rest : List Stmt) :
    b.issuesAll (.ifThen cond body bodySpan span :: rest) env = []
      ↔ b.condIssues env cond = [] ∧ b.issuesAll body (env.inside block) = []
        ∧ b.issuesAll rest (env.behind e.visible) = [] := by
  rw [issuesAll_cons (inside.after_ifThen_eq next ..), issues_ifThen next,
    List.append_eq_nil_iff, List.append_eq_nil_iff, and_assoc]

theorem Follows.issuesAll_loop_eq_nil_iff (inside : Follows b D body (env.inside block) e inner)
    (next : env.ahead b.table = block :: blocks) (cond : Expr) (bodySpan span : Span)
    (rest : List Stmt) :
    b.issuesAll (.loop cond body bodySpan span :: rest) env = []
      ↔ b.condIssues env cond = [] ∧ b.issuesAll body (env.inside block) = []
        ∧ b.issuesAll rest (env.behind e.visible) = [] := by
  rw [issuesAll_cons (inside.after_loop_eq next ..), issues_loop next,
    List.append_eq_nil_iff, List.append_eq_nil_iff, and_assoc]

theorem Follows.issuesAll_ifElse_eq_nil_iff (inside : Follows b D body (env.inside block) e inner)
    (inside' : Follows b D other ((env.behind e.visible).inside block') e' inner')
    (next : env.ahead b.table = block :: block' :: blocks) (cond : Expr)
    (bodySpan otherSpan span : Span) (rest : List Stmt) :
    b.issuesAll (.ifElse cond body bodySpan other otherSpan span :: rest) env = []
      ↔ b.condIssues env cond = [] ∧ b.issuesAll body (env.inside block) = []
        ∧ b.issuesAll other ((env.behind e.visible).inside block') = []
        ∧ b.issuesAll rest ((env.behind e.visible).behind e'.visible) = [] := by
  rw [issuesAll_cons (inside.after_ifElse_eq inside' next ..), inside.issues_ifElse next,
    List.append_eq_nil_iff, List.append_eq_nil_iff, List.append_eq_nil_iff, and_assoc, and_assoc]

end Blocks

/-- Nothing is wrong with a condition exactly if it is an integer. -/
theorem Of.condIssues_eq_nil_iff (hb : b.Of p t result) (hs : env.Sound b.table opened)
    (typed : ∀ v ∈ env.visible, b.Typed t v) (cond : Expr) :
    b.condIssues env cond = []
      ↔ HasType p (t.classAt b.cls).name (b.context t env) cond .int := by
  refine (Site.agrees hb.settled (hb.models hs typed) cond).integer_eq_nil_iff fun τ => ?_
  unfold conditionIssue?
  split
  · rename_i heq
    exact iff_of_true rfl heq
  · rename_i hne
    exact iff_of_false (Option.some_ne_none _) hne

theorem Of.bareReturn_eq_nil_iff (hb : b.Of p t result) (span : Span) :
    b.returnIssues env none span = [] ↔ t.sourceTy result = .void := by
  unfold returnIssues bareReturnIssue?
  dsimp only
  rw [hb.returns]
  cases result with
  | int => exact iff_of_false (fun hnil => nomatch hnil) SourceTy.noConfusion
  | void => exact iff_of_true rfl rfl
  | cls c => exact iff_of_false (fun hnil => nomatch hnil) SourceTy.noConfusion

theorem Of.returnIssue?_eq_none_iff (hb : b.Of p t result) {τ : Ty} {span : Span} :
    b.table.returnIssue? b.method τ span = none
      ↔ result ≠ .void ∧ τ ≠ .void ∧ b.table.isCompatible τ result = true := by
  have hvalue : valueIssue? τ span = none ↔ τ ≠ .void := by
    unfold valueIssue?
    split
    · rename_i heq
      exact iff_of_false (Option.some_ne_none _) (fun hne => hne heq)
    · rename_i hne
      exact iff_of_true rfl hne
  have hstore : b.table.storeIssue? τ result "return value" span = none
      ↔ b.table.isCompatible τ result = true := by
    unfold storeIssue?
    split
    · rename_i hfits
      exact iff_of_true rfl hfits
    · rename_i hfits
      exact iff_of_false (Option.some_ne_none _) hfits
  unfold returnIssue?
  rw [hb.returns]
  cases result with
  | void => exact iff_of_false (Option.some_ne_none _) (fun hne => hne.1 rfl)
  | int =>
    dsimp only
    rw [Option.or_eq_none_iff, hvalue, hstore]
    exact (and_iff_right Ty.noConfusion).symm
  | cls c =>
    dsimp only
    rw [Option.or_eq_none_iff, hvalue, hstore]
    exact (and_iff_right Ty.noConfusion).symm

/-- **Nothing is wrong with a returned value** exactly if the method returns one
and it can be stored there. -/
theorem Of.returnIssues_eq_nil_iff (hb : b.Of p t result) (hs : env.Sound b.table opened)
    (typed : ∀ v ∈ env.visible, b.Typed t v) (e : Expr) (span : Span) :
    b.returnIssues env (some e) span = []
      ↔ t.sourceTy result ≠ .void
        ∧ HasValueFor p (t.classAt b.cls).name (b.context t env) e (t.sourceTy result) := by
  have ha := Site.agrees hb.settled (hb.models hs typed) e
  have hfits := ha.hasValueFor_iff hb.settled hb.table hb.result_known
  rw [Site.sourceTy_ne_void_iff]
  unfold returnIssues
  dsimp only
  rw [List.append_eq_nil_iff]
  constructor
  · rintro ⟨hissues, hreturn⟩
    obtain ⟨τ, hτ⟩ := ha.poison hissues
    rw [hτ] at hreturn
    obtain ⟨hne, hvoid, hcompat⟩ :=
      hb.returnIssue?_eq_none_iff.mp (Option.toList_eq_nil_iff.mp hreturn)
    exact ⟨hne, hfits.mp ⟨τ, ⟨hissues, hτ, hvoid⟩, hcompat⟩⟩
  · rintro ⟨hne, hvalue⟩
    obtain ⟨τ, ⟨hissues, hτ, hvoid⟩, hcompat⟩ := hfits.mpr hvalue
    rw [hτ]
    exact ⟨hissues,
      Option.toList_eq_nil_iff.mpr (hb.returnIssue?_eq_none_iff.mpr ⟨hne, hvoid, hcompat⟩)⟩

/-- The target of an assignment to a variable other than the receiver. -/
theorem assign_of_var {target : Ident} {v : VarId} (hvar : (b.site env).var target = .ok v)
    (hkind : (b.table.varAt v).kind ≠ .receiver) :
    b.assignTargetIssues env target = [] ∧ (b.assignTarget env target).1 = b.varType? v := by
  unfold assignTargetIssues assignTarget varType?
  rw [hvar]
  dsimp only
  cases hk : (b.table.varAt v).kind with
  | receiver => exact absurd hk hkind
  | field => exact ⟨rfl, rfl⟩
  | parameter => exact ⟨rfl, rfl⟩
  | localVar => exact ⟨rfl, rfl⟩

/-- **Nothing is wrong with an assignment** exactly if its target is a variable
other than the receiver, or else a field, and the value can be stored there. -/
theorem Of.assignIssues_eq_nil_iff (hb : b.Of p t result) (hs : env.Sound b.table opened)
    (typed : ∀ v ∈ env.visible, b.Typed t v) (target : Ident) (e : Expr) (span : Span) :
    b.issues (.assign target e span) env = []
      ↔ (∃ bound, (b.context t env).find target.text = some bound ∧ bound.fixed = false
          ∧ HasValueFor p (t.classAt b.cls).name (b.context t env) e bound.type)
        ∨ ∃ σ, (b.context t env).find target.text = none
          ∧ p.FieldType (t.classAt b.cls).name target.text σ
          ∧ HasValueFor p (t.classAt b.cls).name (b.context t env) e σ := by
  have hmodels := hb.models hs typed
  have ha := Site.agrees hb.settled hmodels e
  have hvar : (b.site env).var target = variableNamed b.table env b.cls target.text target.span :=
    rfl
  unfold issues variableNamed at *
  rw [List.append_eq_nil_iff]
  cases hlook : env.lookup b.table target.text with
  | some v =>
    rw [hlook, Option.some_or] at hvar
    obtain ⟨bound, τ, hfind, hτ, hknown, -, hbound, hfixed⟩ := hmodels.bound hlook
    by_cases hkind : (b.table.varAt v).kind = .receiver
    · refine iff_of_false (fun hnil => ?_) ?_
      · unfold assignTargetIssues at hnil
        rw [hvar] at hnil
        dsimp only at hnil
        rw [hkind] at hnil
        cases hnil.1
      · rintro (⟨bound', hfind', hfree, -⟩ | ⟨σ, hnone, -⟩)
        · obtain rfl := Option.some.inj (hfind.symm.trans hfind')
          exact Bool.false_ne_true (hfree.symm.trans (hfixed.mpr hkind))
        · exact Option.some_ne_none _ (hfind.symm.trans hnone)
    · obtain ⟨htarget, htype⟩ := assign_of_var hvar hkind
      have hfree : bound.fixed = false := Bool.eq_false_iff.mpr fun hf => hkind (hfixed.mp hf)
      rw [htarget, htype, show b.varType? v = some τ from hτ,
        ha.checkIssues_eq_nil_iff hb.settled hb.table hknown, ← hbound]
      constructor
      · rintro ⟨-, hvalue⟩
        exact Or.inl ⟨bound, hfind, hfree, hvalue⟩
      · rintro (⟨bound', hfind', -, hvalue⟩ | ⟨σ, hnone, -⟩)
        · obtain rfl := Option.some.inj (hfind.symm.trans hfind')
          exact ⟨rfl, hvalue⟩
        · exact absurd (hfind.symm.trans hnone) (Option.some_ne_none _)
  | none =>
    rw [hlook, Option.none_or] at hvar
    have hfree := hmodels.free hlook
    have hfield : ∀ {σ}, p.FieldType (t.classAt b.cls).name target.text σ ↔ _ :=
      hb.settled.represents.fieldType_iff hb.settled.types hb.settled.ancestry hb.cls_lt
    cases hfind : b.table.findField b.cls target.text with
    | some v =>
      rw [hfind] at hvar
      rw [hb.table] at hfind
      obtain ⟨τ, hτ, htype, hkind, hknown⟩ := Site.varType?_field hb.settled hmodels hfind
      obtain ⟨htarget, htarget'⟩ := assign_of_var hvar (hkind ▸ VarKind.noConfusion)
      rw [htarget, htarget', show b.varType? v = some τ from hτ,
        ha.checkIssues_eq_nil_iff hb.settled hb.table hknown]
      constructor
      · rintro ⟨-, hvalue⟩
        exact Or.inr ⟨_, hfree, hfield.mpr ⟨v, τ, hfind, htype, rfl⟩, hvalue⟩
      · rintro (⟨bound, hbound, -⟩ | ⟨σ, -, hdenotes, hvalue⟩)
        · exact absurd (hbound.symm.trans hfree) (Option.some_ne_none _)
        · obtain ⟨v', τ', hfind', htype', rfl⟩ := hfield.mp hdenotes
          obtain rfl := Option.some.inj (hfind.symm.trans hfind')
          obtain rfl := Option.some.inj (htype.symm.trans htype')
          exact ⟨rfl, hvalue⟩
    | none =>
      rw [hfind] at hvar
      refine iff_of_false (fun hnil => ?_) ?_
      · unfold assignTargetIssues at hnil
        rw [hvar] at hnil
        dsimp only at hnil
        split at hnil
        · cases hnil.1
        · rename_i hok
          split at hok <;> cases hok
      · rintro (⟨bound, hbound, -⟩ | ⟨σ, -, hdenotes, -⟩)
        · exact absurd (hbound.symm.trans hfree) (Option.some_ne_none _)
        · obtain ⟨v, _, hfind', -⟩ := hfield.mp hdenotes
          rw [hb.table] at hfind
          exact Option.some_ne_none v (hfind'.symm.trans hfind)

/-! ## Whole bodies -/

/-- Inside a block the context is the one before it with an empty block pushed,
and behind it the context is the one before it. -/
theorem Of.context_block (hb : b.Of p t result) {D : ScopeId → Ident → Declarator → Prop}
    {body : List Stmt} {e : Env} {block : ScopeId} {inner opened : List BlockScope}
    (hs : env.Sound b.table (((body, block) :: inner ++ opened).map Prod.snd))
    (inside : Follows b D body (env.inside block) e inner) :
    (env.inside block).Sound b.table (inner.map Prod.snd)
      ∧ b.context t (env.inside block) = [] :: b.context t env
      ∧ (env.behind e.visible).Sound b.table (opened.map Prod.snd)
      ∧ b.context t (env.behind e.visible) = b.context t env := by
  obtain ⟨hsIn, hblocksIn, hsBehind, hblocks⟩ := inside.blocks_block hb.formed hs
  unfold context
  rw [hblocksIn, hblocks]
  exact ⟨hsIn, rfl, hsBehind, rfl⟩

/-- **Nothing is wrong with the statements of a walk** exactly if they are typable
by the rules in the context it begins in. -/
theorem Of.issuesAll_eq_nil_iff (hb : b.Of p t result) {clean : Prop} (hclean : clean)
    {body : List Stmt} {env env' : Env} {opened : List BlockScope}
    (h : Follows b (Held t clean) body env env' opened)
    (hs : env.Sound b.table (opened.map Prod.snd)) (typed : ∀ v ∈ env.visible, b.Typed t v) :
    b.issuesAll body env = []
      ↔ StmtsOk p (t.classAt b.cls).name (t.sourceTy result) (b.context t env) body := by
  induction h with
  | nil => exact iff_of_true rfl .nil
  | @declare type vars span rest env env' visible opened held hvars _ ih =>
    obtain ⟨hs', typed', hdecl⟩ := hb.varIssues_eq_nil_iff hclean vars hs typed held hvars
    have hrest := ih hs' typed'
    rw [issuesAll_cons (s := .declare type vars span) hvars, List.append_eq_nil_iff, hrest]
    constructor
    · rintro ⟨hissues, htail⟩
      exact .declare ((hdecl _).mpr ⟨hissues, rfl⟩) htail
    · rintro (_ | ⟨hdeclared, htail⟩)
      obtain ⟨hissues, rfl⟩ := (hdecl _).mp hdeclared
      exact ⟨hissues, htail⟩
  | @ifThen cond body _ _ _ env e _ block _ _ _ next inside _ ihIn ih =>
    obtain ⟨hsIn, hctxIn, hsBehind, hctx⟩ := hb.context_block (t := t) hs inside
    have typedIn := inside.visible_forall (hb.typed_of_held hclean) typed
    have hin := ihIn hsIn typed
    have hrest := ih hsBehind typedIn
    rw [inside.issuesAll_ifThen_eq_nil_iff next, hb.condIssues_eq_nil_iff hs typed, hin, hrest,
      hctxIn, hctx]
    constructor
    · rintro ⟨hcond, hbody, htail⟩
      exact .ifThen hcond hbody htail
    · intro hok
      cases hok with
      | ifThen hcond hbody htail => exact ⟨hcond, hbody, htail⟩
  | @ifElse cond body other _ _ _ _ env e e' _ block block' _ _ _ _ next inside inside' _
      ihIn ihIn' ih =>
    rw [List.append_assoc] at hs
    obtain ⟨hsIn, hctxIn, hsBehind, hctx⟩ := hb.context_block (t := t) hs inside
    obtain ⟨hsIn', hctxIn', hsBehind', hctx'⟩ := hb.context_block (t := t) hsBehind inside'
    have typedIn := inside.visible_forall (hb.typed_of_held hclean) typed
    have typedIn' := inside'.visible_forall (hb.typed_of_held hclean) typedIn
    have hin := ihIn hsIn typed
    have hin' := ihIn' hsIn' typedIn
    have hrest := ih hsBehind' typedIn'
    rw [inside.issuesAll_ifElse_eq_nil_iff inside' next, hb.condIssues_eq_nil_iff hs typed, hin,
      hin', hrest, hctxIn, hctxIn', hctx', hctx]
    constructor
    · rintro ⟨hcond, hbody, hother, htail⟩
      exact .ifElse hcond hbody hother htail
    · intro hok
      cases hok with
      | ifElse hcond hbody hother htail => exact ⟨hcond, hbody, hother, htail⟩
  | @loop cond body _ _ _ env e _ block _ _ _ next inside _ ihIn ih =>
    obtain ⟨hsIn, hctxIn, hsBehind, hctx⟩ := hb.context_block (t := t) hs inside
    have typedIn := inside.visible_forall (hb.typed_of_held hclean) typed
    have hin := ihIn hsIn typed
    have hrest := ih hsBehind typedIn
    rw [inside.issuesAll_loop_eq_nil_iff next, hb.condIssues_eq_nil_iff hs typed, hin, hrest,
      hctxIn, hctx]
    constructor
    · rintro ⟨hcond, hbody, htail⟩
      exact .loop hcond hbody htail
    · intro hok
      cases hok with
      | loop hcond hbody htail => exact ⟨hcond, hbody, htail⟩
  | @ret value span rest env env' opened _ ih =>
    have hrest := ih hs typed
    rw [issuesAll_cons (s := .ret value span) rfl, List.append_eq_nil_iff, hrest]
    unfold issues
    cases value with
    | none =>
      rw [hb.bareReturn_eq_nil_iff]
      constructor
      · rintro ⟨hvoid, htail⟩
        exact .retNone hvoid htail
      · intro hok
        cases hok with
        | retNone hvoid htail => exact ⟨hvoid, htail⟩
    | some e =>
      rw [hb.returnIssues_eq_nil_iff hs typed]
      constructor
      · rintro ⟨⟨hne, hvalue⟩, htail⟩
        exact .retSome hne hvalue htail
      · intro hok
        cases hok with
        | retSome hne hvalue htail => exact ⟨⟨hne, hvalue⟩, htail⟩
  | @assign target value span rest env env' opened _ ih =>
    have hrest := ih hs typed
    rw [issuesAll_cons (s := .assign target value span) rfl, List.append_eq_nil_iff, hrest,
      hb.assignIssues_eq_nil_iff hs typed]
    constructor
    · rintro ⟨⟨bound, hfind, hfree, hvalue⟩ | ⟨σ, hnone, hfield, hvalue⟩, htail⟩
      · exact .assign hfind hfree hvalue htail
      · exact .assignField hnone hfield hvalue htail
    · intro hok
      cases hok with
      | assign hfind hfree hvalue htail => exact ⟨Or.inl ⟨_, hfind, hfree, hvalue⟩, htail⟩
      | assignField hnone hfield hvalue htail =>
        exact ⟨Or.inr ⟨_, hnone, hfield, hvalue⟩, htail⟩
  | @eval expr span rest env env' opened _ ih =>
    have hrest := ih hs typed
    have ha := Site.agrees hb.settled (hb.models hs typed) expr
    rw [issuesAll_cons (s := .eval expr span) rfl, List.append_eq_nil_iff, hrest]
    unfold issues
    constructor
    · rintro ⟨hissues, htail⟩
      obtain ⟨τ, -, -, htyped⟩ := ha.typed hissues
      exact .eval htyped htail
    · intro hok
      cases hok with
      | eval htyped htail => exact ⟨(ha.clean htyped).1, htail⟩

end Body

end Heritage
