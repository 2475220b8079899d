import Heritage.Proofs.Acceptance

/-!
# Every name that denotes nothing is reported once

Whatever else is wrong with a body, each of its names and numbers is looked at
exactly once, in the order of the text. `Mention` is such a place, with the names
that are declared there, and the mentions of a body are read off its text alone:
no table, no type and no earlier error occurs in them. What is reported of names
and of numbers are then the mentions at fault, one issue for each.

The other issues of a body – of types, of calls, of what a statement wants – are
of other kinds, so none of them can be taken for one of these.
-/

namespace Heritage

open SymbolTable

/-! ## Mentions -/

/-- **A place in a body at which something has to be in order by itself.** -/
inductive Mention where
  /-- A name, where some names are declared. -/
  | name (declared : List String) (ident : Ident)
  /-- A number. -/
  | number (value : Int) (span : Span)

mutual
/-- **The mentions of an expression**, from left to right. -/
def Expr.mentions (declared : List String) : Expr → List Mention
  | .int value span => [.number value span]
  | .name ident => [.name declared ident]
  | .self _ => []
  | .binary _ left right _ => left.mentions declared ++ right.mentions declared
  | .call _ args _ => argMentions declared args
  | .send receiver _ args _ => receiver.mentions declared ++ argMentions declared args
/-- The mentions of the arguments of a call. -/
def argMentions (declared : List String) : List Expr → List Mention
  | [] => []
  | e :: rest => e.mentions declared ++ argMentions declared rest
end

/-- The mentions of declarators. A name is declared behind its initial value. -/
def declaratorMentions (declared : List String) : List Declarator → List Mention
  | [] => []
  | v :: rest =>
    (v.init.map (Expr.mentions declared)).getD []
      ++ declaratorMentions (v.name.text :: declared) rest

mutual
/-- The mentions of a statement. -/
def Stmt.mentions (declared : List String) : Stmt → List Mention
  | .declare _ vars _ => declaratorMentions declared vars
  | .ifThen cond body _ _ => cond.mentions declared ++ mentionsAll declared body
  | .ifElse cond body _ other _ _ =>
    cond.mentions declared ++ mentionsAll declared body ++ mentionsAll declared other
  | .loop cond body _ _ => cond.mentions declared ++ mentionsAll declared body
  | .ret value _ => (value.map (Expr.mentions declared)).getD []
  | .assign target value _ => .name declared target :: value.mentions declared
  | .eval expr _ => expr.mentions declared
/-- **The mentions of a list of statements.** What a statement declares is declared
for those behind it, and what is declared in a block is forgotten behind it. -/
def mentionsAll (declared : List String) : List Stmt → List Mention
  | [] => []
  | s :: rest => s.mentions declared ++ mentionsAll (s.locals ++ declared) rest
end

theorem mentionsAll_cons (declared : List String) (s : Stmt) (rest : List Stmt) :
    mentionsAll declared (s :: rest)
      = s.mentions declared ++ mentionsAll (s.locals ++ declared) rest := rfl

/-- The names of the parameters that have a type. -/
def typedNames (params : List Param) : List String :=
  (params.filter (·.type.isSome)).map (·.name.text)

/-- The names declared at the start of a method: its receiver, and the parameters
that have a type. -/
def MethodDecl.paramNames (m : MethodDecl) : List String :=
  match m.params with
  | [] => []
  | receiver :: rest => receiver.name.text :: typedNames rest

/-- The mentions of a method. -/
def MethodDecl.mentions (m : MethodDecl) : List Mention :=
  mentionsAll m.paramNames m.body

/-- **What is wrong with a mention by itself**: the name is neither declared nor
that of a field, or the number is not one of 32 bits. -/
def Mention.fault? (isField : String → Bool) : Mention → Option Issue
  | .name declared ident =>
    if declared.contains ident.text || isField ident.text then none
    else some (.undeclared ident.text ident.span)
  | .number value span =>
    if -2147483648 ≤ value ∧ value ≤ 2147483647 then none
    else some (.mismatch (.literalRange value) span)

/-- Whether an issue is about a name or a number by itself. -/
def Issue.isNameFault : Issue → Bool
  | .undeclared .. => true
  | .mismatch (.literalRange _) _ => true
  | _ => false

/-- What is wrong with mentions by themselves. -/
def faults (isField : String → Bool) (mentions : List Mention) : List Issue :=
  mentions.filterMap (Mention.fault? isField)

theorem faults_append (isField : String → Bool) (ms ns : List Mention) :
    faults isField (ms ++ ns) = faults isField ms ++ faults isField ns :=
  List.filterMap_append

/-- The issues of a list that are about names and numbers. -/
def nameFaults (is : List Issue) : List Issue :=
  is.filter (·.isNameFault)

theorem nameFaults_append (is js : List Issue) :
    nameFaults (is ++ js) = nameFaults is ++ nameFaults js :=
  List.filter_append ..

theorem nameFaults_eq_nil {is : List Issue} (h : ∀ i ∈ is, i.isNameFault = false) :
    nameFaults is = [] :=
  List.filter_eq_nil_iff.mpr fun i hi => by simp [h i hi]

/-- Whether a name denotes a field in a class, inherited ones included. -/
def SymbolTable.hasField (t : SymbolTable) (c : ClassId) (name : String) : Bool :=
  (t.findField c name).isSome

/-! ## Expressions -/

namespace Site

variable {s : Site}

/-- **The names that are declared at a point**, as the environment finds them. -/
def Declared (s : Site) (names : List String) : Prop :=
  ∀ name, (s.env.lookup s.table name).isSome = names.contains name

/-- What is wrong with the use of a value is about no name. -/
theorem nameFaults_useIssues (e : Expr) : nameFaults (s.useIssues e) = [] := by
  refine nameFaults_eq_nil fun i hi => ?_
  unfold useIssues valueIssue? at hi
  split at hi
  · cases hi
  · split at hi
    · obtain rfl := List.mem_singleton.mp hi
      rfl
    · cases hi

theorem nameFaults_storeIssues (e : Expr) (target : Option Ty) (use : String) :
    nameFaults (s.storeIssues e target use) = [] := by
  refine nameFaults_eq_nil fun i hi => ?_
  unfold storeIssues storeIssue? at hi
  split at hi
  · split at hi
    · cases hi
    · obtain rfl := List.mem_singleton.mp hi
      rfl
  · cases hi

theorem nameFaults_operandIssues (op : BinOp) (e : Expr) :
    nameFaults (s.operandIssues op e) = [] := by
  refine nameFaults_eq_nil fun i hi => ?_
  unfold operandIssues operandIssue? at hi
  split at hi
  · cases hi
  · split at hi
    · cases hi
    · obtain rfl := List.mem_singleton.mp hi
      rfl

/-- A call that reaches nothing is reported as a call. -/
theorem methodTarget_plain {c : ClassId} {callee : Ident} {i : Issue}
    (h : s.methodTarget c callee = .nothing (some i)) : i.isNameFault = false := by
  unfold methodTarget methodNamed at h
  split at h
  · cases h
  · cases h
  · rename_i j hj
    obtain rfl := Option.some.inj (Target.nothing.inj h)
    split at hj
    · cases hj
    · split at hj
      · cases hj
      · split at hj
        · obtain rfl := Except.error.inj hj
          rfl
        · obtain rfl := Except.error.inj hj
          rfl

theorem nameFaults_targetIssues {callee : Ident} {got : Nat} {span : Span} {target : Target}
    (h : ∀ i, target = .nothing (some i) → i.isNameFault = false) :
    nameFaults (s.targetIssues callee got span target) = [] := by
  refine nameFaults_eq_nil fun i hi => ?_
  cases target with
  | construct c =>
    dsimp only [targetIssues] at hi
    split at hi
    · cases hi
    · obtain rfl := List.mem_singleton.mp hi
      rfl
  | method on m =>
    dsimp only [targetIssues, arityIssue?] at hi
    split at hi
    · cases hi
    · obtain rfl := List.mem_singleton.mp hi
      rfl
  | nothing why => exact h i (congrArg Target.nothing (Option.mem_toList.mp hi))

theorem nameFaults_callTarget (callee : Ident) (got : Nat) (span : Span) :
    nameFaults (s.targetIssues callee got span (s.callTarget callee)) = [] := by
  refine nameFaults_targetIssues fun i hi => ?_
  unfold callTarget at hi
  split at hi
  · cases hi
  · exact methodTarget_plain hi

theorem nameFaults_sendTarget (receiver : Option Ty) (callee : Ident) (got : Nat) (span : Span) :
    nameFaults (s.targetIssues callee got span (s.sendTarget receiver callee)) = [] := by
  refine nameFaults_targetIssues fun i hi => ?_
  unfold sendTarget at hi
  split at hi
  · cases hi
  · exact methodTarget_plain hi
  · obtain rfl := Option.some.inj (Target.nothing.inj hi)
    rfl

variable {names : List String}

/-- What a name denotes, or that it is at fault. -/
theorem var_fault (hd : s.Declared names)
    (hb : (s.table.classAt s.cls).state.isBroken = false) (ident : Ident) :
    (∃ v, s.var ident = .ok v)
        ∧ Mention.fault? (s.table.hasField s.cls)
          (.name names ident) = none
      ∨ s.var ident = .error (.undeclared ident.text ident.span)
        ∧ Mention.fault? (s.table.hasField s.cls)
          (.name names ident) = some (.undeclared ident.text ident.span) := by
  dsimp only [var, variableNamed, Mention.fault?]
  rw [← hd ident.text, show s.table.hasField s.cls ident.text = Option.isSome _ from rfl,
    ← Option.isSome_or]
  cases (s.env.lookup s.table ident.text).or (s.table.findField s.cls ident.text) with
  | some v => exact Or.inl ⟨⟨v, rfl⟩, rfl⟩
  | none =>
    refine Or.inr ⟨?_, rfl⟩
    dsimp only
    rw [hb]
    rfl

mutual
/-- **What is reported of the names and numbers of an expression** are the mentions
at fault. -/
theorem nameFaults_issues (hd : s.Declared names)
    (hb : (s.table.classAt s.cls).state.isBroken = false) : (e : Expr) →
    nameFaults (s.issues e)
      = faults (s.table.hasField s.cls) (e.mentions names)
  | .int value span => by
    unfold issues literalIssue? fitsInt Expr.mentions faults Mention.fault?
    rw [← Bool.decide_and]
    by_cases h : -2147483648 ≤ value ∧ value ≤ 2147483647
    · simp [h, nameFaults]
    · simp [h, nameFaults, Issue.isNameFault]
  | .name ident => by
    unfold issues Expr.mentions faults
    rcases var_fault hd hb ident with ⟨⟨v, hv⟩, hfault⟩ | ⟨hv, hfault⟩
    · rw [hv, List.filterMap_cons, hfault]
      rfl
    · rw [hv, List.filterMap_cons, hfault]
      rfl
  | .self _ => by
    unfold issues Expr.mentions
    rfl
  | .binary op left right _ => by
    unfold issues Expr.mentions
    simp only [nameFaults_append, faults_append, nameFaults_useIssues, nameFaults_operandIssues,
      nameFaults_issues hd hb left, nameFaults_issues hd hb right, List.append_nil]
  | .call callee args span => by
    unfold issues Expr.mentions
    simp only [nameFaults_append, nameFaults_callTarget, nameFaults_argIssues hd hb args,
      List.nil_append]
  | .send receiver callee args span => by
    unfold issues Expr.mentions
    simp only [nameFaults_append, faults_append, nameFaults_useIssues, nameFaults_sendTarget,
      nameFaults_issues hd hb receiver, nameFaults_argIssues hd hb args, List.append_nil,
      List.nil_append]
/-- The arguments of a call are looked at whatever it reaches. -/
theorem nameFaults_argIssues (hd : s.Declared names)
    (hb : (s.table.classAt s.cls).state.isBroken = false) : (args : List Expr) →
    (target : Target) → (i : Nat) →
    nameFaults (s.argIssues target i args)
      = faults (s.table.hasField s.cls) (argMentions names args)
  | [], _, _ => by
    unfold argIssues argMentions
    rfl
  | e :: rest, target, i => by
    unfold argIssues argMentions
    simp only [nameFaults_append, faults_append, nameFaults_useIssues, nameFaults_storeIssues,
      nameFaults_issues hd hb e, nameFaults_argIssues hd hb rest, List.append_nil]
end

theorem nameFaults_checkIssues (hd : s.Declared names)
    (hb : (s.table.classAt s.cls).state.isBroken = false) (e : Expr) (target : Option Ty)
    (use : String) :
    nameFaults (s.checkIssues e target use)
      = faults (s.table.hasField s.cls) (e.mentions names) := by
  unfold checkIssues valueIssues
  rw [nameFaults_append, nameFaults_append, nameFaults_useIssues, nameFaults_storeIssues,
    List.append_nil, List.append_nil, nameFaults_issues hd hb]

end Site

/-! ## Statements -/

namespace Env

variable {t : SymbolTable} {e : Env} {opened : List ScopeId} {declared : List String}

/-- The names of the variables declared at a point. -/
def names (t : SymbolTable) (e : Env) : List String :=
  (e.blocks t).flatten.map fun v => (t.varAt v).name

/-- A name denotes a variable at a point exactly if one with this name is declared
there. -/
theorem lookup_isSome (hf : Formed t) (hs : Sound t e opened) (name : String) :
    (e.lookup t name).isSome = (e.names t).contains name := by
  rw [lookup_eq_findIn hf hs, Bool.eq_iff_iff, List.contains_iff_mem]
  unfold findIn names
  rw [List.findSome?_isSome_iff, List.mem_map]
  constructor
  · rintro ⟨block, hblock, hfind⟩
    obtain ⟨v, hv⟩ := Option.isSome_iff_exists.mp hfind
    have hname := List.find?_some (p := fun v => (t.varAt v).name == name) hv
    exact ⟨v, List.mem_flatten.mpr ⟨block, hblock, List.mem_of_find?_eq_some hv⟩,
      beq_iff_eq.mp hname⟩
  · rintro ⟨v, hv, hname⟩
    obtain ⟨block, hblock, hv⟩ := List.mem_flatten.mp hv
    exact ⟨block, hblock, List.find?_isSome.mpr ⟨v, hv, beq_iff_eq.mpr hname⟩⟩

/-- **The names that an environment knows**, in whatever order they are listed. -/
def Knows (t : SymbolTable) (e : Env) (declared : List String) : Prop :=
  ∀ name, name ∈ e.names t ↔ name ∈ declared

theorem Knows.of_blocks {e' : Env} (h : Knows t e declared)
    (hblocks : (e'.blocks t).flatten = (e.blocks t).flatten) : Knows t e' declared := by
  unfold Knows names
  rw [hblocks]
  exact h

/-- Behind a declarator its name is known. -/
theorem Knows.declare (h : Knows t e declared) (hs : Sound t e opened) {v : VarId}
    (hv : (t.varAt v).scope = e.scope) :
    Knows t { e with visible := v :: e.visible } ((t.varAt v).name :: declared) := by
  obtain ⟨block, outer, hblocks, hblocks'⟩ := blocks_declare hs hv
  intro name
  unfold names
  rw [hblocks', List.flatten_cons, List.cons_append, List.map_cons, List.mem_cons, List.mem_cons,
    ← h name]
  unfold names
  rw [hblocks, List.flatten_cons]

end Env

namespace Body

variable {b : Body} {D : ScopeId → Ident → Declarator → Prop} {declared : List String}

/-- The names known at a point are those that are declared there. -/
theorem declared_of_knows (hf : Formed b.table) {env : Env} {opened : List ScopeId}
    (hs : env.Sound b.table opened) (hk : env.Knows b.table declared) :
    (b.site env).Declared declared := by
  intro name
  show (env.lookup b.table name).isSome = _
  rw [Env.lookup_isSome hf hs, Bool.eq_iff_iff, List.contains_iff_mem, List.contains_iff_mem]
  exact hk name

theorem nameFaults_condIssues {env : Env} (hd : (b.site env).Declared declared)
    (hb : (b.table.classAt b.cls).state.isBroken = false) (cond : Expr) :
    nameFaults (b.condIssues env cond)
      = faults (b.table.hasField b.cls) (cond.mentions declared) := by
  unfold condIssues Site.valueIssues
  rw [nameFaults_append, nameFaults_append, Site.nameFaults_useIssues,
    Site.nameFaults_issues hd hb, List.append_nil, nameFaults_eq_nil, List.append_nil]
  · rfl
  · intro i hi
    unfold conditionIssue? at hi
    split at hi
    · cases hi
    · split at hi
      · cases hi
      · obtain rfl := List.mem_singleton.mp hi
        rfl

theorem nameFaults_returnIssues {env : Env} (hd : (b.site env).Declared declared)
    (hb : (b.table.classAt b.cls).state.isBroken = false) (value : Option Expr) (span : Span) :
    nameFaults (b.returnIssues env value span)
      = faults (b.table.hasField b.cls)
        ((value.map (Expr.mentions declared)).getD []) := by
  cases value with
  | none =>
    refine nameFaults_eq_nil fun i hi => ?_
    dsimp only [returnIssues, bareReturnIssue?] at hi
    split at hi
    · cases hi
    · cases hi
    · obtain rfl := List.mem_singleton.mp hi
      rfl
  | some e =>
    dsimp only [returnIssues]
    rw [nameFaults_append, Site.nameFaults_issues hd hb, nameFaults_eq_nil, List.append_nil]
    · rfl
    · intro i hi
      unfold returnIssue? valueIssue? storeIssue? at hi
      split at hi
      · cases hi
      · split at hi
        · cases hi
        · obtain rfl := List.mem_singleton.mp hi
          rfl
        · split at hi
          · obtain rfl := List.mem_singleton.mp hi
            rfl
          · split at hi
            · cases hi
            · obtain rfl := List.mem_singleton.mp hi
              rfl

theorem nameFaults_assignTargetIssues {env : Env} (hd : (b.site env).Declared declared)
    (hb : (b.table.classAt b.cls).state.isBroken = false) (target : Ident) :
    nameFaults (b.assignTargetIssues env target)
      = faults (b.table.hasField b.cls) [.name declared target] := by
  have hname : nameFaults (b.assignTargetIssues env target)
      = nameFaults ((b.site env).issues (.name target)) := by
    unfold assignTargetIssues Site.issues
    cases (b.site env).var target with
    | error i => rfl
    | ok v =>
      dsimp only
      split
      · rfl
      · rfl
  rw [hname]
  exact Site.nameFaults_issues hd hb (.name target)

/-- **Declarators**: each initial value is looked at where the names before it are
known, and behind them all names are. -/
theorem nameFaults_varIssues (hf : Formed b.table)
    (hb : (b.table.classAt b.cls).state.isBroken = false) (vars : List Declarator)
    {env env' : Env} {opened : List ScopeId} (hs : env.Sound b.table opened)
    (hk : env.Knows b.table declared) (hvars : b.afterVars vars env = .ok env') :
    nameFaults (b.varIssues vars env)
        = faults (b.table.hasField b.cls) (declaratorMentions declared vars)
      ∧ env'.Sound b.table opened
      ∧ env'.Knows b.table (vars.map (·.name.text) ++ declared) := by
  induction vars generalizing env declared with
  | nil =>
    obtain rfl := Except.ok.inj hvars
    exact ⟨rfl, hs, hk⟩
  | cons v rest ih =>
    unfold afterVars afterVar at hvars
    unfold varIssues declaratorMentions
    cases hid : b.table.lookupIn env.scope v.name.text with
    | none =>
      rw [hid] at hvars
      cases hvars
    | some id =>
      obtain ⟨hlt, hscope, hname⟩ := (lookupIn_eq_some_iff hf).mp hid
      have hd := declared_of_knows hf hs hk
      rw [hid, Env.declare_eq hid] at hvars
      have hk' := hk.declare hs hscope
      rw [hname] at hk'
      obtain ⟨hfaults, hs', hk'⟩ := ih (hs.declare hlt hscope) hk' hvars
      refine ⟨?_, hs', fun name => (hk' name).trans ?_⟩
      · dsimp only
        rw [nameFaults_append, faults_append, Env.declare_eq hid, hfaults]
        refine congrArg (· ++ faults _ _) ?_
        cases v.init with
        | none => rfl
        | some e => exact Site.nameFaults_checkIssues hd hb e _ _
      · simp only [List.map_cons, List.cons_append, List.mem_append, List.mem_cons]
        exact or_left_comm

/-- A statement and those behind it. -/
theorem nameFaults_issuesAll_cons {s : Stmt} {rest : List Stmt} {env env' : Env}
    (hafter : b.after s env = .ok env')
    (hone : nameFaults (b.issues s env) = faults (b.table.hasField b.cls) (s.mentions declared))
    (hrest : nameFaults (b.issuesAll rest env')
      = faults (b.table.hasField b.cls) (mentionsAll (s.locals ++ declared) rest)) :
    nameFaults (b.issuesAll (s :: rest) env)
      = faults (b.table.hasField b.cls) (mentionsAll declared (s :: rest)) := by
  rw [issuesAll_cons hafter, mentionsAll_cons, nameFaults_append, faults_append, hone, hrest]

/-- **What is reported of the names and numbers along a walk** are the mentions at
fault. -/
theorem Follows.nameFaults_issuesAll (hf : Formed b.table)
    (hb : (b.table.classAt b.cls).state.isBroken = false) {body : List Stmt} {env env' : Env}
    {opened : List BlockScope} (h : Follows b D body env env' opened)
    (hs : env.Sound b.table (opened.map Prod.snd)) (hk : env.Knows b.table declared) :
    nameFaults (b.issuesAll body env)
      = faults (b.table.hasField b.cls) (mentionsAll declared body) := by
  -- What is declared in a block is known inside it only: behind the block the environment knows
  -- what it knew before, and so the names that the text declares are those that are found.
  induction h generalizing declared with
  | nil => rfl
  | @declare type vars span rest env env' visible opened held hvars _ ih =>
    obtain ⟨hfaults, hs', hk'⟩ := nameFaults_varIssues hf hb vars hs hk hvars
    exact nameFaults_issuesAll_cons (s := .declare type vars span) hvars hfaults (ih hs' hk')
  | @ifThen cond body bodySpan span rest env e env' block blocks inner opened next inside _ ihIn
      ih =>
    have hafter := inside.after_ifThen_eq next cond bodySpan span
    obtain ⟨hsIn, hblocksIn, hsBehind, hblocks⟩ := inside.blocks_block hf hs
    have hkIn : (env.inside block).Knows b.table declared := hk.of_blocks (by rw [hblocksIn]; rfl)
    refine nameFaults_issuesAll_cons hafter ?_ (ih hsBehind (hk.of_blocks (by rw [hblocks])))
    unfold Stmt.mentions
    rw [issues_ifThen next, nameFaults_append, faults_append,
      nameFaults_condIssues (declared_of_knows hf hs hk) hb, ← ihIn hsIn hkIn]
  | @ifElse cond body other bodySpan otherSpan span rest env e e' env' block block' blocks inner
      inner' opened next inside inside' _ ihIn ihIn' ih =>
    have hafter := inside.after_ifElse_eq inside' next cond bodySpan otherSpan span
    rw [List.append_assoc] at hs
    obtain ⟨hsIn, hblocksIn, hsBehind, hblocks⟩ := inside.blocks_block hf hs
    obtain ⟨hsIn', hblocksIn', hsBehind', hblocks'⟩ := inside'.blocks_block hf hsBehind
    have hkIn : (env.inside block).Knows b.table declared := hk.of_blocks (by rw [hblocksIn]; rfl)
    have hkIn' : ((env.behind e.visible).inside block').Knows b.table declared :=
      hk.of_blocks (by rw [hblocksIn', hblocks]; rfl)
    refine nameFaults_issuesAll_cons hafter ?_
      (ih hsBehind' (hk.of_blocks (by rw [hblocks', hblocks])))
    unfold Stmt.mentions
    rw [inside.issues_ifElse next, nameFaults_append, nameFaults_append, faults_append,
      faults_append, nameFaults_condIssues (declared_of_knows hf hs hk) hb, ← ihIn hsIn hkIn,
      ← ihIn' hsIn' hkIn']
  | @loop cond body bodySpan span rest env e env' block blocks inner opened next inside _ ihIn ih =>
    have hafter := inside.after_loop_eq next cond bodySpan span
    obtain ⟨hsIn, hblocksIn, hsBehind, hblocks⟩ := inside.blocks_block hf hs
    have hkIn : (env.inside block).Knows b.table declared := hk.of_blocks (by rw [hblocksIn]; rfl)
    refine nameFaults_issuesAll_cons hafter ?_ (ih hsBehind (hk.of_blocks (by rw [hblocks])))
    unfold Stmt.mentions
    rw [issues_loop next, nameFaults_append, faults_append,
      nameFaults_condIssues (declared_of_knows hf hs hk) hb, ← ihIn hsIn hkIn]
  | @ret value span rest env env' opened _ ih =>
    have hd := declared_of_knows hf hs hk
    exact nameFaults_issuesAll_cons (s := .ret value span) rfl
      (nameFaults_returnIssues hd hb value span) (ih hs hk)
  | @assign target value span rest env env' opened _ ih =>
    have hd := declared_of_knows hf hs hk
    have htarget := nameFaults_assignTargetIssues hd hb target
    have hvalue := Site.nameFaults_checkIssues hd hb value (b.assignTarget env target).1
      (assignUse target.text)
    refine nameFaults_issuesAll_cons (s := .assign target value span) rfl ?_ (ih hs hk)
    unfold Body.issues Stmt.mentions
    rw [nameFaults_append, htarget, hvalue]
    exact (faults_append _ [_] _).symm
  | @eval expr span rest env env' opened _ ih =>
    refine nameFaults_issuesAll_cons (s := .eval expr span) rfl ?_ (ih hs hk)
    unfold Body.issues Stmt.mentions
    exact Site.nameFaults_issues (declared_of_knows hf hs hk) hb expr

end Body

/-! ## Where a body begins -/

namespace SymbolTable

open Collected

variable {t : SymbolTable} {s : ScopeId} {names : List String}

/-- **A scope that holds parameters only**, with their names in whatever order. -/
structure HoldsParams (t : SymbolTable) (s : ScopeId) (names : List String) : Prop where
  /-- Nothing but parameters is in the scope. -/
  kinds : ∀ v ∈ t.symbolsIn s, v.kind.isParam = true
  /-- They have these names. -/
  names : ∀ name, name ∈ (t.symbolsIn s).map (·.name) ↔ name ∈ names

/-- Whether it is added or its name is taken, the name of a parameter is declared. -/
theorem HoldsParams.declareVar {v : VarSymbol} (h : HoldsParams t v.scope names)
    (hv : v.kind.isParam = true) :
    HoldsParams (ofDeclare t (t.declareVar v)).table v.scope (v.name :: names) := by
  unfold SymbolTable.declareVar
  cases hfree : t.lookupIn v.scope v.name with
  | some w =>
    refine ⟨h.kinds, fun name => (h.names name).trans ?_⟩
    have htaken : v.name ∈ names := by
      rw [← h.names]
      have hmem := mt lookupIn_eq_none_iff.mpr (hfree ▸ Option.some_ne_none w)
      obtain ⟨k, hk, hkey⟩ := List.mem_map.mp (not_not.mp hmem)
      obtain ⟨hscope, hname⟩ := Prod.mk.inj hkey
      exact List.mem_map.mpr ⟨k, List.mem_filter.mpr ⟨hk, beq_iff_eq.mpr hscope⟩, hname⟩
    rw [List.mem_cons, iff_or_self]
    rintro rfl
    exact htaken
  | none =>
    refine ⟨fun w hw => ?_, fun name => ?_⟩
    · rw [show (ofDeclare t (.ok (_, t.addVar v))).table.symbolsIn v.scope = _ from
        symbolsIn_addVar t v v.scope, if_pos rfl] at hw
      rcases List.mem_append.mp hw with hw | hw
      · exact h.kinds w hw
      · rw [List.mem_singleton.mp hw]
        exact hv
    · rw [show (ofDeclare t (.ok (_, t.addVar v))).table.symbolsIn v.scope = _ from
        symbolsIn_addVar t v v.scope, if_pos rfl, List.map_append, List.mem_append, h.names,
        List.mem_cons, or_comm]
      exact or_congr_left List.mem_singleton

/-- The parameters of a method are declared one after the other. -/
theorem HoldsParams.collectParams {m : MethodId} (hm : HasMethod t m) (methodName : String)
    (params : List Param) (h : HoldsParams t (t.methodAt m).scope names) :
    HoldsParams (each (collectParam m methodName) params t).table (t.methodAt m).scope
      (typedNames params ++ names) := by
  induction params generalizing t names with
  | nil => exact h
  | cons q rest ih =>
    have hg := collectParam_grows hm methodName q
    have hat := hg.methodAt_eq hm.2
    have hrest := @ih (collectParam m methodName q t).table
    rw [hat] at hrest
    show HoldsParams (each (collectParam m methodName) rest
      (collectParam m methodName q t).table).table _ _
    cases hq : q.type with
    | none =>
      -- A parameter without a type is left out.
      have hsame : (collectParam m methodName q t).table = t := by
        unfold collectParam
        rw [hq]
      rw [hsame] at hrest ⊢
      unfold typedNames
      rw [List.filter_cons_of_neg (by simp [hq])]
      exact hrest hm h
    | some type =>
      have hone : HoldsParams (collectParam m methodName q t).table (t.methodAt m).scope
          (q.name.text :: names) := by
        unfold collectParam
        rw [hq]
        exact HoldsParams.declareVar
          (v := paramSymbol (t.methodAt m).scope q.name.text type q.span) h rfl
      have hmore := hrest (hm.grows hg) hone
      refine ⟨hmore.kinds, fun name => (hmore.names name).trans ?_⟩
      unfold typedNames
      rw [List.filter_cons_of_pos (by simp [hq]), List.map_cons]
      simp only [List.cons_append, List.mem_append, List.mem_cons]
      exact or_left_comm

mutual
/-- A statement declares no parameter. -/
theorem collectStmt_params (s : ScopeId) : (stmt : Stmt) → (t : SymbolTable) →
    (collectStmt s stmt t).table.vars.filter (·.kind.isParam) = t.vars.filter (·.kind.isParam)
  | .declare type vars _, t => by
    unfold collectStmt
    induction vars generalizing t with
    | nil => rfl
    | cons v rest ih =>
      refine (ih _).trans ?_
      show (ofDeclare t
        (t.declareVar (localSymbol s v.name.text type v.name.span))).table.vars.filter _ = _
      unfold declareVar
      cases t.lookupIn _ _ with
      | some w => rfl
      | none =>
        show (t.vars ++ [_]).filter _ = _
        rw [List.filter_append]
        exact List.append_nil _
  | .ifThen _ body _ _, t => by
    unfold collectStmt
    exact collectStmts_params _ body (t.openBlock s).2
  | .ifElse _ body _ other _ _, t => by
    unfold collectStmt
    exact (collectStmts_params _ other _).trans (collectStmts_params _ body (t.openBlock s).2)
  | .loop _ body _ _, t => by
    unfold collectStmt
    exact collectStmts_params _ body (t.openBlock s).2
  | .ret _ _, _ => rfl
  | .assign _ _ _, _ => rfl
  | .eval _ _, _ => rfl
theorem collectStmts_params (s : ScopeId) : (body : List Stmt) → (t : SymbolTable) →
    (collectStmts s body t).table.vars.filter (·.kind.isParam) = t.vars.filter (·.kind.isParam)
  | [], _ => rfl
  | stmt :: rest, t => (collectStmts_params s rest _).trans (collectStmt_params s stmt t)
end

/-- **The names of the parameters of a method** after its body was collected. -/
theorem collectMethodBody_paramNames {m : MethodId} (hm : HasMethod t m)
    (hempty : t.symbolsIn (t.methodAt m).scope = []) (receiver : Param) (params : List Param)
    (decl : MethodDecl) (name : String) :
    name ∈ (((collectMethodBody m receiver params decl t).table.symbolsIn
        (t.methodAt m).scope).filter (·.kind.isParam)).map (·.name)
      ↔ name ∈ receiver.name.text :: typedNames params := by
  have hrecv := declareReceiver_grows hm receiver.name.text receiver.span
  have hnone : HoldsParams t (t.methodAt m).scope [] := ⟨by simp [hempty], by simp [hempty]⟩
  have hfirst : HoldsParams
      (ofDeclare t (t.declareReceiver m receiver.name.text receiver.span)).table
      (t.methodAt m).scope [receiver.name.text] :=
    HoldsParams.declareVar (v := receiverSymbol (t.methodAt m).scope receiver.name.text
      (t.methodAt m).owner receiver.span) hnone rfl
  have hall := HoldsParams.collectParams (hm.grows hrecv) decl.name.text params
    (hrecv.methodAt_eq hm.2 ▸ hfirst)
  rw [hrecv.methodAt_eq hm.2] at hall
  -- The body adds locals only, so the parameters are those before it.
  have hbody : ((collectMethodBody m receiver params decl t).table.symbolsIn
        (t.methodAt m).scope).filter (·.kind.isParam)
      = (withParams m receiver params decl t).symbolsIn (t.methodAt m).scope := by
    rw [collectMethodBody_table hm]
    unfold symbolsIn
    rw [List.filter_comm, collectStmts_params, List.filter_comm]
    exact List.filter_eq_self.mpr hall.kinds
  rw [hbody]
  refine (hall.names name).trans ?_
  rw [List.mem_append, List.mem_singleton, List.mem_cons]
  exact or_comm

/-- **A registered method begins with the names of its parameters**, also if some
of them were refused. -/
theorem registered_paramNames {p : Program} {r : Registered} (hr : r ∈ registered p)
    (name : String) :
    name ∈ ((collect p).table.paramsOf r.method).map (fun v => ((collect p).table.varAt v).name)
      ↔ name ∈ r.decl.paramNames := by
  obtain ⟨t, c, decl, index, v⟩ := visited p hr
  obtain ⟨receiver, params, hp, -, hfree, hc, -⟩ := v.collected
  have hm := hasMethod_addMethod v.hasClass r.decl.returnType index r.decl.name.span hfree
  have hbody := collectMethodBody_grows hm receiver params r.decl
  have hlater := v.later
  have hempty : (t.addMethod c r.decl.name.text r.decl.returnType index
      r.decl.name.span).symbolsIn t.scopes.length = [] :=
    v.hasClass.1.symbolsIn_eq_nil (Nat.le_refl _)
  have hnames := collectMethodBody_paramNames hm (by rw [methodAt_addMethod]; exact hempty)
    receiver params r.decl name
  rw [hc] at hlater
  rw [methodAt_addMethod] at hnames
  have hsymbols : (collect p).table.symbolsIn t.scopes.length
      = (collectMethodBody t.methods.length receiver params r.decl (t.addMethod c r.decl.name.text
          r.decl.returnType index r.decl.name.span)).table.symbolsIn t.scopes.length := by
    refine hlater.symbolsIn_eq ?_ (Nat.lt_of_lt_of_le ?_ hbody.scopes_isPrefix.length_le)
    · rintro (hs | hs)
      · exact classAt_scope_ne v.hasClass.1 v.hasClass.2 hs.symm
      · exact Nat.ne_of_gt v.hasClass.1.scopes_pos hs
    · show t.scopes.length < (t.scopes ++ [_]).length
      rw [List.length_append]
      exact Nat.lt_succ_self _
  have hmap : ((collect p).table.paramsOf r.method).map
        (fun v => ((collect p).table.varAt v).name)
      = (((collect p).table.symbolsIn t.scopes.length).filter (·.kind.isParam)).map (·.name) := by
    have hsymbol := congrArg (List.map VarSymbol.name) (map_paramsOf (collect p).table r.method)
    rw [List.map_map, v.methodAt.2] at hsymbol
    exact hsymbol
  rw [hmap, hsymbols, MethodDecl.paramNames, hp]
  exact hnames

end SymbolTable

/-! ## Programs -/

/-- The body of a registered method knows the names of its parameters. -/
theorem start_knows {p : Program} {r : Registered} (hr : r ∈ registered p) {u : SymbolTable}
    (hu : u.declared = (collect p).table.declared) :
    (Body.start ⟨u, r.method⟩).Knows u r.decl.paramNames := by
  intro name
  rw [← registered_paramNames hr]
  unfold Env.names
  rw [Body.start_blocks ⟨u, r.method⟩, List.flatten_singleton, paramsOf_of_declared hu]
  have hname : ∀ v, (u.varAt v).name = ((collect p).table.varAt v).name :=
    fun v => show (u.varAt v).declared.name = _ by rw [varAt_of_declared hu v]; rfl
  simp only [hname]

/-- **What is reported of the names and numbers in the body of a registered
method.** -/
theorem nameFaults_bodyIssues {p : Program} {r : Registered} (hr : r ∈ registered p)
    {u : SymbolTable} (hu : u.declared = (collect p).table.declared)
    (hb : (u.classAt (u.methodAt r.method).owner).state.isBroken = false) :
    nameFaults (Body.bodyIssues ⟨u, r.method⟩ r.decl.body)
      = faults (u.hasField (u.methodAt r.method).owner) r.decl.mentions := by
  have hf : Formed u := (collect_formed p).of_declared hu
  obtain ⟨env, hfollows⟩ := follows_registered hr hu
  unfold Body.bodyIssues
  rw [hfollows.stopIssues_eq, List.append_nil]
  exact hfollows.nameFaults_issuesAll hf hb (sound_start hr hu) (start_knows hr hu)

/-- **Every name that denotes nothing and every number that does not fit is reported
once**, whatever else is wrong. In the resolved table of a program every method has
a declaration in the tree. If the ancestry of its class is known, what is reported
of names and numbers in its body are the mentions at fault of the declaration, in
the order of the text. -/
theorem name_faults_reported_once (p : Program) :
    let t := (collect p).table.resolve.table
    (∀ m < t.methods.length, ∃ decl, (m, decl) ∈ C.heldMethods t p)
      ∧ ∀ m decl, (m, decl) ∈ C.heldMethods t p →
        (t.classAt (t.methodAt m).owner).state.isBroken = false →
        (Body.bodyIssues ⟨t, m⟩ decl.body).filter (·.isNameFault)
          = decl.mentions.filterMap (Mention.fault? (t.hasField (t.methodAt m).owner)) := by
  intro t
  have hu : t.declared = (collect p).table.declared := resolve_declared _
  refine ⟨fun m hm => exists_mem_heldMethods hu hm, fun m decl hheld hb => ?_⟩
  rw [heldMethods_registered p hu] at hheld
  obtain ⟨r, hr, heq⟩ := List.mem_map.mp hheld
  obtain ⟨rfl, rfl⟩ := Prod.mk.inj heq
  exact nameFaults_bodyIssues hr hu hb

/-- A method in which much is wrong: a parameter without a type, a local in its own
initial value, a local that is refused, arguments of a construction and of a method
that does not exist, and a name behind the block that declares it. -/
def faultyMethod : MethodDecl where
  name := ⟨"f", {}⟩
  params := [⟨⟨"self", {}⟩, none, {}⟩, ⟨⟨"n", {}⟩, some ⟨"int", {}⟩, {}⟩, ⟨⟨"m", {}⟩, none, {}⟩]
  returnType := none
  body :=
    [.declare ⟨"int", {}⟩ [⟨⟨"a", {}⟩, some (.name ⟨"a", ⟨2, 13, 1⟩⟩), {}⟩,
        ⟨⟨"n", {}⟩, some (.int 4294967296 ⟨3, 13, 10⟩), {}⟩] {},
      .eval (.call ⟨"A", {}⟩ [.name ⟨"x", ⟨4, 7, 1⟩⟩, .name ⟨"size", {}⟩] {}) {},
      .ifElse (.send (.name ⟨"m", ⟨5, 9, 1⟩⟩) ⟨"g", {}⟩ [.name ⟨"y", ⟨5, 13, 1⟩⟩] {})
        [.declare ⟨"int", {}⟩ [⟨⟨"b", {}⟩, some (.name ⟨"a", {}⟩), {}⟩] {},
          .assign ⟨"b", {}⟩ (.name ⟨"self", {}⟩) {}] {}
        [.assign ⟨"b", ⟨9, 9, 1⟩⟩ (.int (-2147483649) ⟨9, 13, 11⟩) {}] {} {}]
  bodySpan := {}
  span := {}

/-- A program with this method. -/
def faulty : Program where
  classes := [⟨⟨"A", {}⟩, [], [.field ⟨⟨"int", {}⟩, [⟨"size", {}⟩], {}⟩, .method faultyMethod], {}⟩]
  span := {}

theorem faulty_names :
    let t := (collect faulty).table.resolve.table
    (0, faultyMethod) ∈ C.heldMethods t faulty
      ∧ (t.classAt (t.methodAt 0).owner).state.isBroken = false
      ∧ (Body.bodyIssues ⟨t, 0⟩ faultyMethod.body).filter (·.isNameFault)
        = [.undeclared "a" ⟨2, 13, 1⟩, .mismatch (.literalRange 4294967296) ⟨3, 13, 10⟩,
          .undeclared "x" ⟨4, 7, 1⟩, .undeclared "m" ⟨5, 9, 1⟩, .undeclared "y" ⟨5, 13, 1⟩,
          .undeclared "b" ⟨9, 9, 1⟩, .mismatch (.literalRange (-2147483649)) ⟨9, 13, 11⟩] := by
  intro t
  have held : (0, faultyMethod) ∈ C.heldMethods t faulty :=
    List.mem_of_getElem? (i := 0) (by with_unfolding_all rfl)
  have known : (t.classAt (t.methodAt 0).owner).state.isBroken = false := by decide +kernel
  refine ⟨held, known, ?_⟩
  rw [(name_faults_reported_once faulty).2 0 faultyMethod held known]
  decide +kernel

end Heritage
