import Heritage.Proofs.Acceptance
import Heritage.Proofs.Scoping

/-!
# What the names in a function denote

The blocks of a function are those of the body it is written for, and each
declaration stands in the block it stood in. So the name that is written for an
occurrence mostly denotes the variable that the occurrence denotes. It does not
where a variable that is spelled alike is nearer: C spells some names alike that
differ, and in the initial value of a variable the variable itself is nearer
than all others, while in the body it is not in scope yet
(`names_denote_unless_captured`).
-/

namespace Heritage

open SymbolTable

/-! ## Occurrences of names in a body -/

/-- **An occurrence of a name in a body**: the variable that it denotes, the
blocks around it, and the variable in whose initial value it stands, if it does
in one. -/
structure Occurrence where
  /-- The variable that the name denotes. -/
  var : VarId
  /-- The blocks around the name, with what is declared in them so far. -/
  blocks : List (List VarId)
  /-- The variable that is being declared. -/
  declaring : Option VarId
deriving DecidableEq

namespace Occurrence

/-- The name that is written for an occurrence. In C a variable that is being
declared is in scope. -/
def use (o : Occurrence) : C.Use where
  var := o.var
  scope := o.declaring.elim o.blocks (C.declareIn · o.blocks)

/-- In C the variables around a name and the one that is being declared are in
scope. -/
theorem mem_scope {o : Occurrence} {w : VarId} :
    w ∈ o.use.scope.flatten ↔ o.declaring = some w ∨ w ∈ o.blocks.flatten := by
  unfold use
  cases o.declaring with
  | none => simp
  | some v =>
    rw [Option.some.injEq, eq_comm]
    exact C.mem_declareIn

/-- **An occurrence is captured**: a variable that is declared in the block of
the one it denotes or further in, perhaps the one that is being declared, is
spelled alike. The receiver is spelled as no other variable is. -/
def Captured (t : SymbolTable) (o : Occurrence) : Prop :=
  ∃ w ∈ C.near o.var o.use.scope, w ≠ o.var
    ∧ (t.varAt w).kind ≠ .receiver ∧ (t.varAt o.var).kind ≠ .receiver
    ∧ C.Alike (t.varAt w).name (t.varAt o.var).name

end Occurrence

namespace Body

open C

/-- A place in a body where an expression stands. -/
structure Point where
  /-- The environment of the expression. -/
  env : Env
  /-- The variable that it is the initial value of. -/
  declaring : Option VarId
  /-- The expression. -/
  expr : Expr

/-- The occurrences at a place. -/
def occurrencesAt (b : Body) (pt : Point) : List Occurrence :=
  ((b.site pt.env).denoted pt.expr).map fun v => ⟨v, pt.env.blocks b.table, pt.declaring⟩

/-- The places in declarators. -/
def varPoints (b : Body) : List Declarator → Env → List Point
  | [], _ => []
  | v :: rest, env =>
    match b.table.lookupIn env.scope v.name.text with
    | none => []
    | some id =>
      (v.init.map (⟨env, some id, ·⟩)).toList ++ b.varPoints rest (env.declare b.table v.name.text)

mutual
/-- The places in a statement. What an assignment goes to is one of them. -/
def points (b : Body) : Stmt → Env → List Point
  | .declare _ vars _, env => b.varPoints vars env
  | .ifThen cond body bodySpan _, env =>
    ⟨env, none, cond⟩ :: (match env.enter b.table bodySpan with
      | .ok inside => b.pointsAll body inside
      | .error _ => [])
  | .ifElse cond body bodySpan other otherSpan _, env =>
    ⟨env, none, cond⟩ :: (match env.enter b.table bodySpan with
      | .ok inside => b.pointsAll body inside
      | .error _ => [])
      ++ (match b.afterBlock body bodySpan env with
        | .error _ => []
        | .ok env =>
          match env.enter b.table otherSpan with
          | .ok inside => b.pointsAll other inside
          | .error _ => [])
  | .loop cond body bodySpan _, env =>
    ⟨env, none, cond⟩ :: (match env.enter b.table bodySpan with
      | .ok inside => b.pointsAll body inside
      | .error _ => [])
  | .ret value _, env => (value.map (⟨env, none, ·⟩)).toList
  | .assign target value _, env => [⟨env, none, .name target⟩, ⟨env, none, value⟩]
  | .eval expr _, env => [⟨env, none, expr⟩]
/-- The places in a list of statements. -/
def pointsAll (b : Body) : List Stmt → Env → List Point
  | [], _ => []
  | s :: rest, env =>
    b.points s env
      ++ (match b.after s env with
        | .ok env => b.pointsAll rest env
        | .error _ => [])
end

/-- **The occurrences of names in a body** that denote parameters and locals, in
order. -/
def occurrences (b : Body) (body : List Stmt) : List Occurrence :=
  (b.pointsAll body b.start).flatMap b.occurrencesAt

variable {p : Program} {t : SymbolTable} {b : Body} {result : Ty} {env : Env}

/-! ## The names in a function are those of its body -/

/-- The texts of expressions of which nothing is wrong name what the expressions
name. -/
theorem Of.names_marked (hb : b.Of p t result) {opened : List ScopeId}
    (hs : env.Sound b.table opened) (typed : ∀ v ∈ env.visible, b.Typed t v) {e : Expr}
    (h : (b.site env).issues e = []) :
    names ((b.site env).marked e) = (b.site env).denoted e :=
  Site.names_marked (fun e => (Site.agrees hb.settled (hb.models hs typed) e).poison) e h

theorem Of.names_value (hb : b.Of p t result) {opened : List ScopeId}
    (hs : env.Sound b.table opened) (typed : ∀ v ∈ env.visible, b.Typed t v) {e : Expr}
    (h : (b.site env).valueIssues e = []) :
    names ((b.site env).valuePieces e ((b.site env).marked e)) = (b.site env).denoted e := by
  obtain ⟨hissues, huse⟩ := List.append_eq_nil_iff.mp h
  rw [Site.valuePieces_of_use huse, hb.names_marked hs typed hissues]

theorem Of.names_checkPieces (hb : b.Of p t result) {opened : List ScopeId}
    (hs : env.Sound b.table opened) (typed : ∀ v ∈ env.visible, b.Typed t v) {e : Expr}
    (h : (b.site env).valueIssues e = []) (target : Option Ty) :
    names (b.checkPieces env e target) = (b.site env).denoted e :=
  (Site.names_storePieces ((b.site env).bracketed_valuePieces e) target).trans
    (hb.names_value hs typed h)

theorem names_returnPieces (value : Expr) :
    names (b.returnPieces env value) = names ((b.site env).marked value) := by
  have hbracketed := (b.site env).bracketed_marked value
  unfold returnPieces
  dsimp only
  cases htype : (b.site env).type? value with
  | none => exact names_standalonePieces hbracketed
  | some type =>
    cases (b.table.methodAt b.method).returnType with
    | none => exact names_standalonePieces hbracketed
    | some expected =>
      dsimp only
      split
      · rw [names_standalonePieces, names_convertPieces]
        rintro op left right span rfl
        unfold Site.type? at htype
        obtain rfl := Option.some.inj htype
        exact hbracketed op left right span rfl
      · exact names_standalonePieces hbracketed

theorem names_targetPieces (target : Ident) :
    names (b.targetPieces env target) = (b.site env).denoted (.name target) := by
  unfold targetPieces Site.denoted
  cases (b.site env).var target with
  | error i => rfl
  | ok v => exact Site.names_varPieces (s := b.site env) v

/-- The names in the text of an expression are its occurrences. -/
theorem usesIn_eq {ps : List Piece} {e : Expr} (declaring : Option VarId)
    (h : names ps = (b.site env).denoted e) :
    usesIn (declaring.elim (env.blocks b.table) (declareIn · (env.blocks b.table))) ps
      = (b.occurrencesAt ⟨env, declaring, e⟩).map Occurrence.use := by
  unfold usesIn occurrencesAt
  rw [h, List.map_map]
  rfl

theorem pointsAll_cons {s : Stmt} {env env' : Env} (h : b.after s env = .ok env')
    (rest : List Stmt) :
    b.pointsAll (s :: rest) env = b.points s env ++ b.pointsAll rest env' := by
  show b.points s env ++ _ = _
  rw [h]

section Blocks

variable {D : ScopeId → Ident → Declarator → Prop} {env e : Env} {block block' : ScopeId}
  {blocks : List ScopeId} {inner : List BlockScope}

theorem points_ifThen (next : env.ahead b.table = block :: blocks) (cond : Expr)
    (body : List Stmt) (bodySpan span : Span) :
    b.points (.ifThen cond body bodySpan span) env
      = ⟨env, none, cond⟩ :: b.pointsAll body (env.inside block) := by
  unfold points
  rw [Env.enter_eq next]

theorem points_loop (next : env.ahead b.table = block :: blocks) (cond : Expr)
    (body : List Stmt) (bodySpan span : Span) :
    b.points (.loop cond body bodySpan span) env
      = ⟨env, none, cond⟩ :: b.pointsAll body (env.inside block) := by
  unfold points
  rw [Env.enter_eq next]

/-- The places in a statement of a walk are its condition and those in its
blocks. -/
theorem Follows.points_ifElse {body : List Stmt}
    (inside : Follows b D body (env.inside block) e inner)
    (next : env.ahead b.table = block :: block' :: blocks) (cond : Expr) (other : List Stmt)
    (bodySpan otherSpan span : Span) :
    b.points (.ifElse cond body bodySpan other otherSpan span) env
      = ⟨env, none, cond⟩ :: b.pointsAll body (env.inside block)
        ++ b.pointsAll other ((env.behind e.visible).inside block') := by
  unfold points
  rw [Env.enter_eq next, inside.afterBlock next]
  dsimp only
  rw [Env.enter_eq (Env.ahead_behind next _)]

end Blocks

/-- The names that are written at places of a body. -/
def usesAt (b : Body) (pts : List Point) : List Use :=
  (pts.flatMap b.occurrencesAt).map Occurrence.use

theorem usesAt_append (pts qts : List Point) :
    b.usesAt (pts ++ qts) = b.usesAt pts ++ b.usesAt qts := by
  unfold usesAt
  rw [List.flatMap_append, List.map_append]

theorem usesAt_cons (pt : Point) (pts : List Point) :
    b.usesAt (pt :: pts) = (b.occurrencesAt pt).map Occurrence.use ++ b.usesAt pts := by
  unfold usesAt
  rw [List.flatMap_cons, List.map_append]

theorem usesAt_singleton (pt : Point) :
    b.usesAt [pt] = (b.occurrencesAt pt).map Occurrence.use :=
  (usesAt_cons pt []).trans (List.append_nil _)

/-- **The names in declarations**, and the scope behind them. -/
theorem Of.uses_varItems (hb : b.Of p t result) {clean : Prop} (hclean : clean) {type : Ident}
    (vars : List Declarator) {env env' : Env} {opened : List ScopeId}
    (hs : env.Sound b.table opened) (typed : ∀ v ∈ env.visible, b.Typed t v)
    (held : ∀ v ∈ vars, Held t clean env.scope type v) (hvars : b.afterVars vars env = .ok env')
    (issues : b.varIssues vars env = []) (rest : List Item) :
    usesOf (env.blocks b.table) (b.varItems type vars env ++ rest)
      = b.usesAt (b.varPoints vars env) ++ usesOf (env'.blocks b.table) rest := by
  induction vars generalizing env with
  | nil =>
    obtain rfl := Except.ok.inj hvars
    rfl
  | cons v vs ih =>
    obtain ⟨id, τ, hlook, hlt, hscope, -, -, -, htyped, -⟩ :=
      hb.local_declared hclean (held v List.mem_cons_self)
    obtain ⟨block, outer, hblocks, hblocks'⟩ := Env.blocks_declare hs hscope
    unfold afterVars afterVar at hvars
    unfold varIssues at issues
    rw [hlook, Env.declare_eq hlook] at hvars
    rw [hlook, Env.declare_eq hlook] at issues
    obtain ⟨hinit, hissues⟩ := List.append_eq_nil_iff.mp issues
    have htail := @ih { env with visible := id :: env.visible } (hs.declare hlt hscope)
      (List.forall_mem_cons.mpr ⟨htyped, typed⟩)
      (fun w hw => held w (List.mem_cons_of_mem v hw)) hvars hissues
    have hbehind : ({ env with visible := id :: env.visible } : Env).blocks b.table
        = declareIn id (env.blocks b.table) := by
      rw [hblocks, hblocks']
      rfl
    unfold varItems varPoints
    rw [hlook]
    dsimp only
    rw [Env.declare_eq hlook, usesAt_append, List.append_assoc, ← htail, hbehind]
    refine congrArg (· ++ usesOf _ _) ?_
    cases hv : v.init with
    | none => rfl
    | some e =>
      rw [hv] at hinit
      obtain ⟨hvalue, -⟩ := List.append_eq_nil_iff.mp hinit
      rw [Option.map_some, Option.map_some, Option.toList_some, usesAt_singleton]
      exact usesIn_eq (some id) (hb.names_checkPieces hs typed hvalue _)

/-- The names in the header of a statement with a condition. -/
theorem Of.uses_cond (hb : b.Of p t result) {opened : List ScopeId}
    (hs : env.Sound b.table opened) (typed : ∀ v ∈ env.visible, b.Typed t v) {cond : Expr}
    (h : b.condIssues env cond = []) {word : String} :
    usesIn (env.blocks b.table) (.text word :: b.condPieces env cond ++ [.text ")"])
      = (b.occurrencesAt ⟨env, none, cond⟩).map Occurrence.use := by
  refine usesIn_eq none ?_
  rw [List.cons_append, names_text, names_append, names_text, names_nil, List.append_nil,
    ← hb.names_value hs typed (List.append_eq_nil_iff.mp h).1]
  exact names_standalonePieces ((b.site env).bracketed_valuePieces cond)

/-- **The names in the items of a walk of which nothing is wrong are those that
are written for its occurrences.** -/
theorem Of.uses_items (hb : b.Of p t result) {clean : Prop} (hclean : clean) {body : List Stmt}
    {env env' : Env} {opened : List BlockScope}
    (h : Follows b (Held t clean) body env env' opened)
    (hs : env.Sound b.table (opened.map Prod.snd)) (typed : ∀ v ∈ env.visible, b.Typed t v)
    (issues : b.issuesAll body env = []) :
    usesOf (env.blocks b.table) (b.items body env) = b.usesAt (b.pointsAll body env) := by
  induction h with
  | nil => rfl
  | @declare type vars span rest env env' visible opened held hvars _ ih =>
    rw [issuesAll_cons (s := .declare type vars span) hvars, List.append_eq_nil_iff] at issues
    obtain ⟨hs', typed', -⟩ := hb.varIssues_eq_nil_iff hclean vars hs typed held hvars
    rw [items_cons (s := .declare type vars span) hvars,
      pointsAll_cons (s := .declare type vars span) hvars, usesAt_append,
      ← ih hs' typed' issues.2]
    exact hb.uses_varItems hclean vars hs typed held hvars issues.1 _
  | @ifThen cond body bodySpan span rest env e env' block blocks inner opened next inside _ ihIn
      ih =>
    have hafter := inside.after_ifThen_eq next cond bodySpan span
    have typedIn := inside.visible_forall (hb.typed_of_held hclean) typed
    obtain ⟨hsIn, hblocksIn, hsBehind, hblocks⟩ := inside.blocks_block hb.formed hs
    obtain ⟨hcond, hbody, hrest⟩ := (inside.issuesAll_ifThen_eq_nil_iff next ..).mp issues
    rw [items_cons hafter, pointsAll_cons hafter, item_ifThen next, points_ifThen next,
      usesAt_append, usesAt_cons, ← ih hsBehind typedIn hrest, hblocks, ← ihIn hsIn typed hbody,
      hblocksIn, ← hb.uses_cond hs typed hcond]
    rfl
  | @ifElse cond body other bodySpan otherSpan span rest env e e' env' block block' blocks inner
      inner' opened next inside inside' _ ihIn ihIn' ih =>
    have hafter := inside.after_ifElse_eq inside' next cond bodySpan otherSpan span
    have typedIn := inside.visible_forall (hb.typed_of_held hclean) typed
    have typedIn' := inside'.visible_forall (hb.typed_of_held hclean) typedIn
    rw [List.append_assoc] at hs
    obtain ⟨hsIn, hblocksIn, hsBehind, hblocks⟩ := inside.blocks_block hb.formed hs
    obtain ⟨hsIn', hblocksIn', hsBehind', hblocks'⟩ := inside'.blocks_block hb.formed hsBehind
    obtain ⟨hcond, hbody, hother, hrest⟩ :=
      (inside.issuesAll_ifElse_eq_nil_iff inside' next ..).mp issues
    rw [items_cons hafter, pointsAll_cons hafter, inside.item_ifElse next,
      inside.points_ifElse next, usesAt_append, usesAt_append, usesAt_cons,
      ← ih hsBehind' typedIn' hrest, hblocks', hblocks, ← ihIn hsIn typed hbody,
      ← ihIn' hsIn' typedIn hother, hblocksIn, hblocksIn', hblocks,
      ← hb.uses_cond hs typed hcond]
    rfl
  | @loop cond body bodySpan span rest env e env' block blocks inner opened next inside _ ihIn ih =>
    have hafter := inside.after_loop_eq next cond bodySpan span
    have typedIn := inside.visible_forall (hb.typed_of_held hclean) typed
    obtain ⟨hsIn, hblocksIn, hsBehind, hblocks⟩ := inside.blocks_block hb.formed hs
    obtain ⟨hcond, hbody, hrest⟩ := (inside.issuesAll_loop_eq_nil_iff next ..).mp issues
    rw [items_cons hafter, pointsAll_cons hafter, item_loop next, points_loop next,
      usesAt_append, usesAt_cons, ← ih hsBehind typedIn hrest, hblocks, ← ihIn hsIn typed hbody,
      hblocksIn, ← hb.uses_cond hs typed hcond]
    rfl
  | @ret value span rest env env' opened _ ih =>
    rw [issuesAll_cons (s := .ret value span) rfl, List.append_eq_nil_iff] at issues
    rw [items_cons (s := .ret value span) rfl, pointsAll_cons (s := .ret value span) rfl,
      usesAt_append, ← ih hs typed issues.2]
    cases value with
    | none => rfl
    | some e =>
      have hissues := (List.append_eq_nil_iff.mp issues.1).1
      unfold item points
      rw [Option.map_some, Option.toList_some, usesAt_singleton, ← usesIn_eq none]
      · rfl
      · rw [List.cons_append, names_text, names_append, names_text, names_nil, List.append_nil,
          names_returnPieces, hb.names_marked hs typed hissues]
  | @assign target value span rest env env' opened _ ih =>
    rw [issuesAll_cons (s := .assign target value span) rfl, List.append_eq_nil_iff] at issues
    rw [items_cons (s := .assign target value span) rfl,
      pointsAll_cons (s := .assign target value span) rfl, usesAt_append, ← ih hs typed issues.2]
    have hvalue := (List.append_eq_nil_iff.mp (List.append_eq_nil_iff.mp issues.1).2).1
    unfold item points
    rw [usesAt_cons, usesAt_singleton, ← usesIn_eq none (names_targetPieces target),
      ← usesIn_eq none (hb.names_checkPieces hs typed hvalue (b.assignTarget env target).1)]
    refine congrArg (· ++ usesOf _ (b.items rest env)) ?_
    simp [Item.uses, usesIn]
  | @eval expr span rest env env' opened _ ih =>
    rw [issuesAll_cons (s := .eval expr span) rfl, List.append_eq_nil_iff] at issues
    rw [items_cons (s := .eval expr span) rfl,
      pointsAll_cons (s := .eval expr span) rfl, usesAt_append, ← ih hs typed issues.2]
    unfold item points
    rw [usesAt_singleton, ← usesIn_eq none]
    · rfl
    · rw [names_append, names_text, names_nil, List.append_nil,
        names_standalonePieces ((b.site env).bracketed_marked expr),
        hb.names_marked hs typed issues.1]

/-! ## Which occurrences are captured -/

/-- A variable that is the receiver of the body only if it is its first
parameter. -/
def Sole (b : Body) (v : VarId) : Prop :=
  (b.table.varAt v).kind = .receiver → (b.table.paramsOf b.method).head? = some v

/-- **Two variables are spelled the same exactly if their names are spelled alike**
and neither is the receiver. -/
theorem spelling_eq_iff {v w : VarId} (hv : b.Sole v) (hw : b.Sole w) (hne : w ≠ v) :
    spelling b.table w = spelling b.table v
      ↔ (b.table.varAt w).kind ≠ .receiver ∧ (b.table.varAt v).kind ≠ .receiver
        ∧ Alike (b.table.varAt w).name (b.table.varAt v).name := by
  by_cases hkw : (b.table.varAt w).kind = .receiver
  · refine iff_of_false (fun heq => ?_) (fun h => h.1 hkw)
    rw [spelling_receiver hkw] at heq
    by_cases hkv : (b.table.varAt v).kind = .receiver
    · exact hne (Option.some.inj ((hw hkw).symm.trans (hv hkv)))
    · rw [spelling_of_ne hkv] at heq
      exact ident_ne_receiver _ heq.symm
  · rw [spelling_of_ne hkw]
    by_cases hkv : (b.table.varAt v).kind = .receiver
    · refine iff_of_false (fun heq => ?_) (fun h => h.2.1 hkv)
      rw [spelling_receiver hkv] at heq
      exact ident_ne_receiver _ heq
    · rw [spelling_of_ne hkv, ident_eq_iff, and_iff_right hkw, and_iff_right hkv]

/-- What holds of a place in a walk: its environment is one along the walk, and
no variable of it is taken for the receiver. -/
structure Point.Reached (b : Body) (pt : Point) : Prop where
  /-- The environment is one at which scopes remain to be entered. -/
  sound : ∃ opened, pt.env.Sound b.table opened
  /-- None but the receiver is taken for it. -/
  visible : ∀ v ∈ pt.env.visible, b.Sole v
  /-- The variable that is being declared is not. -/
  declaring : ∀ v ∈ pt.declaring, b.Sole v

theorem varPoints_reached (hf : Formed b.table) (vars : List Declarator) {env : Env}
    {opened : List ScopeId} (hs : env.Sound b.table opened)
    (held : ∀ v ∈ vars, ∀ id, b.table.lookupIn env.scope v.name.text = some id → b.Sole id)
    (hvis : ∀ v ∈ env.visible, b.Sole v) : ∀ pt ∈ b.varPoints vars env, pt.Reached b := by
  induction vars generalizing env with
  | nil => exact List.forall_mem_nil _
  | cons v rest ih =>
    unfold varPoints
    cases hid : b.table.lookupIn env.scope v.name.text with
    | none => exact List.forall_mem_nil _
    | some id =>
      obtain ⟨hlt, hscope, -⟩ := (lookupIn_eq_some_iff hf).mp hid
      have hsole := held v List.mem_cons_self id hid
      dsimp only
      rw [Env.declare_eq hid]
      intro pt hpt
      rcases List.mem_append.mp hpt with hinit | hrest
      · obtain ⟨e, -, rfl⟩ := Option.map_eq_some_iff.mp (Option.mem_toList.mp hinit)
        refine ⟨⟨opened, hs⟩, hvis, fun w hw => ?_⟩
        obtain rfl := Option.some.inj hw
        exact hsole
      · exact @ih { env with visible := id :: env.visible } (hs.declare hlt hscope)
          (fun w hw => held w (List.mem_cons_of_mem v hw))
          (List.forall_mem_cons.mpr ⟨hsole, hvis⟩) pt hrest

/-- **Every place in a body is reached along the walk.** -/
theorem Follows.points_reached (hf : Formed b.table) {D : ScopeId → Ident → Declarator → Prop}
    (held : ∀ {s type v id}, D s type v → b.table.lookupIn s v.name.text = some id → b.Sole id)
    {body : List Stmt} {env env' : Env} {opened : List BlockScope}
    (h : Follows b D body env env' opened) (hs : env.Sound b.table (opened.map Prod.snd))
    (hvis : ∀ v ∈ env.visible, b.Sole v) : ∀ pt ∈ b.pointsAll body env, pt.Reached b := by
  have here : ∀ {env : Env} {opened : List ScopeId} (e : Expr), env.Sound b.table opened →
      (∀ v ∈ env.visible, b.Sole v) → Point.Reached b ⟨env, none, e⟩ :=
    fun _ hs hvis => ⟨⟨_, hs⟩, hvis, fun _ hv => nomatch hv⟩
  induction h with
  | nil => exact List.forall_mem_nil _
  | @declare type vars span rest env env' visible opened hvars vars_ok _ ih =>
    have hsole : ∀ v ∈ vars, ∀ id, b.table.lookupIn env.scope v.name.text = some id → b.Sole id :=
      fun v hv _ hid => held (hvars v hv) hid
    obtain ⟨news, hnews, hdeclares⟩ := afterVars_visible hf vars vars_ok
    rw [pointsAll_cons (s := .declare type vars span) vars_ok, List.forall_mem_append]
    exact ⟨varPoints_reached hf vars hs hsole hvis,
      ih (hs.declareAll hnews hdeclares) (afterVars_forall vars hsole hvis vars_ok)⟩
  | @ifThen cond body bodySpan span rest env e env' block blocks inner opened next inside _ ihIn
      ih =>
    obtain ⟨hsIn, -, hsBehind, -⟩ := inside.blocks_block hf hs
    rw [pointsAll_cons (inside.after_ifThen_eq next ..), points_ifThen next,
      List.forall_mem_append, List.forall_mem_cons]
    exact ⟨⟨here cond hs hvis, ihIn hsIn hvis⟩, ih hsBehind (inside.visible_forall held hvis)⟩
  | @ifElse cond body other bodySpan otherSpan span rest env e e' env' block block' blocks inner
      inner' opened next inside inside' _ ihIn ihIn' ih =>
    have hvisIn := inside.visible_forall held hvis
    rw [List.append_assoc] at hs
    obtain ⟨hsIn, -, hsBehind, -⟩ := inside.blocks_block hf hs
    obtain ⟨hsIn', -, hsBehind', -⟩ := inside'.blocks_block hf hsBehind
    rw [pointsAll_cons (inside.after_ifElse_eq inside' next ..), inside.points_ifElse next,
      List.forall_mem_append, List.forall_mem_append, List.forall_mem_cons]
    exact ⟨⟨⟨here cond hs hvis, ihIn hsIn hvis⟩, ihIn' hsIn' hvisIn⟩,
      ih hsBehind' (inside'.visible_forall held hvisIn)⟩
  | @loop cond body bodySpan span rest env e env' block blocks inner opened next inside _ ihIn ih =>
    obtain ⟨hsIn, -, hsBehind, -⟩ := inside.blocks_block hf hs
    rw [pointsAll_cons (inside.after_loop_eq next ..), points_loop next,
      List.forall_mem_append, List.forall_mem_cons]
    exact ⟨⟨here cond hs hvis, ihIn hsIn hvis⟩, ih hsBehind (inside.visible_forall held hvis)⟩
  | @ret value span rest env env' opened _ ih =>
    rw [pointsAll_cons (s := .ret value span) rfl, List.forall_mem_append]
    refine ⟨?_, ih hs hvis⟩
    cases value with
    | none => exact List.forall_mem_nil _
    | some e => exact List.forall_mem_singleton.mpr (here e hs hvis)
  | @assign target value span rest env env' opened _ ih =>
    rw [pointsAll_cons (s := .assign target value span) rfl, List.forall_mem_append]
    exact ⟨List.forall_mem_cons.mpr
        ⟨here _ hs hvis, List.forall_mem_singleton.mpr (here _ hs hvis)⟩, ih hs hvis⟩
  | @eval expr span rest env env' opened _ ih =>
    rw [pointsAll_cons (s := .eval expr span) rfl, List.forall_mem_append]
    exact ⟨List.forall_mem_singleton.mpr (here expr hs hvis), ih hs hvis⟩

/-- What an expression denotes is declared in one of the blocks around it. -/
theorem Of.denoted_declared (hb : b.Of p t result) {opened : List ScopeId}
    (hs : env.Sound b.table opened) {e : Expr} {v : VarId} (h : v ∈ (b.site env).denoted e) :
    v ∈ (env.blocks b.table).flatten := by
  obtain ⟨x, hx, hkind⟩ := Site.mem_denoted e h
  change variableNamed b.table env b.cls x.text x.span = _ at hx
  unfold variableNamed at hx
  cases hlook : env.lookup b.table x.text with
  | some w =>
    rw [hlook, Option.some_or] at hx
    obtain rfl := Except.ok.inj hx
    rw [Env.lookup_eq_findIn hb.formed hs] at hlook
    obtain ⟨block, hblock, hfind⟩ := List.exists_of_findSome?_eq_some hlook
    exact List.mem_flatten.mpr ⟨block, hblock, List.mem_of_find?_eq_some hfind⟩
  | none =>
    rw [hlook, Option.none_or] at hx
    cases hfind : b.table.findField b.cls x.text with
    | none =>
      rw [hfind] at hx
      dsimp only at hx
      split at hx <;> cases hx
    | some w =>
      rw [hfind] at hx
      obtain rfl := Except.ok.inj hx
      rw [hb.table] at hfind
      obtain ⟨-, -, hfield, -⟩ := hb.settled.represents.findField_type hb.settled.types
        hb.settled.ancestry hb.cls_lt hfind
      refine absurd ?_ hkind
      show (b.table.varAt w).kind = _
      rw [hb.table, hfield]

/-- **The name written for an occurrence denotes its variable exactly if the
occurrence is not captured.** -/
theorem Of.faithful_iff (hb : b.Of p t result) {pt : Point} (hpt : pt.Reached b) {o : Occurrence}
    (ho : o ∈ b.occurrencesAt pt) : o.use.Faithful b.table ↔ ¬ o.Captured b.table := by
  obtain ⟨⟨opened, hs⟩, hvis, hdeclaring⟩ := hpt
  obtain ⟨v, hv, rfl⟩ := List.mem_map.mp ho
  have hdeclared := hb.denoted_declared hs hv
  have hvisible : ∀ {w}, w ∈ (pt.env.blocks b.table).flatten → b.Sole w := by
    intro w hw
    obtain ⟨block, hblock, hmem⟩ := List.mem_flatten.mp hw
    obtain ⟨f, -, rfl⟩ := List.mem_map.mp hblock
    exact hvis w (List.mem_filter.mp hmem).1
  have hscope : ∀ {w}, w ∈ near v
      (Occurrence.use ⟨v, pt.env.blocks b.table, pt.declaring⟩).scope → b.Sole w := by
    intro w hw
    rcases Occurrence.mem_scope.mp (mem_of_mem_near _ hw) with hd | hmem
    · exact hdeclaring w hd
    · exact hvisible hmem
  have hsole := hvisible hdeclared
  refine (Use.faithful_iff _).trans
    ((and_iff_right (Occurrence.mem_scope.mpr (Or.inr hdeclared))).trans ?_)
  unfold Occurrence.Captured
  constructor
  · rintro hall ⟨w, hw, hne, halike⟩
    exact hne (hall w hw ((spelling_eq_iff hsole (hscope hw) hne).mpr halike))
  · intro hfree w hw heq
    by_contra hne
    exact hfree ⟨w, hw, hne, (spelling_eq_iff hsole (hscope hw) hne).mp heq⟩

/-- **The names in the function for a method** of which nothing is wrong are those
that are written for the occurrences in its body. -/
theorem Of.uses_function (hb : b.Of p t result) {decl : MethodDecl}
    (hm : HoldsMethod p t b.method b.cls decl) {clean : Prop} (hclean : clean) {env : Env}
    {opened : List BlockScope} (h : Follows b (Held t clean) decl.body b.start env opened)
    (hs : b.start.Sound b.table (opened.map Prod.snd))
    (issues : b.issuesAll decl.body b.start = []) :
    (b.function decl.body).uses = (b.occurrences decl.body).map Occurrence.use := by
  have hparams : (b.function decl.body).params.map (·.2) = b.table.paramsOf b.method :=
    List.map_map.trans (List.map_id _)
  unfold Function.uses
  rw [hparams, ← start_blocks]
  exact hb.uses_items hclean h hs (hb.start_context hm).1 issues

/-- A local is not taken for the receiver. -/
theorem Of.sole_of_held (hb : b.Of p t result) {clean : Prop} (hclean : clean) {s : ScopeId}
    {type : Ident} {v : Declarator} {id : VarId} (held : Held t clean s type v)
    (hid : b.table.lookupIn s v.name.text = some id) : b.Sole id := by
  obtain ⟨id', τ, hlook, -, -, -, -, -, -, hbinding⟩ := hb.local_declared hclean held
  obtain rfl := Option.some.inj (hlook.symm.trans hid)
  intro hkind
  exact absurd hkind (beq_eq_false_iff_ne.mp (congrArg Binding.fixed hbinding))

/-- None of the variables a body begins with is taken for the receiver. -/
theorem Of.start_sole (hb : b.Of p t result) {decl : MethodDecl}
    (hm : HoldsMethod p t b.method b.cls decl) : ∀ v ∈ b.start.visible, b.Sole v := by
  obtain ⟨v, vs, hparams, -, hkind⟩ := hb.params_kinds hm
  intro w hw hreceiver
  rcases List.mem_cons.mp (hparams ▸ hw : w ∈ v :: vs) with rfl | hw
  · rw [hparams]
    rfl
  · exact absurd hreceiver (hkind w hw)

end Body

/-! ## Programs -/

/-- **The names in the functions of a program that is accepted**: each function
is written for a tree whose names are those of the body, and the name written
for an occurrence denotes its variable exactly if the occurrence is not
captured. -/
theorem names_denote_unless_captured {p : Program} (ok : ∃ out, compile p = .ok out)
    {b : Body} {decl : MethodDecl} (table : b.table = (Compilation.run {} p).resolved.table)
    (held : (b.method, decl) ∈ C.heldMethods b.table p) :
    (b.function decl.body).steps b.table = C.definitionSteps b.table b.method decl.body
      ∧ (b.function decl.body).uses = (b.occurrences decl.body).map Occurrence.use
      ∧ ∀ o ∈ b.occurrences decl.body, o.use.Faithful b.table ↔ ¬ o.Captured b.table := by
  obtain ⟨clean, settled, hfile⟩ := settled_of_issues ((exists_ok_iff {} p).mp ok)
  obtain ⟨u, m⟩ := b
  obtain rfl : u = (collect p).table.resolve.table := table
  have hu := resolve_declared (collect p).table
  rw [heldMethods_registered p hu] at held
  obtain ⟨r, hr, hheld⟩ := List.mem_map.mp held
  obtain ⟨rfl, rfl⟩ := Prod.mk.inj hheld
  obtain ⟨τ, hb, -, hm⟩ := registered_body clean settled hr
  obtain ⟨env, hfollows⟩ := follows_registered hr hu
  have hs := sound_start hr hu
  rw [file_issues_registered p hu, List.flatMap_eq_nil_iff] at hfile
  have hreached := hfollows.points_reached hb.formed (hb.sole_of_held clean) hs (hb.start_sole hm)
  refine ⟨hb.steps_function hm clean hfollows,
    hb.uses_function hm clean hfollows hs (hfile r hr), fun o ho => ?_⟩
  obtain ⟨pt, hpt, hopt⟩ := List.mem_flatMap.mp ho
  exact hb.faithful_iff (hreached pt hpt) hopt

/-- A method that declares `x` in a block inside the block of another `x`, with
the outer one as its initial value. -/
def shadowingMethod : MethodDecl where
  name := ⟨"f", {}⟩
  params := [⟨⟨"self", {}⟩, none, {}⟩]
  returnType := some ⟨"int", {}⟩
  body :=
    [.declare ⟨"int", {}⟩ [⟨⟨"x", {}⟩, some (.int 1 {}), {}⟩] {},
      .ifThen (.name ⟨"x", {}⟩)
        [.declare ⟨"int", {}⟩ [⟨⟨"x", {}⟩, some (.name ⟨"x", {}⟩), {}⟩] {},
          .ret (some (.name ⟨"x", {}⟩)) {}] {} {},
      .ret (some (.int 0 {})) {}]
  bodySpan := {}
  span := {}

/-- A program with this method. -/
def shadowing : Program where
  classes := [⟨⟨"A", {}⟩, [], [.method shadowingMethod], {}⟩]
  span := {}

theorem shadowing_names :
    (∃ out, compile shadowing = .ok out)
      ∧ (0, shadowingMethod)
        ∈ C.heldMethods (Compilation.run {} shadowing).resolved.table shadowing
      ∧ ∀ o ∈ Body.occurrences ⟨(Compilation.run {} shadowing).resolved.table, 0⟩
          shadowingMethod.body,
        o.use.Faithful (Compilation.run {} shadowing).resolved.table
          ↔ ¬ o.Captured (Compilation.run {} shadowing).resolved.table := by
  have ok : ∃ out, compile shadowing = .ok out :=
    (exists_ok_iff {} shadowing).mpr (by decide +kernel)
  have held : (0, shadowingMethod)
      ∈ C.heldMethods (Compilation.run {} shadowing).resolved.table shadowing :=
    List.mem_of_getElem? (i := 0) (by with_unfolding_all rfl)
  exact ⟨ok, held, (names_denote_unless_captured
    (b := ⟨(Compilation.run {} shadowing).resolved.table, 0⟩) ok rfl held).2.2⟩

/-- **In C the initial value of the inner variable is its own**: the program is
accepted, and one of the names in its function does not denote the variable that
it was written for. -/
theorem shadowing_captured :
    (∃ out, compile shadowing = .ok out)
      ∧ ∃ o ∈ Body.occurrences ⟨(Compilation.run {} shadowing).resolved.table, 0⟩
          shadowingMethod.body,
        o.declaring.isSome ∧ ¬ o.use.Faithful (Compilation.run {} shadowing).resolved.table :=
  ⟨(exists_ok_iff {} shadowing).mpr (by decide +kernel), by decide +kernel⟩

end Heritage
