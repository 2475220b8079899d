import Heritage.C.Stmt
import Heritage.Proofs.ScopeTree

/-!
# Following a body through its scopes

A body is followed in an environment that enters the blocks of a scope by
counting them. `Follows` is such a walk that arrives: it says through which
environments it goes, and which scope it enters for each block. Where the
scopes mirror the body there is one, since the count is right: the next block of
the innermost scope is the one that was opened for the next block of the text,
and every local is found.
-/

namespace Heritage

open SymbolTable (BlockScope Mirrors)

namespace Env

/-- The environment inside a block of the innermost scope. -/
def inside (e : Env) (block : ScopeId) : Env where
  top := { scope := block }
  outer := { e.top with entered := e.top.entered + 1 } :: e.outer
  visible := e.visible

/-- The environment behind a block of the innermost scope, in which variables
were declared. -/
def behind (e : Env) (visible : List VarId) : Env where
  top := { e.top with entered := e.top.entered + 1 }
  outer := e.outer
  visible := visible

/-- The blocks of the innermost scope that are still to be entered. -/
def ahead (e : Env) (t : SymbolTable) : List ScopeId :=
  (t.childrenOf e.scope).drop e.top.entered

variable {t : SymbolTable} {e : Env} {block : ScopeId} {blocks : List ScopeId}

theorem enter_eq (h : e.ahead t = block :: blocks) (span : Span) :
    e.enter t span = .ok (e.inside block) := by
  have hget : (t.childrenOf e.scope)[e.top.entered]? = some block := by
    rw [← Nat.add_zero e.top.entered, ← List.getElem?_drop]
    unfold ahead at h
    rw [h]
    rfl
  unfold enter
  rw [hget]
  rfl

theorem ahead_behind (h : e.ahead t = block :: blocks) (visible : List VarId) :
    (e.behind visible).ahead t = blocks := by
  unfold ahead at h
  show (t.childrenOf e.scope).drop (e.top.entered + 1) = blocks
  rw [← List.drop_drop, h]
  rfl

theorem leave_of_inside {e' : Env} (h : e'.outer = (e.inside block).outer) :
    e'.leave = e.behind e'.visible := by
  unfold leave
  rw [h]
  rfl

theorem declare_eq {name : String} {v : VarId} (h : t.lookupIn e.scope name = some v) :
    e.declare t name = { e with visible := v :: e.visible } := by
  unfold declare
  rw [h]

end Env

namespace Body

mutual
/-- The blocks of a statement with the scopes that are entered for them, outer
ones first. -/
def enteredStmt (b : Body) : Stmt → Env → List BlockScope
  | .declare _ _ _, _ => []
  | .ifThen _ body bodySpan _, env =>
    match env.enter b.table bodySpan with
    | .ok inside => (body, inside.scope) :: b.enteredAll body inside
    | .error _ => []
  | .ifElse _ body bodySpan other otherSpan _, env =>
    (match env.enter b.table bodySpan with
      | .ok inside => (body, inside.scope) :: b.enteredAll body inside
      | .error _ => [])
      ++ (match b.afterBlock body bodySpan env with
        | .error _ => []
        | .ok env =>
          match env.enter b.table otherSpan with
          | .ok inside => (other, inside.scope) :: b.enteredAll other inside
          | .error _ => [])
  | .loop _ body bodySpan _, env =>
    match env.enter b.table bodySpan with
    | .ok inside => (body, inside.scope) :: b.enteredAll body inside
    | .error _ => []
  | .ret _ _, _ => []
  | .assign _ _ _, _ => []
  | .eval _ _, _ => []
/-- **The blocks of a list of statements with the scopes that are entered for
them**, in the order of the text. -/
def enteredAll (b : Body) : List Stmt → Env → List BlockScope
  | [], _ => []
  | s :: rest, env =>
    b.enteredStmt s env
      ++ (match b.after s env with
        | .ok env => b.enteredAll rest env
        | .error _ => [])
end

variable {b : Body}

/-! ## One statement at a time -/

/-- A block of which every statement can be followed is entered and left. -/
theorem afterBlock_eq {env env' : Env} {block : ScopeId} {blocks : List ScopeId}
    (h : env.ahead b.table = block :: blocks) {body : List Stmt}
    (hbody : b.afterAll body (env.inside block) = .ok env')
    (houter : env'.outer = (env.inside block).outer) (span : Span) :
    b.afterBlock body span env = .ok (env.behind env'.visible) := by
  unfold afterBlock
  rw [Env.enter_eq h]
  show (do
    let inside ← b.afterAll body (env.inside block)
    return inside.leave) = _
  rw [hbody]
  show Except.ok env'.leave = _
  rw [Env.leave_of_inside houter]

theorem after_ifThen (cond : Expr) (body : List Stmt) (bodySpan span : Span) (env : Env) :
    b.after (.ifThen cond body bodySpan span) env = b.afterBlock body bodySpan env := by
  unfold after
  rfl

theorem after_loop (cond : Expr) (body : List Stmt) (bodySpan span : Span) (env : Env) :
    b.after (.loop cond body bodySpan span) env = b.afterBlock body bodySpan env := by
  unfold after
  rfl

theorem after_ifElse (cond : Expr) (body other : List Stmt) (bodySpan otherSpan span : Span)
    (env : Env) :
    b.after (.ifElse cond body bodySpan other otherSpan span) env
      = (b.afterBlock body bodySpan env).bind (b.afterBlock other otherSpan) := by
  unfold after afterBlock
  cases env.enter b.table bodySpan with
  | error i => rfl
  | ok inside =>
    show (do
      let inside ← b.afterAll body inside
      let inside ← inside.leave.enter b.table otherSpan
      let inside ← b.afterAll other inside
      return inside.leave) = _
    cases hbody : b.afterAll body inside with
    | error i =>
      show _ = Except.bind (do
        let inside ← b.afterAll body inside
        return inside.leave) _
      rw [hbody]
      rfl
    | ok inside =>
      show _ = Except.bind (do
        let inside ← b.afterAll body _
        return inside.leave) _
      rw [hbody]
      rfl

theorem after_ifElse_ok {cond : Expr} {body other : List Stmt} {bodySpan otherSpan span : Span}
    {env env' env'' : Env} (h : b.afterBlock body bodySpan env = .ok env')
    (h' : b.afterBlock other otherSpan env' = .ok env'') :
    b.after (.ifElse cond body bodySpan other otherSpan span) env = .ok env'' := by
  rw [after_ifElse, h]
  exact h'

theorem afterAll_cons {s : Stmt} {env env' : Env} (h : b.after s env = .ok env')
    (rest : List Stmt) : b.afterAll (s :: rest) env = b.afterAll rest env' := by
  show (do
    let env ← b.after s env
    b.afterAll rest env) = _
  rw [h]
  rfl

theorem enteredAll_cons {s : Stmt} {env env' : Env} (h : b.after s env = .ok env')
    (rest : List Stmt) :
    b.enteredAll (s :: rest) env = b.enteredStmt s env ++ b.enteredAll rest env' := by
  show b.enteredStmt s env ++ _ = _
  rw [h]

/-- Declarators that were all collected are followed without leaving the scope. -/
theorem afterVars_ok (vars : List Declarator) (env : Env)
    (h : ∀ v ∈ vars, (b.table.lookupIn env.scope v.name.text).isSome = true) :
    ∃ visible, b.afterVars vars env = .ok { env with visible := visible } := by
  induction vars generalizing env with
  | nil => exact ⟨env.visible, rfl⟩
  | cons v rest ih =>
    obtain ⟨id, hid⟩ := Option.isSome_iff_exists.mp (h v List.mem_cons_self)
    unfold afterVars afterVar
    rw [hid, Env.declare_eq hid]
    exact ih { env with visible := id :: env.visible }
      (fun w hw => h w (List.mem_cons_of_mem v hw))

/-! ## Whole bodies -/

/-- **A walk through a list of statements that arrives**, from one environment
to another, with the scopes it enters. `D` is what is known of each variable
that is declared on the way. -/
inductive Follows (b : Body) (D : ScopeId → Ident → Declarator → Prop) :
    List Stmt → Env → Env → List BlockScope → Prop where
  | nil {env : Env} : Follows b D [] env env []
  | declare {type : Ident} {vars : List Declarator} {span : Span} {rest : List Stmt}
      {env env' : Env} {visible : List VarId} {opened : List BlockScope}
      (held : ∀ v ∈ vars, D env.scope type v)
      (vars_ok : b.afterVars vars env = .ok { env with visible := visible })
      (tail : Follows b D rest { env with visible := visible } env' opened) :
      Follows b D (.declare type vars span :: rest) env env' opened
  | ifThen {cond : Expr} {body : List Stmt} {bodySpan span : Span} {rest : List Stmt}
      {env e env' : Env} {block : ScopeId} {blocks : List ScopeId}
      {inner opened : List BlockScope} (next : env.ahead b.table = block :: blocks)
      (inside : Follows b D body (env.inside block) e inner)
      (tail : Follows b D rest (env.behind e.visible) env' opened) :
      Follows b D (.ifThen cond body bodySpan span :: rest) env env'
        ((body, block) :: inner ++ opened)
  | ifElse {cond : Expr} {body other : List Stmt} {bodySpan otherSpan span : Span}
      {rest : List Stmt} {env e e' env' : Env} {block block' : ScopeId} {blocks : List ScopeId}
      {inner inner' opened : List BlockScope}
      (next : env.ahead b.table = block :: block' :: blocks)
      (inside : Follows b D body (env.inside block) e inner)
      (inside' : Follows b D other ((env.behind e.visible).inside block') e' inner')
      (tail : Follows b D rest ((env.behind e.visible).behind e'.visible) env' opened) :
      Follows b D (.ifElse cond body bodySpan other otherSpan span :: rest) env env'
        (((body, block) :: inner ++ (other, block') :: inner') ++ opened)
  | loop {cond : Expr} {body : List Stmt} {bodySpan span : Span} {rest : List Stmt}
      {env e env' : Env} {block : ScopeId} {blocks : List ScopeId}
      {inner opened : List BlockScope} (next : env.ahead b.table = block :: blocks)
      (inside : Follows b D body (env.inside block) e inner)
      (tail : Follows b D rest (env.behind e.visible) env' opened) :
      Follows b D (.loop cond body bodySpan span :: rest) env env'
        ((body, block) :: inner ++ opened)
  | ret {value : Option Expr} {span : Span} {rest : List Stmt} {env env' : Env}
      {opened : List BlockScope} (tail : Follows b D rest env env' opened) :
      Follows b D (.ret value span :: rest) env env' opened
  | assign {target : Ident} {value : Expr} {span : Span} {rest : List Stmt} {env env' : Env}
      {opened : List BlockScope} (tail : Follows b D rest env env' opened) :
      Follows b D (.assign target value span :: rest) env env' opened
  | eval {expr : Expr} {span : Span} {rest : List Stmt} {env env' : Env}
      {opened : List BlockScope} (tail : Follows b D rest env env' opened) :
      Follows b D (.eval expr span :: rest) env env' opened

variable {body : List Stmt} {env env' : Env} {opened : List BlockScope}
  {D : ScopeId → Ident → Declarator → Prop}

/-- **A body that its scopes mirror is followed to its end**, and the scope
entered for each of its blocks is the one that was opened for it. -/
theorem follows_of_mirrors
    (held : ∀ s type v, D s type v → (b.table.lookupIn s v.name.text).isSome = true)
    {s : ScopeId} {blocks : List ScopeId} (h : Mirrors b.table D s body blocks opened)
    (hs : env.scope = s) (hahead : env.ahead b.table = blocks) :
    ∃ env', Follows b D body env env' opened := by
  induction h generalizing env with
  | nil => exact ⟨env, .nil⟩
  | @declare s type vars _ _ _ _ hvars _ ih =>
    obtain ⟨visible, hafter⟩ := afterVars_ok (b := b) vars env
      (fun v hv => hs ▸ held s type v (hvars v hv))
    obtain ⟨env', tail⟩ := @ih { env with visible := visible } hs hahead
    exact ⟨env', .declare (fun v hv => hs ▸ hvars v hv) hafter tail⟩
  | @ifThen _ block _ _ _ _ _ _ _ _ _ _ ihIn ih =>
    obtain ⟨e, inside⟩ := @ihIn (env.inside block) rfl rfl
    obtain ⟨env', tail⟩ := @ih (env.behind e.visible) hs (Env.ahead_behind hahead _)
    exact ⟨env', .ifThen hahead inside tail⟩
  | @ifElse _ block block' _ _ _ _ _ _ _ _ _ _ _ _ _ _ ihIn ihIn' ih =>
    obtain ⟨e, inside⟩ := @ihIn (env.inside block) rfl rfl
    obtain ⟨e', inside'⟩ := @ihIn' ((env.behind e.visible).inside block') rfl rfl
    obtain ⟨env', tail⟩ := @ih ((env.behind e.visible).behind e'.visible) hs
      (Env.ahead_behind (Env.ahead_behind hahead _) _)
    exact ⟨env', .ifElse hahead inside inside' tail⟩
  | @loop _ block _ _ _ _ _ _ _ _ _ _ ihIn ih =>
    obtain ⟨e, inside⟩ := @ihIn (env.inside block) rfl rfl
    obtain ⟨env', tail⟩ := @ih (env.behind e.visible) hs (Env.ahead_behind hahead _)
    exact ⟨env', .loop hahead inside tail⟩
  | ret _ ih =>
    obtain ⟨env', tail⟩ := ih hs hahead
    exact ⟨env', .ret tail⟩
  | assign _ ih =>
    obtain ⟨env', tail⟩ := ih hs hahead
    exact ⟨env', .assign tail⟩
  | eval _ ih =>
    obtain ⟨env', tail⟩ := ih hs hahead
    exact ⟨env', .eval tail⟩

/-- A walk ends in the scope it began in. -/
theorem Follows.outer_eq (h : Follows b D body env env' opened) : env'.outer = env.outer := by
  induction h with
  | nil => rfl
  | declare _ _ _ ih => exact ih
  | ifThen _ _ _ _ ih => exact ih
  | ifElse _ _ _ _ _ _ ih => exact ih
  | loop _ _ _ _ ih => exact ih
  | ret _ ih => exact ih
  | assign _ ih => exact ih
  | eval _ ih => exact ih

/-- **What a walk says is where the body is followed to.** -/
theorem Follows.afterAll_eq (h : Follows b D body env env' opened) :
    b.afterAll body env = .ok env' := by
  induction h with
  | nil => rfl
  | declare _ hvars _ ih => rw [afterAll_cons (s := .declare _ _ _) hvars, ih]
  | ifThen next inside _ ihIn ih =>
    rw [afterAll_cons ((after_ifThen ..).trans (afterBlock_eq next ihIn inside.outer_eq _)), ih]
  | ifElse next inside inside' _ ihIn ihIn' ih =>
    rw [afterAll_cons (after_ifElse_ok (afterBlock_eq next ihIn inside.outer_eq _)
      (afterBlock_eq (Env.ahead_behind next _) ihIn' inside'.outer_eq _)), ih]
  | loop next inside _ ihIn ih =>
    rw [afterAll_cons ((after_loop ..).trans (afterBlock_eq next ihIn inside.outer_eq _)), ih]
  | ret _ ih => exact ih
  | assign _ ih => exact ih
  | eval _ ih => exact ih

/-- The environment behind the block of a walk. -/
theorem Follows.afterBlock {block : ScopeId} {blocks : List ScopeId} {e : Env}
    (h : Follows b D body (env.inside block) e opened) (next : env.ahead b.table = block :: blocks)
    (span : Span) : b.afterBlock body span env = .ok (env.behind e.visible) :=
  afterBlock_eq next h.afterAll_eq h.outer_eq span

section Blocks

variable {other : List Stmt} {e e' : Env} {block block' : ScopeId} {blocks : List ScopeId}
  {inner inner' : List BlockScope}

/-- The environment behind a statement of a walk is the one behind its last
block. -/
theorem Follows.after_ifThen_eq (inside : Follows b D body (env.inside block) e inner)
    (next : env.ahead b.table = block :: blocks) (cond : Expr) (bodySpan span : Span) :
    b.after (.ifThen cond body bodySpan span) env = .ok (env.behind e.visible) :=
  (after_ifThen ..).trans (inside.afterBlock next _)

theorem Follows.after_loop_eq (inside : Follows b D body (env.inside block) e inner)
    (next : env.ahead b.table = block :: blocks) (cond : Expr) (bodySpan span : Span) :
    b.after (.loop cond body bodySpan span) env = .ok (env.behind e.visible) :=
  (after_loop ..).trans (inside.afterBlock next _)

theorem Follows.after_ifElse_eq (inside : Follows b D body (env.inside block) e inner)
    (inside' : Follows b D other ((env.behind e.visible).inside block') e' inner')
    (next : env.ahead b.table = block :: block' :: blocks) (cond : Expr)
    (bodySpan otherSpan span : Span) :
    b.after (.ifElse cond body bodySpan other otherSpan span) env
      = .ok ((env.behind e.visible).behind e'.visible) :=
  after_ifElse_ok (inside.afterBlock next _) (inside'.afterBlock (Env.ahead_behind next _) _)

end Blocks

/-- **The scopes that are entered are those of the walk.** -/
theorem Follows.enteredAll_eq (h : Follows b D body env env' opened) :
    b.enteredAll body env = opened := by
  induction h with
  | nil => rfl
  | declare _ hvars _ ih =>
    rw [enteredAll_cons (s := .declare _ _ _) hvars, ih]
    rfl
  | ifThen next inside _ ihIn ih =>
    rw [enteredAll_cons (inside.after_ifThen_eq next ..), ih]
    unfold enteredStmt
    rw [Env.enter_eq next]
    show (_, _) :: b.enteredAll _ _ ++ _ = _
    rw [ihIn]
    rfl
  | ifElse next inside inside' _ ihIn ihIn' ih =>
    rw [enteredAll_cons (inside.after_ifElse_eq inside' next ..), ih]
    unfold enteredStmt
    rw [Env.enter_eq next, inside.afterBlock next]
    dsimp only
    rw [Env.enter_eq (Env.ahead_behind next _)]
    show ((_, _) :: b.enteredAll _ _ ++ (_, _) :: b.enteredAll _ _) ++ _ = _
    rw [ihIn, ihIn']
    rfl
  | loop next inside _ ihIn ih =>
    rw [enteredAll_cons (inside.after_loop_eq next ..), ih]
    unfold enteredStmt
    rw [Env.enter_eq next]
    show (_, _) :: b.enteredAll _ _ ++ _ = _
    rw [ihIn]
    rfl
  | ret _ ih => exact ih
  | assign _ ih => exact ih
  | eval _ ih => exact ih

/-- A body that is followed to its end does not stop before it. -/
theorem Follows.stopIssues_eq (h : Follows b D body b.start env' opened) :
    b.stopIssues body = [] := by
  unfold stopIssues
  rw [h.afterAll_eq]

end Body

end Heritage
