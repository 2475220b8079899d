import Heritage.C.Stmt

/-!
# The kinds of issues that a body can have

What is found wrong while a body is checked is a name that denotes nothing, a
type or a number of arguments that does not fit, or a class that is broken; the
last only in a table that has one. Nothing else is ever found, whatever the
table and the body are.
-/

namespace Heritage

open SymbolTable

/-- Some class of a table is broken. -/
def SymbolTable.HasBroken (t : SymbolTable) : Prop :=
  ∃ k ∈ t.classes, k.state.isBroken = true

/-- **The kinds of issues that a body can have**: a name, a type, a number of
arguments, or a class that is broken. -/
inductive BodyKind (t : SymbolTable) : Kind → Prop where
  | undeclared : BodyKind t .undeclaredIdentifier
  | mismatch : BodyKind t .typeMismatch
  | arity : BodyKind t .arityMismatch
  | unresolved (broken : t.HasBroken) : BodyKind t .unresolvedClass

/-- A body is never to blame for a malformed tree. -/
theorem BodyKind.ne_malformed {t : SymbolTable} {k : Kind} (h : BodyKind t k) :
    k ≠ .malformedTree := by
  rintro rfl
  cases h

/-- Issues that a body can have. -/
def BodyIssues (t : SymbolTable) (is : List Issue) : Prop :=
  ∀ i ∈ is, BodyKind t i.kind

section Lists

variable {t : SymbolTable} {is js : List Issue}

theorem bodyIssues_nil : BodyIssues t [] :=
  fun _ hi => (List.not_mem_nil hi).elim

theorem bodyIssues_singleton {i : Issue} (h : BodyKind t i.kind) : BodyIssues t [i] := by
  intro j hj
  rwa [List.mem_singleton.mp hj]

theorem BodyIssues.append (h : BodyIssues t is) (h' : BodyIssues t js) :
    BodyIssues t (is ++ js) :=
  fun i hi => (List.mem_append.mp hi).elim (h i) (h' i)

theorem bodyIssues_toList {o : Option Issue} (h : ∀ i, o = some i → BodyKind t i.kind) :
    BodyIssues t o.toList := by
  cases o with
  | none => exact bodyIssues_nil
  | some i => exact bodyIssues_singleton (h i rfl)

/-- A rule that finds an issue unless something holds. -/
theorem bodyIssues_unless (c : Prop) [Decidable c] {i : Issue} (h : BodyKind t i.kind) :
    BodyIssues t (if c then none else some i).toList := by
  split
  · exact bodyIssues_nil
  · exact bodyIssues_singleton h

end Lists

/-! ## Rules -/

namespace SymbolTable

variable {t : SymbolTable}

/-- A position whose class reads as broken is the position of a broken class. -/
theorem hasBroken_of_classAt {c : ClassId} (h : (t.classAt c).state.isBroken = true) :
    t.HasBroken := by
  cases hc : t.classes[c]? with
  | none =>
    rw [classAt, List.getD_eq_getElem?_getD, hc] at h
    cases h
  | some k =>
    rw [classAt, List.getD_eq_getElem?_getD, hc] at h
    exact ⟨k, List.mem_of_getElem? hc, h⟩

/-- A name that denotes no variable is undeclared, or the class that may have it is broken. -/
theorem variableNamed_kind {env : Env} {cls : ClassId} {name : String} {span : Span} {i : Issue}
    (h : t.variableNamed env cls name span = .error i) : BodyKind t i.kind := by
  unfold variableNamed at h
  split at h
  · cases h
  · split at h
    · rename_i hb
      obtain rfl := Except.error.inj h
      exact .unresolved (hasBroken_of_classAt hb)
    · obtain rfl := Except.error.inj h
      exact .undeclared

/-- A name that denotes no method is undeclared, or the class that may have it is broken. -/
theorem methodNamed_kind {cls : ClassId} {name : String} {span : Span} {i : Issue}
    (h : t.methodNamed cls name span = .error i) : BodyKind t i.kind := by
  unfold methodNamed at h
  split at h
  · cases h
  · split at h
    · cases h
    · split at h
      · rename_i hb
        obtain rfl := Except.error.inj h
        exact .unresolved (hasBroken_of_classAt hb)
      · obtain rfl := Except.error.inj h
        exact .undeclared

theorem valueIssue?_kind {type : Ty} {span : Span} {i : Issue}
    (h : valueIssue? type span = some i) : BodyKind t i.kind := by
  unfold valueIssue? at h
  split at h
  · obtain rfl := Option.some.inj h
    exact .mismatch
  · cases h

theorem storeIssue?_kind {source target : Ty} {use : String} {span : Span} {i : Issue}
    (h : t.storeIssue? source target use span = some i) : BodyKind t i.kind := by
  unfold storeIssue? at h
  split at h
  · cases h
  · obtain rfl := Option.some.inj h
    exact .mismatch

theorem bareReturnIssue?_kind {m : MethodId} {span : Span} {i : Issue}
    (h : t.bareReturnIssue? m span = some i) : BodyKind t i.kind := by
  unfold bareReturnIssue? at h
  split at h
  · cases h
  · cases h
  · obtain rfl := Option.some.inj h
    exact .mismatch

theorem returnIssue?_kind {m : MethodId} {type : Ty} {span : Span} {i : Issue}
    (h : t.returnIssue? m type span = some i) : BodyKind t i.kind := by
  unfold returnIssue? at h
  split at h
  · cases h
  · obtain rfl := Option.some.inj h
    exact .mismatch
  · rcases Option.or_eq_some_iff.mp h with h | ⟨-, h⟩
    · exact valueIssue?_kind h
    · exact storeIssue?_kind h

end SymbolTable

/-! ## Expressions -/

namespace Site

theorem useIssues_kinds (s : Site) (e : Expr) : BodyIssues s.table (s.useIssues e) := by
  unfold useIssues
  split
  · exact bodyIssues_nil
  · exact bodyIssues_toList (fun _ => valueIssue?_kind)

theorem storeIssues_kinds (s : Site) (e : Expr) (target : Option Ty) (use : String) :
    BodyIssues s.table (s.storeIssues e target use) := by
  unfold storeIssues
  split
  · exact bodyIssues_toList (fun _ => storeIssue?_kind)
  · exact bodyIssues_nil

theorem operandIssues_kinds (s : Site) (op : BinOp) (e : Expr) :
    BodyIssues s.table (s.operandIssues op e) := by
  unfold operandIssues
  split
  · exact bodyIssues_nil
  · exact bodyIssues_unless _ .mismatch

/-- A call that reaches nothing says why with an issue that a body can have. -/
theorem methodTarget_kind {s : Site} {cls : ClassId} {callee : Ident} {i : Issue}
    (h : s.methodTarget cls callee = .nothing (some i)) : BodyKind s.table i.kind := by
  unfold methodTarget at h
  split at h
  · cases h
  · cases h
  · rename_i hm
    obtain rfl := Option.some.inj (Target.nothing.inj h)
    exact methodNamed_kind hm

theorem callTarget_kind {s : Site} {callee : Ident} {i : Issue}
    (h : s.callTarget callee = .nothing (some i)) : BodyKind s.table i.kind := by
  unfold callTarget at h
  split at h
  · cases h
  · exact methodTarget_kind h

theorem sendTarget_kind {s : Site} {receiver : Option Ty} {callee : Ident} {i : Issue}
    (h : s.sendTarget receiver callee = .nothing (some i)) : BodyKind s.table i.kind := by
  unfold sendTarget at h
  split at h
  · cases h
  · exact methodTarget_kind h
  · obtain rfl := Option.some.inj (Target.nothing.inj h)
    exact .mismatch

/-- What is wrong with a call is why it reaches nothing, or the number of its arguments. -/
theorem targetIssues_kinds {s : Site} {callee : Ident} {got : Nat} {span : Span}
    {target : Target} (h : ∀ i, target = .nothing (some i) → BodyKind s.table i.kind) :
    BodyIssues s.table (s.targetIssues callee got span target) := by
  unfold targetIssues
  split
  · split
    · exact bodyIssues_nil
    · exact bodyIssues_singleton .arity
  · exact bodyIssues_unless _ .arity
  · exact bodyIssues_toList (fun i hi => h i (by rw [hi]))

mutual
/-- **What is wrong with an expression is of a kind that a body can have.** -/
theorem issues_kinds (s : Site) : (e : Expr) → BodyIssues s.table (s.issues e)
  | .int _ _ => by
    unfold issues
    exact bodyIssues_unless _ .mismatch
  | .name _ => by
    unfold issues
    split
    · exact bodyIssues_nil
    · rename_i h
      exact bodyIssues_singleton (variableNamed_kind h)
  | .self _ => bodyIssues_nil
  | .binary op left right _ => by
    unfold issues
    exact (((issues_kinds s left).append (s.useIssues_kinds left)).append
      (s.operandIssues_kinds op left)).append
        (((issues_kinds s right).append (s.useIssues_kinds right)).append
          (s.operandIssues_kinds op right))
  | .call callee args _ => by
    unfold issues
    exact (targetIssues_kinds fun _ => callTarget_kind).append (argIssues_kinds s _ 0 args)
  | .send receiver callee args _ => by
    unfold issues
    exact ((issues_kinds s receiver).append (s.useIssues_kinds receiver)).append
      ((targetIssues_kinds fun _ => sendTarget_kind).append (argIssues_kinds s _ 0 args))
theorem argIssues_kinds (s : Site) (target : Target) : (i : Nat) → (args : List Expr) →
    BodyIssues s.table (s.argIssues target i args)
  | _, [] => bodyIssues_nil
  | i, e :: rest => by
    unfold argIssues
    exact (((issues_kinds s e).append (s.useIssues_kinds e)).append
      (s.storeIssues_kinds e _ _)).append (argIssues_kinds s target (i + 1) rest)
end

theorem valueIssues_kinds (s : Site) (e : Expr) : BodyIssues s.table (s.valueIssues e) :=
  (s.issues_kinds e).append (s.useIssues_kinds e)

theorem checkIssues_kinds (s : Site) (e : Expr) (target : Option Ty) (use : String) :
    BodyIssues s.table (s.checkIssues e target use) :=
  (s.valueIssues_kinds e).append (s.storeIssues_kinds e target use)

end Site

/-! ## Statements -/

namespace Body

theorem varIssues_kinds (b : Body) (vars : List Declarator) (env : Env) :
    BodyIssues b.table (b.varIssues vars env) := by
  induction vars generalizing env with
  | nil => exact bodyIssues_nil
  | cons v rest ih =>
    unfold varIssues
    split
    · exact bodyIssues_nil
    · refine BodyIssues.append ?_ (ih _)
      split
      · exact bodyIssues_nil
      · exact (b.site env).checkIssues_kinds _ _ _

theorem condIssues_kinds (b : Body) (env : Env) (cond : Expr) :
    BodyIssues b.table (b.condIssues env cond) := by
  unfold condIssues
  refine ((b.site env).valueIssues_kinds cond).append ?_
  split
  · exact bodyIssues_nil
  · exact bodyIssues_unless _ .mismatch

theorem returnIssues_kinds (b : Body) (env : Env) (value : Option Expr) (span : Span) :
    BodyIssues b.table (b.returnIssues env value span) := by
  unfold returnIssues
  split
  · exact bodyIssues_toList (fun _ => bareReturnIssue?_kind)
  · refine ((b.site env).issues_kinds _).append ?_
    split
    · exact bodyIssues_nil
    · exact bodyIssues_toList (fun _ => returnIssue?_kind)

theorem assignTargetIssues_kinds (b : Body) (env : Env) (target : Ident) :
    BodyIssues b.table (b.assignTargetIssues env target) := by
  unfold assignTargetIssues
  split
  · rename_i h
    exact bodyIssues_singleton (variableNamed_kind h)
  · split
    · exact bodyIssues_singleton .mismatch
    · exact bodyIssues_nil

/-- What is wrong inside a block, if it can be entered. -/
theorem insideIssues_kinds {b : Body} {body : List Stmt}
    (h : ∀ env, BodyIssues b.table (b.issuesAll body env)) (r : Except Issue Env) :
    BodyIssues b.table
      (match r with
        | .ok inside => b.issuesAll body inside
        | .error _ => []) := by
  split
  · exact h _
  · exact bodyIssues_nil

mutual
theorem issues_kinds (b : Body) : (s : Stmt) → (env : Env) → BodyIssues b.table (b.issues s env)
  | .declare _ vars _, env => by
    unfold issues
    exact b.varIssues_kinds vars env
  | .ifThen cond body _ _, env => by
    unfold issues
    exact (b.condIssues_kinds env cond).append (insideIssues_kinds (issuesAll_kinds b body) _)
  | .ifElse cond body _ other _ _, env => by
    unfold issues
    refine ((b.condIssues_kinds env cond).append
      (insideIssues_kinds (issuesAll_kinds b body) _)).append ?_
    split
    · exact bodyIssues_nil
    · exact insideIssues_kinds (issuesAll_kinds b other) _
  | .loop cond body _ _, env => by
    unfold issues
    exact (b.condIssues_kinds env cond).append (insideIssues_kinds (issuesAll_kinds b body) _)
  | .ret value span, env => by
    unfold issues
    exact b.returnIssues_kinds env value span
  | .assign target value _, env => by
    unfold issues
    exact (b.assignTargetIssues_kinds env target).append
      ((b.site env).checkIssues_kinds value _ _)
  | .eval expr _, env => by
    unfold issues
    exact (b.site env).issues_kinds expr
/-- **What is wrong with a body is of a kind that a body can have.** -/
theorem issuesAll_kinds (b : Body) : (body : List Stmt) → (env : Env) →
    BodyIssues b.table (b.issuesAll body env)
  | [], _ => bodyIssues_nil
  | s :: rest, env => by
    unfold issuesAll
    refine (issues_kinds b s env).append ?_
    split
    · exact issuesAll_kinds b rest _
    · exact bodyIssues_nil
end

end Body

end Heritage
