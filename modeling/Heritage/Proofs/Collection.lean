import Heritage.Proofs.Formed
import Heritage.Symbols.Collect

/-!
# Collecting symbols is growth

Each part of the walk that collects the symbols of a program takes a table to
one that grew from it, and attaches what it adds to the scope it works in: the
statements of a block to the scope of the block, the members of a class to that
of the class, the classes to that of the program.
-/

namespace Heritage

open SymbolTable

/-! ## Going through a list -/

namespace Collected

@[simp] theorem andThen_table (c : Collected) (f : SymbolTable → Collected) :
    (c.andThen f).table = (f c.table).table := rfl

@[simp] theorem andThen_issues (c : Collected) (f : SymbolTable → Collected) :
    (c.andThen f).issues = c.issues ++ (f c.table).issues := rfl

/-- What every element does, the whole list does. -/
theorem each_grows {α : Type} {f : α → SymbolTable → Collected} {A : ScopeId → Prop}
    {I : SymbolTable → Prop} (stable : ∀ t t', I t → Grows A t t' → I t') {xs : List α}
    (one : ∀ a ∈ xs, ∀ t, I t → Grows A t (f a t).table) {t : SymbolTable} (h : I t) :
    Grows A t (each f xs t).table := by
  induction xs generalizing t with
  | nil => exact Grows.refl A t
  | cons a rest ih =>
    have first := one a List.mem_cons_self t h
    exact first.trans
      (ih (fun b hb => one b (List.mem_cons_of_mem a hb)) (stable t _ h first))
      (fun _ => Or.inl)

end Collected

namespace SymbolTable

variable {t : SymbolTable}

/-! ## Declaring -/

theorem memberSpan?_eq_none_iff {c : ClassId} {name : String} :
    t.memberSpan? c name = none
      ↔ t.declaredField c name = none ∧ t.declaredMethod c name = none := by
  unfold memberSpan?
  cases t.declaredField c name with
  | none => simp
  | some v => simp

/-- A field as it is added to the scope of its class. -/
def fieldSymbol (s : ScopeId) (name : String) (type : Ident) (span : Span) : VarSymbol where
  name := name
  typeName := some type
  type := none
  scope := s
  kind := .field
  span := span

/-- A receiver as it is added to the scope of its method. -/
def receiverSymbol (s : ScopeId) (name : String) (owner : ClassId) (span : Span) :
    VarSymbol where
  name := name
  typeName := none
  type := some (.cls owner)
  scope := s
  kind := .receiver
  span := span

/-- An explicit parameter as it is added to the scope of its method. -/
def paramSymbol (s : ScopeId) (name : String) (type : Ident) (span : Span) : VarSymbol :=
  { fieldSymbol s name type span with kind := .parameter }

/-- A local as it is added to the scope it stands in. -/
def localSymbol (s : ScopeId) (name : String) (type : Ident) (span : Span) : VarSymbol :=
  { fieldSymbol s name type span with kind := .localVar }

/-- A variable that is declared where it fits is added to its scope or refused. -/
theorem declareVar_grows (v : VarSymbol) (inside : v.scope < t.scopes.length) (fits : t.Fits v)
    (typed : ∀ c, v.type = some (.cls c) → c < t.classes.length) :
    Grows (· = v.scope) t (Collected.ofDeclare t (t.declareVar v)).table := by
  unfold declareVar
  cases hfree : t.lookupIn v.scope v.name with
  | none => exact Grows.step (.var v inside fits hfree rfl typed)
  | some w => exact Grows.refl _ t

theorem Formed.methodAt_scope_lt (h : Formed t) {m : MethodId} (hm : m < t.methods.length) :
    (t.methodAt m).scope < t.scopes.length :=
  (List.getElem?_eq_some_iff.mp (h.methodAt_scope hm)).1

theorem Formed.methodAt_owner_lt (h : Formed t) {m : MethodId} (hm : m < t.methods.length) :
    (t.methodAt m).owner < t.classes.length :=
  h.method_owner _ (List.mem_of_getElem? (getElem?_eq_getD hm default))

theorem Formed.classAt_scope_lt (h : Formed t) {c : ClassId} (hc : c < t.classes.length) :
    (t.classAt c).scope < t.scopes.length :=
  (List.getElem?_eq_some_iff.mp (h.classAt_scope hc)).1

/-- A field is added to the scope of its class, or nothing is. -/
theorem declareField_grows (h : Formed t) {c : ClassId} (hc : c < t.classes.length)
    (name : String) (type : Ident) (span : Span) :
    Grows (· = (t.classAt c).scope) t
      (Collected.ofDeclare t (t.declareField c name type span)).table := by
  unfold declareField
  cases hfree : t.memberSpan? c name with
  | none =>
    exact declareVar_grows (fieldSymbol (t.classAt c).scope name type span)
      (h.classAt_scope_lt hc) ⟨c, hc, rfl, (memberSpan?_eq_none_iff.mp hfree).2⟩
      fun _ htype => nomatch htype
  | some first => exact Grows.refl _ t

/-! ## Bodies -/

/-- A scope that statements can stand in: that of a method, or a block. -/
def BodyScope (t : SymbolTable) (s : ScopeId) : Prop :=
  s < t.scopes.length ∧ ((t.scopeAt s).kind = .method ∨ (t.scopeAt s).kind = .block)

theorem BodyScope.grows {A : ScopeId → Prop} {t' : SymbolTable} {s : ScopeId}
    (h : BodyScope t s) (hg : Grows A t t') : BodyScope t' s :=
  ⟨Nat.lt_of_lt_of_le h.1 hg.scopes_isPrefix.length_le, by rw [hg.scopeAt_eq h.1]; exact h.2⟩

/-- A block is added to the scope around it. -/
theorem openBlock_grows {s : ScopeId} (h : BodyScope t s) :
    Grows (· = s) t (t.openBlock s).2 :=
  Grows.step (.block s h.1 h.2 rfl)

theorem openBlock_scopes (t : SymbolTable) (s : ScopeId) :
    (t.openBlock s).2.scopes
      = t.scopes ++ [{ kind := .block, parent := some s, cls := (t.scopeAt s).cls }] := rfl

theorem openBlock_scopes_length (t : SymbolTable) (s : ScopeId) :
    (t.openBlock s).2.scopes.length = t.scopes.length + 1 := by
  rw [openBlock_scopes, List.length_append]
  rfl

theorem bodyScope_openBlock (t : SymbolTable) (s : ScopeId) :
    BodyScope (t.openBlock s).2 t.scopes.length := by
  refine ⟨by rw [openBlock_scopes_length]; exact Nat.lt_succ_self _, Or.inr ?_⟩
  rw [scopeAt, openBlock_scopes, getD_of_eq_some List.getElem?_concat_length]

/-- The statements of a block that is opened in a scope are attached to new
scopes only, and the block itself to the scope. -/
theorem openBlock_trans {s : ScopeId} (h : BodyScope t s) {t' : SymbolTable}
    (hg : Grows (· = t.scopes.length) (t.openBlock s).2 t') : Grows (· = s) t t' :=
  (openBlock_grows h).trans hg (fun _ hb => Or.inr (Nat.le_of_eq hb.symm))

mutual
/-- **A statement adds to its own scope** and to the blocks that it opens. -/
theorem collectStmt_grows (s : ScopeId) : (stmt : Stmt) → (t : SymbolTable) → BodyScope t s →
    Grows (· = s) t (collectStmt s stmt t).table
  | .declare type vars _, t, h => by
    unfold collectStmt
    refine Collected.each_grows (fun _ _ => BodyScope.grows) (fun v _ u hu => ?_) h
    exact declareVar_grows (localSymbol s v.name.text type v.name.span) hu.1 hu.2
      fun _ htype => nomatch htype
  | .ifThen _ body _ _, t, h => by
    unfold collectStmt
    exact openBlock_trans h (collectStmts_grows _ body _ (bodyScope_openBlock t s))
  | .ifElse _ body _ other _ _, t, h => by
    unfold collectStmt
    have first := openBlock_trans h (collectStmts_grows _ body _ (bodyScope_openBlock t s))
    have second := openBlock_trans (h.grows first)
      (collectStmts_grows _ other _ (bodyScope_openBlock _ s))
    exact first.trans second (fun _ => Or.inl)
  | .loop _ body _ _, t, h => by
    unfold collectStmt
    exact openBlock_trans h (collectStmts_grows _ body _ (bodyScope_openBlock t s))
  | .ret _ _, t, _ => Grows.refl _ t
  | .assign _ _ _, t, _ => Grows.refl _ t
  | .eval _ _, t, _ => Grows.refl _ t
/-- **Statements are attached to the scope they stand in.** -/
theorem collectStmts_grows (s : ScopeId) : (body : List Stmt) → (t : SymbolTable) →
    BodyScope t s → Grows (· = s) t (collectStmts s body t).table
  | [], t, _ => Grows.refl _ t
  | stmt :: rest, t, h => by
    have first := collectStmt_grows s stmt t h
    exact first.trans (collectStmts_grows s rest _ (h.grows first)) (fun _ => Or.inl)
end

/-! ## Members -/

/-- A method of a well-formed table, which stays one while the table grows. -/
def HasMethod (t : SymbolTable) (m : MethodId) : Prop :=
  Formed t ∧ m < t.methods.length

theorem HasMethod.grows {A : ScopeId → Prop} {t' : SymbolTable} {m : MethodId}
    (h : HasMethod t m) (hg : Grows A t t') : HasMethod t' m :=
  ⟨h.1.grows hg, Nat.lt_of_lt_of_le h.2 hg.methods_isPrefix.length_le⟩

/-- The scope of a method holds a body. -/
theorem HasMethod.bodyScope {m : MethodId} (h : HasMethod t m) :
    BodyScope t (t.methodAt m).scope := by
  refine ⟨h.1.methodAt_scope_lt h.2, Or.inl ?_⟩
  rw [scopeAt, getD_of_eq_some (h.1.methodAt_scope h.2)]
  rfl

theorem declareReceiver_grows {m : MethodId} (h : HasMethod t m) (name : String) (span : Span) :
    Grows (· = (t.methodAt m).scope) t
      (Collected.ofDeclare t (t.declareReceiver m name span)).table :=
  declareVar_grows (receiverSymbol (t.methodAt m).scope name (t.methodAt m).owner span)
    (h.1.methodAt_scope_lt h.2) ⟨m, h.2, rfl⟩ fun _ htype =>
      Ty.cls.inj (Option.some.inj htype) ▸ h.1.methodAt_owner_lt h.2

theorem collectParam_grows {m : MethodId} (h : HasMethod t m) (methodName : String)
    (p : Param) : Grows (· = (t.methodAt m).scope) t (collectParam m methodName p t).table := by
  unfold collectParam
  split
  · exact Grows.refl _ t
  · rename_i type _
    exact declareVar_grows (paramSymbol (t.methodAt m).scope p.name.text type p.span)
      (h.1.methodAt_scope_lt h.2) ⟨m, h.2, rfl⟩ fun _ htype => nomatch htype

/-- The table in which the body of a method is collected: that with its
parameters. -/
def withParams (method : MethodId) (receiver : Param) (params : List Param)
    (decl : MethodDecl) (t : SymbolTable) : SymbolTable :=
  (Collected.each (collectParam method decl.name.text) params
    (Collected.ofDeclare t
      (t.declareReceiver method receiver.name.text receiver.span)).table).table

theorem withParams_grows {m : MethodId} (h : HasMethod t m) (receiver : Param)
    (params : List Param) (decl : MethodDecl) :
    Grows (· = (t.methodAt m).scope) t (withParams m receiver params decl t) := by
  have first := declareReceiver_grows h receiver.name.text receiver.span
  have second : Grows (· = (t.methodAt m).scope) _ (withParams m receiver params decl t) :=
    Collected.each_grows (I := fun u => HasMethod u m ∧ u.methodAt m = t.methodAt m)
      (fun _ _ hu hg => ⟨hu.1.grows hg, (hg.methodAt_eq hu.1.2).trans hu.2⟩)
      (fun p _ _ hu => hu.2 ▸ collectParam_grows hu.1 decl.name.text p)
      ⟨h.grows first, first.methodAt_eq h.2⟩
  exact first.trans second (fun _ => Or.inl)

/-- The body of a method is collected after its parameters, in its scope. -/
theorem collectMethodBody_table {m : MethodId} (h : HasMethod t m) (receiver : Param)
    (params : List Param) (decl : MethodDecl) :
    (collectMethodBody m receiver params decl t).table
      = (collectStmts (t.methodAt m).scope decl.body
          (withParams m receiver params decl t)).table := by
  rw [← (withParams_grows h receiver params decl).methodAt_eq h.2]
  rfl

/-- **The parameters and the body of a method are attached to its scope.** -/
theorem collectMethodBody_grows {m : MethodId} (h : HasMethod t m) (receiver : Param)
    (params : List Param) (decl : MethodDecl) :
    Grows (· = (t.methodAt m).scope) t (collectMethodBody m receiver params decl t).table := by
  have first := withParams_grows h receiver params decl
  have second := collectStmts_grows _ decl.body _ (h.grows first).bodyScope
  rw [first.methodAt_eq h.2] at second
  rw [collectMethodBody_table h]
  exact first.trans second (fun _ => Or.inl)

/-- A class of a well-formed table, which stays one while the table grows. -/
def HasClass (t : SymbolTable) (c : ClassId) : Prop :=
  Formed t ∧ c < t.classes.length

theorem HasClass.grows {A : ScopeId → Prop} {t' : SymbolTable} {c : ClassId}
    (h : HasClass t c) (hg : Grows A t t') : HasClass t' c :=
  ⟨h.1.grows hg, Nat.lt_of_lt_of_le h.2 hg.classes_isPrefix.length_le⟩

/-- A method that is declared is the next one, and has a scope of its own. -/
theorem declareMethod_eq_ok {c : ClassId} {name : String} {returnType : Option Ident}
    {index : Nat} {span : Span} {m : MethodId} {t' : SymbolTable}
    (hok : t.declareMethod c name returnType index span = .ok (m, t')) :
    t.memberSpan? c name = none ∧ m = t.methods.length
      ∧ t' = t.addMethod c name returnType index span := by
  unfold declareMethod at hok
  split at hok
  · cases hok
  · rename_i hfree
    obtain ⟨rfl, rfl⟩ := Prod.mk.inj (Except.ok.inj hok)
    exact ⟨hfree, rfl, rfl⟩

theorem addMethod_grows {c : ClassId} (h : HasClass t c) {name : String}
    (returnType : Option Ident) (index : Nat) (span : Span)
    (hfree : t.memberSpan? c name = none) :
    Grows (· = (t.classAt c).scope) t (t.addMethod c name returnType index span) :=
  Grows.step (.method c name returnType index span h.2 (memberSpan?_eq_none_iff.mp hfree).1
    (memberSpan?_eq_none_iff.mp hfree).2 rfl)

theorem addMethod_methods_length (t : SymbolTable) (c : ClassId) (name : String)
    (returnType : Option Ident) (index : Nat) (span : Span) :
    (t.addMethod c name returnType index span).methods.length = t.methods.length + 1 :=
  List.length_append

theorem methodAt_addMethod (t : SymbolTable) (c : ClassId) (name : String)
    (returnType : Option Ident) (index : Nat) (span : Span) :
    (t.addMethod c name returnType index span).methodAt t.methods.length
      = { owner := c, name := name, returnTypeName := returnType,
          returnType := if returnType.isSome then none else some .void,
          scope := t.scopes.length, declIndex := index, span := span } :=
  getD_of_eq_some List.getElem?_concat_length _

theorem hasMethod_addMethod {c : ClassId} (h : HasClass t c) {name : String}
    (returnType : Option Ident) (index : Nat) (span : Span)
    (hfree : t.memberSpan? c name = none) :
    HasMethod (t.addMethod c name returnType index span) t.methods.length := by
  refine ⟨h.1.grows (addMethod_grows h returnType index span hfree), ?_⟩
  rw [addMethod_methods_length]
  exact Nat.lt_succ_self _

/-- A method adds to the scope of its class, and to its own. -/
theorem collectMethod_grows {c : ClassId} (h : HasClass t c) (index : Nat) (decl : MethodDecl) :
    Grows (· = (t.classAt c).scope) t (collectMethod c index decl t).table := by
  unfold collectMethod
  split
  · exact Grows.refl _ t
  · rename_i receiver params _
    split
    · exact Grows.refl _ t
    · split
      · rename_i m t' hok
        obtain ⟨hfree, rfl, rfl⟩ := declareMethod_eq_ok hok
        have first := addMethod_grows h decl.returnType index decl.name.span hfree
        have second := collectMethodBody_grows
          (hasMethod_addMethod h decl.returnType index decl.name.span hfree) receiver params decl
        rw [methodAt_addMethod] at second
        exact first.trans second (fun _ hs => Or.inr (Nat.le_of_eq hs.symm))
      · exact Grows.refl _ t

/-- While members are collected, the scope of their class does not change. -/
theorem each_member_grows {α : Type} {f : α → SymbolTable → Collected} {c : ClassId}
    {xs : List α}
    (one : ∀ a ∈ xs, ∀ u, HasClass u c → Grows (· = (u.classAt c).scope) u (f a u).table)
    (h : HasClass t c) : Grows (· = (t.classAt c).scope) t (Collected.each f xs t).table :=
  Collected.each_grows (I := fun u => HasClass u c ∧ u.classAt c = t.classAt c)
    (fun _ _ hu hg => ⟨hu.1.grows hg, (hg.classAt_eq hu.1.2).trans hu.2⟩)
    (fun a ha u hu => hu.2 ▸ one a ha u hu.1) ⟨h, rfl⟩

theorem collectMember_grows {c : ClassId} (h : HasClass t c) (m : Member × Nat) :
    Grows (· = (t.classAt c).scope) t (collectMember c m t).table := by
  unfold collectMember
  split
  · rename_i decl _
    exact each_member_grows
      (fun name _ u hu => declareField_grows hu.1 hu.2 name.text decl.type name.span) h
  · exact collectMethod_grows h _ _

/-- **The members of a class are attached to its scope.** -/
theorem collectMembers_grows {c : ClassId} (h : HasClass t c) (decl : ClassDecl) :
    Grows (· = (t.classAt c).scope) t (collectMembers c decl t).table :=
  each_member_grows (fun m _ _ hu => collectMember_grows hu m) h

/-! ## Classes -/

/-- A class that is declared is the next one. -/
theorem declareClass_eq_ok {name : String} {parents : List Ident} {index : Nat} {span : Span}
    {c : ClassId} {t' : SymbolTable}
    (hok : t.declareClass name parents index span = .ok (c, t')) :
    t.lookupClass name = none ∧ c = t.classes.length
      ∧ t' = t.addClass name parents index span := by
  unfold declareClass at hok
  split at hok
  · cases hok
  · rename_i hfree
    obtain ⟨rfl, rfl⟩ := Prod.mk.inj (Except.ok.inj hok)
    exact ⟨hfree, rfl, rfl⟩

theorem addClass_grows {name : String} (parents : List Ident) (index : Nat) (span : Span)
    (hfree : t.lookupClass name = none) :
    Grows (· = rootScope) t (t.addClass name parents index span) :=
  Grows.step (.cls name parents index span hfree rfl)

theorem classAt_addClass (t : SymbolTable) (name : String) (parents : List Ident) (index : Nat)
    (span : Span) : (t.addClass name parents index span).classAt t.classes.length
      = { name := name, parents := parents, scope := t.scopes.length, declIndex := index,
          span := span } :=
  getD_of_eq_some List.getElem?_concat_length _

theorem hasClass_addClass (h : Formed t) {name : String} (parents : List Ident) (index : Nat)
    (span : Span) (hfree : t.lookupClass name = none) :
    HasClass (t.addClass name parents index span) t.classes.length := by
  refine ⟨h.addClass parents index span hfree, ?_⟩
  show t.classes.length < (t.classes ++ [_]).length
  rw [List.length_append]
  exact Nat.lt_succ_self _

/-- **A class is attached to the scope of the program.** -/
theorem collectClass_grows (h : Formed t) (d : ClassDecl × Nat) :
    Grows (· = rootScope) t (collectClass d t).table := by
  unfold collectClass
  split
  · rename_i c t' hok
    obtain ⟨hfree, rfl, rfl⟩ := declareClass_eq_ok hok
    have first := addClass_grows d.1.parents d.2 d.1.name.span hfree
    have second := collectMembers_grows
      (hasClass_addClass h d.1.parents d.2 d.1.name.span hfree) d.1
    rw [classAt_addClass] at second
    exact first.trans second (fun _ hs => Or.inr (Nat.le_of_eq hs.symm))
  · exact Grows.refl _ t

theorem each_class_grows (ds : List (ClassDecl × Nat)) (h : Formed t) :
    Grows (· = rootScope) t (Collected.each collectClass ds t).table :=
  Collected.each_grows (fun _ _ hu hg => Formed.grows hu hg)
    (fun d _ _ hu => collectClass_grows hu d) h

/-- **The symbols of a program are a table that grew from the empty one.** -/
theorem collect_grows (p : Program) : Grows (· = rootScope) empty (collect p).table :=
  each_class_grows p.classes.zipIdx formed_empty

/-- **The table of a program is well formed**, whatever was refused. -/
theorem collect_formed (p : Program) : Formed (collect p).table :=
  formed_empty.grows (collect_grows p)

end SymbolTable

end Heritage
