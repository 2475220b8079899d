import Heritage.Proofs.Names

/-!
# What a table holds if nothing was found

If collecting the symbols of a program finds nothing, all that the program
declares is in the table, in order: the classes as the classes, the fields of a
class in its scope, the parameters and locals of a method in its scope, and
every written type once for each variable it was written for.

A view of a table that each part of the walk extends is extended by the whole
walk, part by part (`each_adds`).
-/

namespace Heritage

open SymbolTable Collected

namespace Collected

/-- **What every part adds to a view of the table, the list adds**, if nothing
is found. -/
theorem each_adds {α β : Type} {f : α → SymbolTable → Collected} {I : SymbolTable → Prop}
    (view : SymbolTable → List β) (added : α → List β) {xs : List α}
    (stable : ∀ a ∈ xs, ∀ t, I t → I (f a t).table)
    (one : ∀ a ∈ xs, ∀ t, I t → (f a t).issues = [] → view (f a t).table = view t ++ added a)
    {t : SymbolTable} (h : I t) (clean : (each f xs t).issues = []) :
    view (each f xs t).table = view t ++ xs.flatMap added := by
  induction xs generalizing t with
  | nil => exact (List.append_nil _).symm
  | cons a rest ih =>
    obtain ⟨hone, hrest⟩ := List.append_eq_nil_iff.mp clean
    have more := ih (fun b hb => stable b (List.mem_cons_of_mem a hb))
      (fun b hb => one b (List.mem_cons_of_mem a hb)) (stable a List.mem_cons_self t h) hrest
    show view (each f rest (f a t).table).table = _
    rw [more, one a List.mem_cons_self t h hone, List.append_assoc]
    rfl

end Collected

namespace SymbolTable

variable {A : ScopeId → Prop} {t t' : SymbolTable}

/-! ## Classes -/

/-- A class without its scope. -/
def unplaced (k : ClassSymbol) : ClassSymbol :=
  { k with scope := rootScope }

theorem collectClass_adds (h : Formed t) (d : ClassDecl × Nat)
    (clean : (collectClass d t).issues = []) :
    (collectClass d t).table.classes.map unplaced
      = t.classes.map unplaced ++ [classSymbol d rootScope] := by
  rcases collectClass_cases d t with ⟨-, -, hne⟩ | ⟨hfree, -, -⟩
  · exact absurd clean hne
  · rw [collectClass_classes h d hfree, List.map_append]
    rfl

/-- **The classes of the table are the classes of the program**, in order. -/
theorem collect_classes {p : Program} (clean : (collect p).issues = []) :
    (collect p).table.classes.map unplaced = p.classes.zipIdx.map (classSymbol · rootScope) := by
  have hadds := each_adds (I := Formed) (fun t => t.classes.map unplaced)
    (fun d : ClassDecl × Nat => [classSymbol d rootScope])
    (fun d (_ : d ∈ p.classes.zipIdx) t h => h.grows (collectClass_grows h d))
    (fun d _ t h => collectClass_adds h d) formed_empty clean
  exact hadds.trans List.map_eq_flatMap.symm

theorem collect_classes_length {p : Program} (clean : (collect p).issues = []) :
    (collect p).table.classes.length = p.classes.length := by
  have hlen := congrArg List.length (collect_classes clean)
  simpa using hlen

/-- **A class of the program stands in the table at its position.** -/
theorem collect_classAt {p : Program} (clean : (collect p).issues = []) {c : ClassId}
    {d : ClassDecl} (hd : p.classes[c]? = some d) :
    c < (collect p).table.classes.length
      ∧ (collect p).table.classAt c
        = classSymbol (d, c) ((collect p).table.classAt c).scope := by
  have hc : c < (collect p).table.classes.length :=
    collect_classes_length clean ▸ (List.getElem?_eq_some_iff.mp hd).1
  have hget := congrArg (fun l => l[c]?) (collect_classes clean)
  simp only [List.getElem?_map, List.getElem?_zipIdx, hd, getElem?_eq_getD hc default,
    Option.map_some, Nat.zero_add, Option.some.injEq] at hget
  refine ⟨hc, ?_⟩
  show (collect p).table.classAt c = { classSymbol (d, c) rootScope with
    scope := ((collect p).table.classAt c).scope }
  rw [← hget]
  rfl

/-! ## Written types -/

/-- The written types that are still to be looked up. -/
def openWords (t : SymbolTable) : List Ident :=
  t.vars.filterMap fun v => if v.type.isNone then v.typeName else none

theorem openWords_ofDeclare {v : VarSymbol} (clean : (ofDeclare t (t.declareVar v)).issues = []) :
    (ofDeclare t (t.declareVar v)).table.openWords
      = t.openWords ++ (if v.type.isNone then v.typeName else none).toList := by
  unfold declareVar at *
  cases hfree : t.lookupIn v.scope v.name with
  | some w =>
    rw [hfree] at clean
    cases clean
  | none =>
    show (t.vars ++ [v]).filterMap _ = _
    rw [List.filterMap_append]
    refine congrArg (t.openWords ++ ·) ?_
    rw [List.filterMap_cons, List.filterMap_nil]
    cases (if v.type.isNone then v.typeName else none) with
    | none => rfl
    | some w => rfl

mutual
theorem collectStmt_openWords (s : ScopeId) : (stmt : Stmt) → (t : SymbolTable) →
    (collectStmt s stmt t).issues = [] →
    (collectStmt s stmt t).table.openWords = t.openWords ++ stmt.typeWords
  | .declare type vars _, t, clean => by
    unfold collectStmt at *
    unfold Stmt.typeWords
    rw [List.map_eq_flatMap]
    exact each_adds (I := fun _ => True) openWords (fun _ => [type])
      (fun _ _ _ _ => trivial)
      (fun v _ u _ hu => openWords_ofDeclare (v := localSymbol s v.name.text type v.name.span) hu)
      trivial clean
  | .ifThen _ body _ _, t, clean => by
    unfold collectStmt at *
    unfold Stmt.typeWords
    exact collectStmts_openWords _ body _ clean
  | .ifElse _ body _ other _ _, t, clean => by
    unfold collectStmt at *
    unfold Stmt.typeWords
    obtain ⟨hbody, hother⟩ := List.append_eq_nil_iff.mp clean
    have first := collectStmts_openWords _ body _ hbody
    have second := collectStmts_openWords _ other _ hother
    refine second.trans ?_
    rw [← List.append_assoc]
    exact congrArg (· ++ typeWordsOf other) first
  | .loop _ body _ _, t, clean => by
    unfold collectStmt at *
    unfold Stmt.typeWords
    exact collectStmts_openWords _ body _ clean
  | .ret _ _, t, _ => (List.append_nil _).symm
  | .assign _ _ _, t, _ => (List.append_nil _).symm
  | .eval _ _, t, _ => (List.append_nil _).symm
theorem collectStmts_openWords (s : ScopeId) : (body : List Stmt) → (t : SymbolTable) →
    (collectStmts s body t).issues = [] →
    (collectStmts s body t).table.openWords = t.openWords ++ typeWordsOf body
  | [], t, _ => (List.append_nil _).symm
  | stmt :: rest, t, clean => by
    obtain ⟨hstmt, hrest⟩ := List.append_eq_nil_iff.mp clean
    show (collectStmts s rest (collectStmt s stmt t).table).table.openWords = _
    rw [collectStmts_openWords s rest _ hrest, collectStmt_openWords s stmt t hstmt,
      List.append_assoc]
    rfl
end

theorem collectParam_openWords {m : MethodId} {methodName : String} {q : Param}
    (clean : (collectParam m methodName q t).issues = []) :
    (collectParam m methodName q t).table.openWords = t.openWords ++ q.type.toList := by
  unfold collectParam at *
  cases hq : q.type with
  | none =>
    rw [hq] at clean
    cases clean
  | some type =>
    rw [hq] at clean
    exact openWords_ofDeclare (v := paramSymbol (t.methodAt m).scope q.name.text type q.span) clean

theorem collectMethodBody_openWords {m : MethodId} {receiver : Param} {params : List Param}
    {decl : MethodDecl} (clean : (collectMethodBody m receiver params decl t).issues = []) :
    (collectMethodBody m receiver params decl t).table.openWords
      = t.openWords ++ (params.filterMap (·.type) ++ typeWordsOf decl.body) := by
  obtain ⟨hrecv, hrest⟩ := List.append_eq_nil_iff.mp clean
  obtain ⟨hparams, hbody⟩ := List.append_eq_nil_iff.mp hrest
  have first : (ofDeclare t (t.declareReceiver m receiver.name.text receiver.span)).table.openWords
      = t.openWords ++ [] :=
    openWords_ofDeclare (v := receiverSymbol (t.methodAt m).scope receiver.name.text
      (t.methodAt m).owner receiver.span) hrecv
  have more := each_adds (I := fun _ => True) openWords (fun q : Param => q.type.toList)
    (fun _ _ _ _ => trivial) (fun q _ u _ hu => collectParam_openWords hu) trivial hparams
  refine (collectStmts_openWords _ decl.body _ hbody).trans ?_
  rw [more, first, List.append_nil, List.append_assoc, List.filterMap_eq_flatMap_toList]

theorem declareField_cases (c : ClassId) (name : String) (type : Ident) (span : Span)
    (clean : (ofDeclare t (t.declareField c name type span)).issues = []) :
    t.declareField c name type span
      = t.declareVar (fieldSymbol (t.classAt c).scope name type span) := by
  unfold declareField at *
  cases hfree : t.memberSpan? c name with
  | some first =>
    rw [hfree] at clean
    cases clean
  | none => rfl

theorem collectMember_openWords {c : ClassId} {m : Member × Nat}
    (clean : (collectMember c m t).issues = []) :
    (collectMember c m t).table.openWords = t.openWords ++ m.1.typeWords := by
  obtain ⟨m, index⟩ := m
  cases m with
  | field decl =>
    show _ = t.openWords ++ decl.names.map _
    rw [List.map_eq_flatMap]
    refine each_adds (I := fun _ => True) openWords (fun _ => [decl.type])
      (fun _ _ _ _ => trivial) (fun name _ u _ hu => ?_) trivial clean
    have hvar := declareField_cases c name.text decl.type name.span hu
    rw [hvar] at hu ⊢
    exact openWords_ofDeclare hu
  | method decl =>
    rcases collectMethod_cases c index decl t with
      ⟨-, -, hne⟩ | ⟨receiver, params, hp, htype, -, hc, -⟩
    · exact absurd clean hne
    · have clean : (collectMethod c index decl t).issues = [] := clean
      show (collectMethod c index decl t).table.openWords = _
      rw [hc] at clean ⊢
      rw [collectMethodBody_openWords clean]
      dsimp only [Member.typeWords]
      rw [hp, List.filterMap_cons, htype]
      rfl

theorem collectClass_openWords {d : ClassDecl × Nat} (clean : (collectClass d t).issues = []) :
    (collectClass d t).table.openWords = t.openWords ++ d.1.members.flatMap Member.typeWords := by
  rcases collectClass_cases d t with ⟨-, -, hne⟩ | ⟨-, hc, -⟩
  · exact absurd clean hne
  · rw [hc] at clean ⊢
    have hmembers := each_adds (I := fun _ => True) openWords
      (fun m : Member × Nat => m.1.typeWords) (fun _ _ _ _ => trivial)
      (fun m _ u _ hu => collectMember_openWords hu) trivial clean
    refine hmembers.trans ?_
    conv_rhs => rw [← List.zipIdx_map_fst 0 d.1.members, List.flatMap_map]
    rfl

/-- **The written types that are left to be looked up** are those of the
fields, parameters and locals of the program. -/
theorem collect_openWords {p : Program} (clean : (collect p).issues = []) :
    (collect p).table.openWords
      = p.classes.flatMap fun d => d.members.flatMap Member.typeWords := by
  have hclasses := each_adds (I := fun _ => True) openWords
    (fun d : ClassDecl × Nat => d.1.members.flatMap Member.typeWords) (fun _ _ _ _ => trivial)
    (fun d _ u _ hu => collectClass_openWords hu) trivial clean
  refine hclasses.trans ?_
  conv_rhs => rw [← List.zipIdx_map_fst 0 p.classes, List.flatMap_map]
  rfl

/-! ## The variables of a scope -/

/-- The variables of a scope, as they were declared, in order. -/
def symbolsIn (t : SymbolTable) (s : ScopeId) : List VarSymbol :=
  t.vars.filter fun v => v.scope == s

theorem symbolsIn_addVar (t : SymbolTable) (v : VarSymbol) (s : ScopeId) :
    (t.addVar v).symbolsIn s = t.symbolsIn s ++ if v.scope = s then [v] else [] := by
  show (t.vars ++ [v]).filter _ = _
  rw [List.filter_append, List.filter_cons, List.filter_nil]
  simp only [beq_iff_eq]
  rfl

/-- The variables of a finished scope stay the same. -/
theorem Grows.symbolsIn_eq (h : Grows A t t') {s : ScopeId} (hs : ¬ A s)
    (hlt : s < t.scopes.length) : t'.symbolsIn s = t.symbolsIn s := by
  refine h.keeps (·.symbolsIn s = t.symbolsIn s) (fun u u' ih hst => ?_) rfl
  cases hst with
  | cls => exact ih
  | method => exact ih
  | var v inside fits free attached =>
    rw [symbolsIn_addVar, if_neg, List.append_nil, ih]
    rintro rfl
    exact attached.elim hs (Nat.not_le.mpr hlt)
  | block => exact ih

/-- A scope that is not there yet has no variables. -/
theorem Formed.symbolsIn_eq_nil (h : Formed t) {s : ScopeId} (hs : t.scopes.length ≤ s) :
    t.symbolsIn s = [] := by
  refine List.filter_eq_nil_iff.mpr (fun v hv => ?_)
  obtain ⟨k, hk, -⟩ := h.var_scope v hv
  rw [beq_iff_eq]
  rintro rfl
  exact Nat.not_lt.mpr hs (List.getElem?_eq_some_iff.mp hk).1

theorem symbolsIn_ofDeclare {v : VarSymbol}
    (clean : (ofDeclare t (t.declareVar v)).issues = []) :
    (ofDeclare t (t.declareVar v)).table.symbolsIn v.scope = t.symbolsIn v.scope ++ [v] := by
  unfold declareVar at *
  cases hfree : t.lookupIn v.scope v.name with
  | some w =>
    rw [hfree] at clean
    cases clean
  | none =>
    show (t.addVar v).symbolsIn v.scope = _
    rw [symbolsIn_addVar, if_pos rfl]

/-- The locals that a statement declares in its scope. -/
def localSymbols (s : ScopeId) : Stmt → List VarSymbol
  | .declare type vars _ => vars.map fun v => localSymbol s v.name.text type v.name.span
  | .ifThen .. => []
  | .ifElse .. => []
  | .loop .. => []
  | .ret .. => []
  | .assign .. => []
  | .eval .. => []

/-- A block declares nothing in the scope around it. -/
theorem symbolsIn_block {s : ScopeId} (h : BodyScope t s) (body : List Stmt) :
    (collectStmts t.scopes.length body (t.openBlock s).2).table.symbolsIn s = t.symbolsIn s := by
  have hg := collectStmts_grows _ body _ (bodyScope_openBlock t s)
  refine hg.symbolsIn_eq (Nat.ne_of_lt h.1) ?_
  exact Nat.lt_of_lt_of_le h.1 (openBlock_grows h).scopes_isPrefix.length_le

theorem collectStmt_symbolsIn {s : ScopeId} (stmt : Stmt) (h : BodyScope t s)
    (clean : (collectStmt s stmt t).issues = []) :
    (collectStmt s stmt t).table.symbolsIn s = t.symbolsIn s ++ localSymbols s stmt := by
  cases stmt with
  | declare type vars span =>
    unfold collectStmt at *
    dsimp only [localSymbols]
    rw [List.map_eq_flatMap]
    exact each_adds (I := fun _ => True) (symbolsIn · s)
      (fun v : Declarator => [localSymbol s v.name.text type v.name.span])
      (fun _ _ _ _ => trivial)
      (fun v _ u _ hu => symbolsIn_ofDeclare (v := localSymbol s v.name.text type v.name.span) hu)
      trivial clean
  | ifThen cond body bodySpan span =>
    unfold collectStmt
    exact (symbolsIn_block h body).trans (List.append_nil _).symm
  | ifElse cond body bodySpan other otherSpan span =>
    unfold collectStmt
    have first := openBlock_trans h (collectStmts_grows _ body _ (bodyScope_openBlock t s))
    refine (symbolsIn_block (h.grows first) other).trans ?_
    exact (symbolsIn_block h body).trans (List.append_nil _).symm
  | loop cond body bodySpan span =>
    unfold collectStmt
    exact (symbolsIn_block h body).trans (List.append_nil _).symm
  | ret => exact (List.append_nil _).symm
  | assign => exact (List.append_nil _).symm
  | eval => exact (List.append_nil _).symm

/-- **The statements of a block add its locals to its scope.** -/
theorem collectStmts_symbolsIn {s : ScopeId} (body : List Stmt) (h : BodyScope t s)
    (clean : (collectStmts s body t).issues = []) :
    (collectStmts s body t).table.symbolsIn s
      = t.symbolsIn s ++ body.flatMap (localSymbols s) := by
  induction body generalizing t with
  | nil => exact (List.append_nil _).symm
  | cons stmt rest ih =>
    obtain ⟨hstmt, hrest⟩ := List.append_eq_nil_iff.mp clean
    show (collectStmts s rest (collectStmt s stmt t).table).table.symbolsIn s = _
    rw [ih (h.grows (collectStmt_grows s stmt t h)) hrest, collectStmt_symbolsIn stmt h hstmt,
      List.append_assoc]
    rfl

/-! ## Parameters -/

/-- The explicit parameters of a method in its scope. -/
def paramSymbols (s : ScopeId) (params : List Param) : List VarSymbol :=
  params.filterMap fun q => q.type.map fun w => paramSymbol s q.name.text w q.span

theorem collectParam_symbolsIn {m : MethodId} {methodName : String} {q : Param}
    (clean : (collectParam m methodName q t).issues = []) :
    (collectParam m methodName q t).table.symbolsIn (t.methodAt m).scope
      = t.symbolsIn (t.methodAt m).scope ++ paramSymbols (t.methodAt m).scope [q] := by
  unfold collectParam paramSymbols at *
  rw [List.filterMap_cons]
  cases hq : q.type with
  | none =>
    rw [hq] at clean
    cases clean
  | some type =>
    rw [hq] at clean
    exact symbolsIn_ofDeclare (v := paramSymbol (t.methodAt m).scope q.name.text type q.span) clean

/-- **A method's scope holds its receiver, its parameters and the locals of its
body.** -/
theorem collectMethodBody_symbolsIn {m : MethodId} (h : HasMethod t m) {receiver : Param}
    {params : List Param} {decl : MethodDecl}
    (clean : (collectMethodBody m receiver params decl t).issues = []) :
    (collectMethodBody m receiver params decl t).table.symbolsIn (t.methodAt m).scope
      = t.symbolsIn (t.methodAt m).scope
        ++ receiverSymbol (t.methodAt m).scope receiver.name.text (t.methodAt m).owner receiver.span
        :: (paramSymbols (t.methodAt m).scope params
          ++ decl.body.flatMap (localSymbols (t.methodAt m).scope)) := by
  obtain ⟨hrecv, hrest⟩ := List.append_eq_nil_iff.mp clean
  obtain ⟨hparams, hbody⟩ := List.append_eq_nil_iff.mp hrest
  have hg := declareReceiver_grows h receiver.name.text receiver.span
  have hgp := withParams_grows h receiver params decl
  have first : (ofDeclare t (t.declareReceiver m receiver.name.text receiver.span)).table.symbolsIn
      (t.methodAt m).scope = t.symbolsIn (t.methodAt m).scope
        ++ [receiverSymbol (t.methodAt m).scope receiver.name.text (t.methodAt m).owner
          receiver.span] :=
    symbolsIn_ofDeclare hrecv
  have more := each_adds (I := fun u => HasMethod u m ∧ u.methodAt m = t.methodAt m)
    (symbolsIn · (t.methodAt m).scope)
    (fun q : Param => paramSymbols (t.methodAt m).scope [q])
    (fun q _ u hu => ⟨hu.1.grows (collectParam_grows hu.1 decl.name.text q),
      ((collectParam_grows hu.1 decl.name.text q).methodAt_eq hu.1.2).trans hu.2⟩)
    (fun q _ u hu hi => hu.2 ▸ collectParam_symbolsIn hi)
    ⟨h.grows hg, hg.methodAt_eq h.2⟩ hparams
  have hflat : params.flatMap (fun q => paramSymbols (t.methodAt m).scope [q])
      = paramSymbols (t.methodAt m).scope params := by
    unfold paramSymbols
    rw [List.filterMap_eq_flatMap_toList]
    refine List.flatMap_congr (fun q _ => ?_)
    rw [List.filterMap_cons]
    cases q.type with
    | none => rfl
    | some w => rfl
  have hstmts := collectStmts_symbolsIn decl.body
    (t := withParams m receiver params decl t) (hgp.methodAt_eq h.2 ▸ (h.grows hgp).bodyScope)
    (s := (t.methodAt m).scope) (hgp.methodAt_eq h.2 ▸ hbody)
  rw [collectMethodBody_table h, hstmts]
  show (each _ _ _).table.symbolsIn _ ++ _ = _
  rw [more, hflat, first]
  simp only [List.append_assoc, List.cons_append, List.nil_append]

section Registered

variable {p : Program}

/-- **The scope of a registered method.** -/
theorem registered_symbolsIn (clean : (collect p).issues = []) {r : Registered}
    (hr : r ∈ registered p) :
    ∃ receiver params s, r.decl.params = receiver :: params ∧ receiver.type = none
      ∧ ((collect p).table.methodAt r.method).scope = s
      ∧ (collect p).table.symbolsIn s
        = receiverSymbol s receiver.name.text ((collect p).table.methodAt r.method).owner
          receiver.span :: (paramSymbols s params ++ r.decl.body.flatMap (localSymbols s)) := by
  obtain ⟨t, c, decl, index, v⟩ := visited p hr
  obtain ⟨receiver, params, hp, htype, hfree, hc, -⟩ := v.collected
  have hm := hasMethod_addMethod v.hasClass r.decl.returnType index r.decl.name.span hfree
  have hbody := collectMethodBody_grows hm receiver params r.decl
  have hlater := v.later
  have hclean := v.issues clean
  rw [hc] at hlater hclean
  have hsymbols := collectMethodBody_symbolsIn hm hclean
  rw [methodAt_addMethod] at hsymbols
  have hnone : (t.addMethod c r.decl.name.text r.decl.returnType index
      r.decl.name.span).symbolsIn t.scopes.length = [] :=
    v.hasClass.1.symbolsIn_eq_nil (Nat.le_refl _)
  rw [v.methodAt.2]
  refine ⟨receiver, params, t.scopes.length, hp, htype, rfl, ?_⟩
  rw [hlater.symbolsIn_eq, hsymbols, hnone]
  · rfl
  · rintro (hs | hs)
    · exact classAt_scope_ne v.hasClass.1 v.hasClass.2 hs.symm
    · exact Nat.ne_of_gt v.hasClass.1.scopes_pos hs
  · refine Nat.lt_of_lt_of_le ?_ hbody.scopes_isPrefix.length_le
    show t.scopes.length < (t.scopes ++ [_]).length
    rw [List.length_append]
    exact Nat.lt_succ_self _

/-! ## The point at which a class was collected -/

theorem mem_trace_of_split {α β : Type} {f : α → SymbolTable → Collected}
    {g : α → SymbolTable → List β} {before behind : List α} {a : α} {t : SymbolTable} {b : β}
    (h : b ∈ g a (each f before t).table) : b ∈ trace f g (before ++ a :: behind) t := by
  induction before generalizing t with
  | nil => exact List.mem_append_left _ h
  | cons x rest ih => exact List.mem_append_right _ (ih h)

/-- **The point of the walk at which a class was collected**: the table there.
The class is the next one, and nothing is found in it. -/
structure ClassVisited (p : Program) (d : ClassDecl) (c : ClassId) (t : SymbolTable) : Prop where
  /-- The table is well-formed. -/
  formed : Formed t
  /-- The class is the next one. -/
  position : t.classes.length = c
  /-- Its name is free. -/
  free : t.lookupClass d.name.text = none
  /-- Nothing is found in it. -/
  clean : (collectMembers c d (t.addClass d.name.text d.parents c d.name.span)).issues = []
  /-- What follows is attached to the program. -/
  later : Grows (· = rootScope)
    (collectMembers c d (t.addClass d.name.text d.parents c d.name.span)).table (collect p).table
  /-- What it registers, the program registers. -/
  registers : ∀ r ∈ trace (collectMember c) (registeredMember c) d.members.zipIdx
    (t.addClass d.name.text d.parents c d.name.span), r ∈ registered p

theorem classVisited (clean : (collect p).issues = []) {c : ClassId} {d : ClassDecl}
    (hd : p.classes[c]? = some d) : ∃ t, ClassVisited p d c t := by
  have hmem : (d, c) ∈ p.classes.zipIdx := List.mk_mem_zipIdx_iff_getElem?.mpr hd
  obtain ⟨before, behind, hds⟩ := List.append_of_mem hmem
  have hf := formed_empty.grows (each_class_grows before formed_empty)
  have hsplit := each_split (f := collectClass) hds empty
  have hreg : ∀ r ∈ registeredClass (d, c) (each collectClass before empty).table,
      r ∈ registered p := by
    intro r hr
    unfold registered
    rw [hds]
    exact mem_trace_of_split hr
  generalize (each collectClass before empty).table = t at *
  have hone := hsplit.2 clean
  have hlater := each_class_grows behind (hf.grows (collectClass_grows hf (d, c)))
  rw [← show (collect p).table = _ from hsplit.1] at hlater
  rcases collectClass_cases (d, c) t with ⟨-, -, hne⟩ | ⟨hfree, hc, hr⟩
  · exact absurd hone hne
  · have hcls := hasClass_addClass hf d.parents c d.name.span hfree
    have hg := (collectMembers_grows hcls d).classAt_eq hcls.2
    rw [hc] at hone hlater
    rw [hr] at hreg
    -- The class is the next one, and its declaration says at which position it stands.
    have hpos : t.classes.length = c := by
      have hat : (collect p).table.classAt t.classes.length
          = classSymbol (d, c) t.scopes.length := by
        rw [hlater.classAt_eq ((hcls.grows (collectMembers_grows hcls d)).2), hg, classAt_addClass]
        rfl
      have hlt : t.classes.length < p.classes.length := by
        rw [← collect_classes_length clean]
        exact Nat.lt_of_lt_of_le (hcls.grows (collectMembers_grows hcls d)).2
          hlater.classes_isPrefix.length_le
      have hat' := (collect_classAt clean (List.getElem?_eq_getElem hlt)).2
      rw [hat] at hat'
      exact (congrArg ClassSymbol.declIndex hat').symm
    rw [hpos] at hone hlater hreg
    exact ⟨t, hf, hpos, hfree, hone, hlater, hreg⟩

/-- **Every method of the program is registered**, for its class. -/
theorem registered_of_mem (clean : (collect p).issues = []) {c : ClassId} {d : ClassDecl}
    (hd : p.classes[c]? = some d) {m : MethodDecl} (hm : Member.method m ∈ d.members) :
    ∃ r ∈ registered p, r.decl = m ∧ ((collect p).table.methodAt r.method).owner = c := by
  obtain ⟨t, v⟩ := classVisited clean hd
  obtain ⟨index, hindex⟩ := List.getElem?_of_mem hm
  obtain ⟨before, behind, hms⟩ :=
    List.append_of_mem (List.mk_mem_zipIdx_iff_getElem?.mpr hindex)
  have hcls := hasClass_addClass v.formed d.parents c d.name.span v.free
  rw [v.position] at hcls
  have hbefore : Grows (· = _) _ (each (collectMember c) before
      (t.addClass d.name.text d.parents c d.name.span)).table :=
    each_member_grows (fun m _ _ hu => collectMember_grows hu m) hcls
  have hsplit := each_split (f := collectMember c) hms
    (t.addClass d.name.text d.parents c d.name.span)
  have hin : ∀ r ∈ registeredMethod c index m (each (collectMember c) before
      (t.addClass d.name.text d.parents c d.name.span)).table, r ∈ registered p := by
    intro r hr
    refine v.registers r ?_
    rw [hms]
    exact mem_trace_of_split hr
  have hu := hcls.grows hbefore
  have hone := hsplit.2 v.clean
  have hlater := v.later
  rw [show (collectMembers c d _).table = _ from hsplit.1] at hlater
  generalize (each (collectMember c) before
    (t.addClass d.name.text d.parents c d.name.span)).table = u at *
  rcases collectMethod_cases c index m u with
    ⟨-, -, hne⟩ | ⟨receiver, params, -, -, hfree, hc, hreg⟩
  · exact absurd hone hne
  · rw [hreg] at hin
    refine ⟨_, hin _ (List.mem_singleton_self _), rfl, ?_⟩
    have hmeth := hasMethod_addMethod hu m.returnType index m.name.span hfree
    have hbody := collectMethodBody_grows hmeth receiver params m
    have hrest := each_member_grows (fun m (_ : m ∈ behind) _ hu => collectMember_grows hu m)
      (hu.grows (collectMember_grows hu (.method m, index)))
    have hmember : (collectMember c (.method m, index) u).table = _ :=
      congrArg Collected.table hc
    rw [hmember] at hlater hrest
    rw [hlater.methodAt_eq ((hmeth.grows hbody).grows hrest).2,
      hrest.methodAt_eq (hmeth.grows hbody).2, hbody.methodAt_eq hmeth.2, methodAt_addMethod]

/-- **Every registered method is a method of the program**, of its class. -/
theorem mem_of_registered (clean : (collect p).issues = []) {r : Registered}
    (hr : r ∈ registered p) :
    ∃ d, p.classes[((collect p).table.methodAt r.method).owner]? = some d
      ∧ Member.method r.decl ∈ d.members := by
  obtain ⟨t, c, decl, index, v⟩ := visited p hr
  have hg := v.grows.2.2
  have hat : (collect p).table.classAt c = t.classAt c := hg.classAt_eq v.hasClass.2
  have hlt : c < p.classes.length := by
    rw [← collect_classes_length clean]
    exact Nat.lt_of_lt_of_le v.hasClass.2 hg.classes_isPrefix.length_le
  have hpos := (collect_classAt clean (List.getElem?_eq_getElem hlt)).2
  have hin := v.inProgram
  rw [← hat, hpos] at hin
  rw [v.methodAt.2]
  exact ⟨decl, hin, List.mem_of_getElem? v.inClass⟩

/-! ## Fields -/

/-- The fields of a member in the scope of its class. -/
def fieldSymbols (s : ScopeId) : Member → List VarSymbol
  | .field decl => decl.names.map fun n => fieldSymbol s n.text decl.type n.span
  | .method _ => []

theorem collectMember_symbolsIn {c : ClassId} (h : HasClass t c) {m : Member × Nat}
    (clean : (collectMember c m t).issues = []) :
    (collectMember c m t).table.symbolsIn (t.classAt c).scope
      = t.symbolsIn (t.classAt c).scope ++ fieldSymbols (t.classAt c).scope m.1 := by
  obtain ⟨m, index⟩ := m
  cases m with
  | field decl =>
    dsimp only [fieldSymbols]
    rw [List.map_eq_flatMap]
    refine each_adds (I := fun u => HasClass u c ∧ u.classAt c = t.classAt c)
      (symbolsIn · (t.classAt c).scope)
      (fun n : Ident => [fieldSymbol (t.classAt c).scope n.text decl.type n.span])
      (fun n _ u hu => ?_) (fun n _ u hu hi => ?_) ⟨h, rfl⟩ clean
    · have hg := declareField_grows hu.1.1 hu.1.2 n.text decl.type n.span
      exact ⟨hu.1.grows hg, (hg.classAt_eq hu.1.2).trans hu.2⟩
    · have hvar := declareField_cases c n.text decl.type n.span hi
      rw [hvar] at hi ⊢
      rw [← hu.2]
      exact symbolsIn_ofDeclare hi
  | method decl =>
    rcases collectMethod_cases c index decl t with
      ⟨-, -, hne⟩ | ⟨receiver, params, -, -, hfree, hc, -⟩
    · exact absurd clean hne
    · have hm := hasMethod_addMethod h decl.returnType index decl.name.span hfree
      have hg := collectMethodBody_grows hm receiver params decl
      rw [methodAt_addMethod] at hg
      show (collectMethod c index decl t).table.symbolsIn _ = _
      rw [hc, hg.symbolsIn_eq (classAt_scope_ne h.1 h.2)]
      · exact (List.append_nil _).symm
      · exact Nat.lt_of_lt_of_le (h.1.classAt_scope_lt h.2)
          (addMethod_grows h _ _ _ hfree).scopes_isPrefix.length_le

/-- **The scope of a class holds its fields.** -/
theorem class_symbolsIn (clean : (collect p).issues = []) {c : ClassId} {d : ClassDecl}
    (hd : p.classes[c]? = some d) :
    (collect p).table.symbolsIn ((collect p).table.classAt c).scope
      = d.members.flatMap (fieldSymbols ((collect p).table.classAt c).scope) := by
  obtain ⟨t, v⟩ := classVisited clean hd
  have hcls := hasClass_addClass v.formed d.parents c d.name.span v.free
  have hat := classAt_addClass t d.name.text d.parents c d.name.span
  rw [v.position] at hcls hat
  have hmembers := collectMembers_grows hcls d
  have hscope : ((collect p).table.classAt c).scope = t.scopes.length := by
    rw [v.later.classAt_eq (hcls.grows hmembers).2, hmembers.classAt_eq hcls.2, hat]
  have hadds := each_adds (I := fun u => HasClass u c ∧ (u.classAt c).scope = t.scopes.length)
    (symbolsIn · t.scopes.length)
    (fun m : Member × Nat => fieldSymbols t.scopes.length m.1)
    (fun m _ u hu => ⟨hu.1.grows (collectMember_grows hu.1 m),
      ((collectMember_grows hu.1 m).classAt_eq hu.1.2) ▸ hu.2⟩)
    (fun m _ u hu hi => hu.2 ▸ collectMember_symbolsIn hu.1 hi)
    ⟨hcls, by rw [hat]⟩ v.clean
  have hnone : (t.addClass d.name.text d.parents c d.name.span).symbolsIn t.scopes.length = [] :=
    v.formed.symbolsIn_eq_nil (Nat.le_refl _)
  rw [hscope, v.later.symbolsIn_eq (Nat.ne_of_gt v.formed.scopes_pos)]
  · refine hadds.trans ?_
    rw [hnone, List.nil_append]
    conv_rhs => rw [← List.zipIdx_map_fst 0 d.members, List.flatMap_map]
  · have hlt := hcls.1.classAt_scope_lt hcls.2
    rw [hat] at hlt
    exact Nat.lt_of_lt_of_le hlt hmembers.scopes_isPrefix.length_le

end Registered

end SymbolTable

end Heritage
