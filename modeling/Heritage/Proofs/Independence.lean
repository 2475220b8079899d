import Heritage.Proofs.Names

/-!
# What is found inside a method depends on the method alone

The parameters and the body of a method are collected in scopes of their own.
Whether a name is taken there, and where it was declared first, is all that the
walk asks of the table (`spanIn`), so two walks that begin with the same names
find the same issues, whatever other symbols the two tables hold and wherever
the scopes stand in them.
-/

namespace Heritage

open Collected

namespace SymbolTable

variable {A : ScopeId → Prop} {t t' u u' : SymbolTable} {s s' : ScopeId}

/-- Where the variable with a name was declared in a scope. -/
def spanIn (t : SymbolTable) (s : ScopeId) (name : String) : Option Span :=
  (t.lookupIn s name).map fun v => (t.varAt v).span

theorem Grows.spanIn_eq (h : Grows A t t') (hs : ¬ A s) (hlt : s < t.scopes.length)
    (name : String) : t'.spanIn s name = t.spanIn s name := by
  unfold spanIn
  rw [h.lookupIn_eq hs hlt]
  refine Option.map_congr fun v hv => ?_
  rw [h.varAt_eq (lookupIn_lt hv)]

/-- In a scope that is not there yet, nothing is declared. -/
theorem Formed.spanIn_eq_none (h : Formed t) (hs : t.scopes.length ≤ s) (name : String) :
    t.spanIn s name = none := by
  rw [spanIn, not_not.mp (h.not_takenIn hs name)]
  rfl

/-- A variable that is added under a free name is found there. -/
theorem spanIn_addVar {v : VarSymbol} (hfree : t.lookupIn v.scope v.name = none) (name : String) :
    (t.addVar v).spanIn v.scope name
      = if name = v.name then some v.span else t.spanIn v.scope name := by
  by_cases hname : name = v.name
  · rw [if_pos hname, hname, spanIn, lookupIn_addVar hfree]
    have hat : (t.addVar v).varAt t.vars.length = v :=
      getD_of_eq_some List.getElem?_concat_length _
    exact congrArg (fun w => some (VarSymbol.span w)) hat
  · have hlook : (t.addVar v).lookupIn v.scope name = t.lookupIn v.scope name := by
      show (t.vars ++ [v]).findIdx? _ = t.vars.findIdx? _
      rw [List.findIdx?_append]
      simp [Ne.symm hname]
    rw [if_neg hname, spanIn, spanIn, hlook]
    refine Option.map_congr fun w hw => congrArg VarSymbol.span ?_
    exact getD_of_isPrefix (List.prefix_append t.vars [v]) (lookupIn_lt hw) _

/-- **Two scopes in which the same names were declared at the same places.** -/
def SameNames (t : SymbolTable) (s : ScopeId) (t' : SymbolTable) (s' : ScopeId) : Prop :=
  ∀ name, t.spanIn s name = t'.spanIn s' name

/-- **Two walks that find the same**, and leave the same names in two scopes. -/
structure Alike (s s' : ScopeId) (r r' : Collected) : Prop where
  /-- What they find. -/
  issues : r.issues = r'.issues
  /-- What they leave. -/
  names : SameNames r.table s r'.table s'

theorem SameNames.alike (h : SameNames t s t' s') : Alike s s' { table := t } { table := t' } :=
  ⟨rfl, h⟩

theorem Alike.andThen {r r' : Collected} {f f' : SymbolTable → Collected} (h : Alike s s' r r')
    (hf : Alike s s' (f r.table) (f' r'.table)) : Alike s s' (r.andThen f) (r'.andThen f') :=
  ⟨congrArg₂ (· ++ ·) h.issues hf.issues, hf.names⟩

/-- **Walks through one list** find the same if they do at each element. -/
theorem each_alike {α : Type} {f g : α → SymbolTable → Collected}
    {I J : SymbolTable → Prop} (xs : List α) (stable : ∀ a ∈ xs, ∀ t, I t → I (f a t).table)
    (stable' : ∀ a ∈ xs, ∀ t, J t → J (g a t).table)
    (one : ∀ a ∈ xs, ∀ t t', I t → J t' → SameNames t s t' s' → Alike s s' (f a t) (g a t'))
    (ht : I t) (ht' : J t') (h : SameNames t s t' s') :
    Alike s s' (each f xs t) (each g xs t') := by
  induction xs generalizing t t' with
  | nil => exact h.alike
  | cons a rest ih =>
    have first := one a List.mem_cons_self t t' ht ht' h
    refine first.andThen (ih (fun b hb => stable b (List.mem_cons_of_mem a hb))
      (fun b hb => stable' b (List.mem_cons_of_mem a hb))
      (fun b hb => one b (List.mem_cons_of_mem a hb)) ?_ ?_ first.names)
    · exact stable a List.mem_cons_self t ht
    · exact stable' a List.mem_cons_self t' ht'

/-- A variable is declared in the one scope as in the other. -/
theorem declareVar_alike (v v' : VarSymbol) (hname : v.name = v'.name) (hspan : v.span = v'.span)
    (hkind : v.kind = v'.kind) (h : SameNames t v.scope t' v'.scope) :
    Alike v.scope v'.scope (ofDeclare t (t.declareVar v)) (ofDeclare t' (t'.declareVar v')) := by
  have hv := h v.name
  unfold declareVar
  rw [← hname]
  cases hlook : t.lookupIn v.scope v.name with
  | some w =>
    rw [spanIn, hlook] at hv
    obtain ⟨w', hlook', hw⟩ := Option.map_eq_some_iff.mp hv.symm
    rw [hlook']
    refine ⟨?_, h⟩
    show [Issue.duplicate _ _ _ _] = [Issue.duplicate _ _ _ _]
    rw [hkind, hspan, hw]
  | none =>
    rw [spanIn, hlook] at hv
    have hlook' : t'.lookupIn v'.scope v.name = none := Option.map_eq_none_iff.mp hv.symm
    rw [hlook']
    refine ⟨rfl, fun name => ?_⟩
    show (t.addVar v).spanIn v.scope name = (t'.addVar v').spanIn v'.scope name
    rw [spanIn_addVar hlook, spanIn_addVar (hname ▸ hlook'), hname, hspan, h name]

/-! ## Bodies -/

theorem HasScope.openBlock (h : HasScope t s) : HasScope (t.openBlock s).2 t.scopes.length :=
  ⟨h.1.openBlock h.2.1, bodyScope_openBlock t s⟩

/-- A block begins with no names, and leaves those around it alone. -/
theorem block_alike (h : HasScope t s) (h' : HasScope t' s') (hnames : SameNames t s t' s')
    {body : List Stmt}
    (inside : SameNames (t.openBlock s).2 t.scopes.length (t'.openBlock s').2 t'.scopes.length →
      Alike t.scopes.length t'.scopes.length
        (collectStmts t.scopes.length body (t.openBlock s).2)
        (collectStmts t'.scopes.length body (t'.openBlock s').2)) :
    Alike s s' (collectStmts t.scopes.length body (t.openBlock s).2)
      (collectStmts t'.scopes.length body (t'.openBlock s').2) := by
  have around : ∀ {t : SymbolTable} {s : ScopeId}, HasScope t s → ∀ name,
      (collectStmts t.scopes.length body (t.openBlock s).2).table.spanIn s name
        = t.spanIn s name := by
    intro t s h name
    have hg := collectStmts_grows _ body _ (bodyScope_openBlock t s)
    refine hg.spanIn_eq (Nat.ne_of_lt h.2.1) ?_ name
    exact Nat.lt_of_lt_of_le h.2.1 (openBlock_grows h.2).scopes_isPrefix.length_le
  have fresh : ∀ {t : SymbolTable} {s : ScopeId}, HasScope t s → ∀ name,
      (t.openBlock s).2.spanIn t.scopes.length name = none :=
    fun h name => h.1.spanIn_eq_none (Nat.le_refl _) name
  refine ⟨(inside fun name => ?_).issues, fun name => ?_⟩
  · rw [fresh h, fresh h']
  · rw [around h, around h', hnames name]

mutual
theorem collectStmt_alike : (stmt : Stmt) → {t t' : SymbolTable} → {s s' : ScopeId} →
    HasScope t s → HasScope t' s' → SameNames t s t' s' →
    Alike s s' (collectStmt s stmt t) (collectStmt s' stmt t')
  | .declare type vars _, t, t', s, s', _, _, hnames => by
    unfold collectStmt
    exact each_alike (I := fun _ => True) (J := fun _ => True) vars (fun _ _ _ _ => trivial)
      (fun _ _ _ _ => trivial)
      (fun v _ _ _ _ _ h => declareVar_alike
        (localSymbol s v.name.text type v.name.span)
        (localSymbol s' v.name.text type v.name.span) rfl rfl rfl h) trivial trivial hnames
  | .ifThen _ body _ _, t, t', s, s', h, h', hnames => by
    unfold collectStmt
    exact block_alike h h' hnames (collectStmts_alike body h.openBlock h'.openBlock)
  | .ifElse _ body _ other _ _, t, t', s, s', h, h', hnames => by
    unfold collectStmt
    have first := block_alike h h' hnames (collectStmts_alike body h.openBlock h'.openBlock)
    have hg := h.grows (openBlock_trans h.2 (collectStmts_grows _ body _ (bodyScope_openBlock t s)))
    have hg' := h'.grows
      (openBlock_trans h'.2 (collectStmts_grows _ body _ (bodyScope_openBlock t' s')))
    exact first.andThen (block_alike hg hg' first.names
      (collectStmts_alike other hg.openBlock hg'.openBlock))
  | .loop _ body _ _, t, t', s, s', h, h', hnames => by
    unfold collectStmt
    exact block_alike h h' hnames (collectStmts_alike body h.openBlock h'.openBlock)
  | .ret _ _, _, _, _, _, _, _, hnames => hnames.alike
  | .assign _ _ _, _, _, _, _, _, _, hnames => hnames.alike
  | .eval _ _, _, _, _, _, _, _, hnames => hnames.alike
/-- **A list of statements is collected in one scope as in another** with the same
names. -/
theorem collectStmts_alike : (body : List Stmt) → {t t' : SymbolTable} → {s s' : ScopeId} →
    HasScope t s → HasScope t' s' → SameNames t s t' s' →
    Alike s s' (collectStmts s body t) (collectStmts s' body t')
  | [], _, _, _, _, _, _, hnames => hnames.alike
  | stmt :: rest, t, t', s, s', h, h', hnames => by
    have first := collectStmt_alike stmt h h' hnames
    exact first.andThen (collectStmts_alike rest (h.grows (collectStmt_grows s stmt t h.2))
      (h'.grows (collectStmt_grows s' stmt t' h'.2)) first.names)
end

/-! ## Methods -/

theorem collectParam_alike {m m' : MethodId} (methodName : String) (q : Param)
    (hnames : SameNames t (t.methodAt m).scope t' (t'.methodAt m').scope) :
    Alike (t.methodAt m).scope (t'.methodAt m').scope (collectParam m methodName q t)
      (collectParam m' methodName q t') := by
  unfold collectParam
  cases q.type with
  | none => exact ⟨rfl, hnames⟩
  | some type =>
    exact declareVar_alike (paramSymbol (t.methodAt m).scope q.name.text type q.span)
      (paramSymbol (t'.methodAt m').scope q.name.text type q.span) rfl rfl rfl hnames

/-- **A method is collected in one table as in another**, if its scope begins with
the same names. -/
theorem collectMethodBody_alike {m m' : MethodId} (h : HasMethod t m) (h' : HasMethod t' m')
    (hnames : SameNames t (t.methodAt m).scope t' (t'.methodAt m').scope) (receiver : Param)
    (params : List Param) (decl : MethodDecl) :
    (collectMethodBody m receiver params decl t).issues
      = (collectMethodBody m' receiver params decl t').issues := by
  have hrecv := declareReceiver_grows h receiver.name.text receiver.span
  have hrecv' := declareReceiver_grows h' receiver.name.text receiver.span
  have hparams := withParams_grows h receiver params decl
  have hparams' := withParams_grows h' receiver params decl
  have first : Alike (t.methodAt m).scope (t'.methodAt m').scope
      (ofDeclare t (t.declareReceiver m receiver.name.text receiver.span))
      (ofDeclare t' (t'.declareReceiver m' receiver.name.text receiver.span)) :=
    declareVar_alike
      (receiverSymbol (t.methodAt m).scope receiver.name.text (t.methodAt m).owner
        receiver.span)
      (receiverSymbol (t'.methodAt m').scope receiver.name.text (t'.methodAt m').owner
        receiver.span) rfl rfl rfl hnames
  -- The method keeps its scope while its parameters are declared.
  have more := each_alike (f := collectParam m decl.name.text) (g := collectParam m' decl.name.text)
    (I := fun u => HasMethod u m ∧ u.methodAt m = t.methodAt m)
    (J := fun u => HasMethod u m' ∧ u.methodAt m' = t'.methodAt m') params
    (fun q _ u hu => ⟨hu.1.grows (collectParam_grows hu.1 decl.name.text q),
      ((collectParam_grows hu.1 decl.name.text q).methodAt_eq hu.1.2).trans hu.2⟩)
    (fun q _ u hu => ⟨hu.1.grows (collectParam_grows hu.1 decl.name.text q),
      ((collectParam_grows hu.1 decl.name.text q).methodAt_eq hu.1.2).trans hu.2⟩)
    (fun q _ u u' hu hu' hn => by
      rw [← hu.2, ← hu'.2] at hn ⊢
      exact collectParam_alike decl.name.text q hn)
    ⟨h.grows hrecv, hrecv.methodAt_eq h.2⟩ ⟨h'.grows hrecv', hrecv'.methodAt_eq h'.2⟩ first.names
  have inside : Alike (t.methodAt m).scope (t'.methodAt m').scope
      (collectStmts ((withParams m receiver params decl t).methodAt m).scope decl.body
        (withParams m receiver params decl t))
      (collectStmts ((withParams m' receiver params decl t').methodAt m').scope decl.body
        (withParams m' receiver params decl t')) := by
    have hbody := (h.grows hparams).bodyScope
    have hbody' := (h'.grows hparams').bodyScope
    rw [hparams.methodAt_eq h.2] at hbody ⊢
    rw [hparams'.methodAt_eq h'.2] at hbody' ⊢
    exact collectStmts_alike decl.body ⟨h.1.grows hparams, hbody⟩ ⟨h'.1.grows hparams', hbody'⟩
      more.names
  exact (first.andThen (more.andThen inside)).issues

end SymbolTable

end Heritage
