import Heritage.Proofs.InPlace
import Heritage.Proofs.Owners
import Heritage.Proofs.Representation
import Heritage.Symbols.Registry

/-!
# A registry keeps every list and map in step

What a registry holds beside the symbols can be computed from them, and
`SymbolTable.registry` computes it: the registry of a table lists in each entry
what the table finds when it looks. Each operation of a registry, applied to the
registry of a well-formed table, gives the registry of the table after the
operation, and the registry it was applied to if it refuses
(`answered`). So no list and no map ever falls behind, and nothing is left
half done.
-/

namespace Heritage

open SymbolTable

/-! ## Lists indexed by position -/

section Indexed

variable {α : Type} {f g : Nat → α} {n i : Nat}

theorem getD_map_range (hi : i < n) (d : α) : ((List.range n).map f).getD i d = f i := by
  rw [List.getD_eq_getElem _ _ (by rwa [List.length_map, List.length_range]), List.getElem_map,
    List.getElem_range]

/-- One more entry, the others as they were. -/
theorem map_range_concat {a : α} (hold : ∀ k < n, g k = f k) (hnew : g n = a) :
    (List.range n).map f ++ [a] = (List.range (n + 1)).map g := by
  rw [List.range_succ, List.map_append, List.map_singleton, hnew]
  exact congrArg (· ++ [a]) (List.map_congr_left fun k hk => (hold k (List.mem_range.mp hk)).symm)

/-- One entry changed, the others as they were. -/
theorem modify_map_range {change : α → α} (hi : i < n → g i = change (f i))
    (hother : ∀ k < n, k ≠ i → g k = f k) :
    ((List.range n).map f).modify i change = (List.range n).map g := by
  refine List.ext_getElem (by simp) fun k _ hk => ?_
  have hlt : k < n := by simpa using hk
  rw [List.getElem_modify]
  simp only [List.getElem_map, List.getElem_range]
  split
  · rename_i hik
    subst hik
    exact (hi hlt).symm
  · rename_i hik
    exact (hother k hlt (Ne.symm hik)).symm

/-- One entry replaced, the others as they were. -/
theorem set_map_range {a : α} (hi : i < n → g i = a) (hother : ∀ k < n, k ≠ i → g k = f k) :
    ((List.range n).map f).set i a = (List.range n).map g := by
  rw [List.set_eq_modify]
  exact modify_map_range hi hother

end Indexed

/-- Looking a key up in a map whose keys differ. -/
theorem lookup_reverse_eq_some_iff {l : List Nat} {name : Nat → String}
    (hl : (l.map name).Nodup) {x : String} {i : Nat} :
    (l.map fun k => (name k, k)).reverse.lookup x = some i ↔ i ∈ l ∧ name i = x := by
  rw [List.lookup_eq_some_iff]
  constructor
  · rintro ⟨before, behind, hsplit, -⟩
    have hmem : (x, i) ∈ (l.map fun k => (name k, k)).reverse := hsplit ▸ by simp
    obtain ⟨k, hk, hpair⟩ := List.mem_map.mp (List.mem_reverse.mp hmem)
    obtain ⟨rfl, rfl⟩ := Prod.mk.inj hpair
    exact ⟨hk, rfl⟩
  · rintro ⟨hi, rfl⟩
    have hmem : (name i, i) ∈ (l.map fun k => (name k, k)).reverse :=
      List.mem_reverse.mpr (List.mem_map.mpr ⟨i, hi, rfl⟩)
    obtain ⟨before, behind, hsplit⟩ := List.append_of_mem hmem
    refine ⟨before, behind, hsplit, fun p hp => ?_⟩
    have hkeys : ((before ++ (name i, i) :: behind).map Prod.fst).Nodup := by
      rw [← hsplit, List.map_reverse, List.map_map]
      exact List.nodup_reverse.mpr hl
    rw [List.map_append, List.map_cons, List.nodup_append] at hkeys
    exact bne_iff_ne.mpr fun heq =>
      hkeys.2.2 p.1 (List.mem_map_of_mem hp) (name i) List.mem_cons_self heq.symm

namespace SymbolTable

variable {t : SymbolTable}

/-! ## The registry of a table -/

/-- A class with what the table finds to belong to it. -/
def classEntry (t : SymbolTable) (c : ClassId) : ClassEntry where
  id := c
  symbol := t.classAt c
  methods := t.methodsOf c
  fields := t.fieldsOf c

/-- A method with what the table finds to belong to it. -/
def methodEntry (t : SymbolTable) (m : MethodId) : MethodEntry where
  id := m
  symbol := t.methodAt m
  params := t.paramsOf m

/-- A variable with its position. -/
def varEntry (t : SymbolTable) (v : VarId) : VarEntry where
  id := v
  symbol := t.varAt v

/-- A scope with what the table finds to belong to it. -/
def scopeEntry (t : SymbolTable) (s : ScopeId) : ScopeEntry where
  id := s
  symbol := t.scopeAt s
  children := t.childrenOf s
  vars := t.varsIn s
  names := ((t.varsIn s).map fun v => ((t.varAt v).name, v)).reverse

/-- **The registry of a table.** -/
def registry (t : SymbolTable) : Registry where
  classes := (List.range t.classes.length).map t.classEntry
  methods := (List.range t.methods.length).map t.methodEntry
  vars := (List.range t.vars.length).map t.varEntry
  scopes := (List.range t.scopes.length).map t.scopeEntry
  classNames := ((List.range t.classes.length).map fun c => ((t.classAt c).name, c)).reverse

/-- The symbols of a table are those of its registry. -/
theorem table_registry (t : SymbolTable) : t.registry.table = t := by
  unfold registry Registry.table
  simp only [List.map_map]
  cases t
  congr 1
  · exact map_getD_range _ _
  · exact map_getD_range _ _
  · exact map_getD_range _ _
  · exact map_getD_range _ _

/-! ## Reading the registry of a table -/

@[simp]
theorem registry_classes_length (t : SymbolTable) :
    t.registry.classes.length = t.classes.length := by simp [registry]

@[simp]
theorem registry_methods_length (t : SymbolTable) :
    t.registry.methods.length = t.methods.length := by simp [registry]

@[simp]
theorem registry_vars_length (t : SymbolTable) :
    t.registry.vars.length = t.vars.length := by simp [registry]

@[simp]
theorem registry_scopes_length (t : SymbolTable) :
    t.registry.scopes.length = t.scopes.length := by simp [registry]

theorem registry_classAt {c : ClassId} (hc : c < t.classes.length) :
    t.registry.classAt c = t.classEntry c :=
  getD_map_range hc _

theorem registry_methodAt {m : MethodId} (hm : m < t.methods.length) :
    t.registry.methodAt m = t.methodEntry m :=
  getD_map_range hm _

theorem registry_varAt {v : VarId} (hv : v < t.vars.length) :
    t.registry.varAt v = t.varEntry v :=
  getD_map_range hv _

theorem registry_scopeAt {s : ScopeId} (hs : s < t.scopes.length) :
    t.registry.scopeAt s = t.scopeEntry s :=
  getD_map_range hs _

/-- What is found by its name has a name of its own. -/
theorem nodup_map_name {l : List Nat} (hl : l.Pairwise (· < ·)) {name : Nat → String}
    (find : String → Option Nat) (hfind : ∀ i ∈ l, find (name i) = some i) :
    (l.map name).Nodup := by
  refine List.Nodup.map_on (fun i hi j hj hij => ?_) (hl.imp Nat.ne_of_lt)
  have hboth := hfind i hi
  rw [hij, hfind j hj] at hboth
  exact (Option.some.inj hboth).symm

/-- The symbol at a position is the same in the table, also at a position outside. -/
@[simp]
theorem registry_classAt_symbol (t : SymbolTable) (c : ClassId) :
    (t.registry.classAt c).symbol = t.classAt c :=
  (List.getD_map _ _ _).symm.trans (congrArg (SymbolTable.classAt · c) t.table_registry)

@[simp]
theorem registry_methodAt_symbol (t : SymbolTable) (m : MethodId) :
    (t.registry.methodAt m).symbol = t.methodAt m :=
  (List.getD_map _ _ _).symm.trans (congrArg (SymbolTable.methodAt · m) t.table_registry)

@[simp]
theorem registry_varAt_symbol (t : SymbolTable) (v : VarId) :
    (t.registry.varAt v).symbol = t.varAt v :=
  (List.getD_map _ _ _).symm.trans (congrArg (SymbolTable.varAt · v) t.table_registry)

@[simp]
theorem registry_scopeAt_symbol (t : SymbolTable) (s : ScopeId) :
    (t.registry.scopeAt s).symbol = t.scopeAt s :=
  (List.getD_map _ _ _).symm.trans (congrArg (SymbolTable.scopeAt · s) t.table_registry)

section Lookups

variable (hf : Formed t)
include hf

theorem Formed.lookupIn_iff {s : ScopeId} {name : String} {v : VarId} :
    t.lookupIn s name = some v ↔ v ∈ t.varsIn s ∧ (t.varAt v).name = name := by
  rw [lookupIn_eq_some_iff hf, mem_varsIn, and_assoc]

/-- The names in a scope of a well-formed table differ. -/
theorem Formed.var_names_nodup (s : ScopeId) :
    ((t.varsIn s).map fun v => (t.varAt v).name).Nodup :=
  nodup_map_name (positions_pairwise _ _) (t.lookupIn s) fun _ hv => hf.lookupIn_iff.mpr ⟨hv, rfl⟩

/-- So do the names of the classes. -/
theorem Formed.class_names_nodup :
    ((List.range t.classes.length).map fun c => (t.classAt c).name).Nodup :=
  nodup_map_name List.pairwise_lt_range t.lookupClass
    fun _ hc => (lookupClass_eq_some_iff hf).mpr ⟨List.mem_range.mp hc, rfl⟩

theorem scopeEntry_lookup (s : ScopeId) (name : String) :
    (t.scopeEntry s).lookup name = t.lookupIn s name :=
  Option.ext fun _ =>
    (lookup_reverse_eq_some_iff (hf.var_names_nodup s)).trans hf.lookupIn_iff.symm

theorem registry_lookupClass (name : String) :
    t.registry.lookupClass name = t.lookupClass name := by
  refine Option.ext fun c => ?_
  rw [lookupClass_eq_some_iff hf, ← List.mem_range]
  exact lookup_reverse_eq_some_iff hf.class_names_nodup

theorem registry_lookupIn {s : ScopeId} (hs : s < t.scopes.length) (name : String) :
    t.registry.lookupIn s name = t.lookupIn s name := by
  unfold Registry.lookupIn
  rw [registry_scopeAt hs, scopeEntry_lookup hf]

variable {c : ClassId} (hc : c < t.classes.length)
include hc

theorem registry_declaredField (name : String) :
    t.registry.declaredField c name = t.declaredField c name := by
  unfold Registry.declaredField
  rw [registry_classAt_symbol]
  exact registry_lookupIn hf (hf.classAt_scope_lt hc) name

omit hf in
theorem registry_declaredMethod (name : String) :
    t.registry.declaredMethod c name = t.declaredMethod c name := by
  unfold Registry.declaredMethod
  simp only [registry_methodAt_symbol]
  rw [registry_classAt hc, declaredMethod_eq, List.head?_filter]
  rfl

theorem registry_memberSpan? (name : String) :
    t.registry.memberSpan? c name = t.memberSpan? c name := by
  unfold Registry.memberSpan? memberSpan?
  rw [registry_declaredField hf hc, registry_declaredMethod hc]
  cases t.declaredField c name with
  | some v => simp only [registry_varAt_symbol]
  | none => simp only [registry_methodAt_symbol]

end Lookups

/-! ## Adding to the registry of a table -/

theorem varsIn_addVar (v : VarSymbol) (s : ScopeId) :
    (t.addVar v).varsIn s = t.varsIn s ++ if v.scope = s then [t.vars.length] else [] := by
  show positions _ (t.vars ++ [v]) = _
  rw [positions_concat]
  simp only [beq_iff_eq]
  rfl

theorem fieldsOf_addVar (v : VarSymbol) (c : ClassId) :
    (t.addVar v).fieldsOf c = t.fieldsOf c
      ++ if v.scope = (t.classAt c).scope ∧ v.kind = .field then [t.vars.length] else [] := by
  show positions _ (t.vars ++ [v]) = _
  rw [positions_concat]
  simp only [Bool.and_eq_true, beq_iff_eq]
  rfl

theorem paramsOf_addVar (v : VarSymbol) (m : MethodId) :
    (t.addVar v).paramsOf m
      = t.paramsOf m ++ if v.scope = (t.methodAt m).scope ∧ v.kind.isParam = true
          then [t.vars.length] else [] := by
  show positions _ (t.vars ++ [v]) = _
  rw [positions_concat]
  simp only [Bool.and_eq_true, beq_iff_eq]
  rfl

section Additions

variable (hf : Formed t)
include hf

/-- No variable stands in a scope that is still to be opened. -/
theorem Formed.positions_vars_eq_nil {q : VarSymbol → Bool}
    (hq : ∀ v, q v = true → v.scope = t.scopes.length) : positions q t.vars = [] := by
  refine positions_eq_nil fun v hv => Bool.eq_false_iff.mpr fun hpass => ?_
  obtain ⟨k, hk, -⟩ := hf.var_scope v hv
  exact Nat.ne_of_lt (List.getElem?_eq_some_iff.mp hk).1 (hq v hpass)

/-- **Opening a scope** adds it, and lists it in the one around it. -/
theorem openScope_registry (kind : ScopeKind) (around : ScopeId) (cls : Option ClassId) :
    t.registry.openScope kind around cls
      = (t.scopes.length,
          (t.addScope { kind := kind, parent := some around, cls := cls }).registry) := by
  let k : Scope := { kind := kind, parent := some around, cls := cls }
  let opened : ScopeEntry := { id := t.scopes.length, symbol := k }
  -- Only the scope around the new one gets another child.
  have hchildren : ∀ s, (t.addScope k).childrenOf s
      = t.childrenOf s ++ if some around = some s then [t.scopes.length] else [] := by
    intro s
    show positions _ (t.scopes ++ [k]) = _
    rw [positions_concat]
    simp only [beq_iff_eq]
    rfl
  -- Before it does, the entries are those of the new table with the old children.
  have hadded : t.registry.scopes ++ [opened]
      = (List.range (t.scopes.length + 1)).map fun s =>
          { (t.addScope k).scopeEntry s with children := t.childrenOf s } := by
    refine map_range_concat (fun s hs => ?_) ?_
    · have hsymbol : (t.addScope k).scopeAt s = t.scopeAt s :=
        getD_of_isPrefix (List.prefix_append _ _) hs _
      unfold scopeEntry
      rw [hsymbol]
      rfl
    · have hsymbol : (t.addScope k).scopeAt t.scopes.length = k :=
        getD_of_eq_some List.getElem?_concat_length _
      have hvars : (t.addScope k).varsIn t.scopes.length = []
        := hf.positions_vars_eq_nil fun _ => beq_iff_eq.mp
      unfold scopeEntry
      rw [hsymbol, hvars, childrenOf_last hf (Nat.le_succ _)]
      rfl
  have hscopes : (t.registry.scopes ++ [opened]).modify around
        (fun e : ScopeEntry => { e with children := e.children ++ [t.scopes.length] })
      = (t.addScope k).registry.scopes := by
    have hlen : (t.addScope k).scopes.length = t.scopes.length + 1 := List.length_append
    rw [hadded]
    show _ = (List.range (t.addScope k).scopes.length).map _
    rw [hlen]
    refine modify_map_range (fun _ => ?_) fun s _ hs => ?_
    · unfold scopeEntry
      rw [hchildren, if_pos rfl]
    · unfold scopeEntry
      rw [hchildren, if_neg fun h => hs (Option.some.inj h).symm, List.append_nil]
  unfold Registry.openScope
  rw [registry_scopes_length]
  exact Prod.ext rfl (Registry.ext rfl rfl rfl hscopes rfl)

/-- **Adding a class** to the registry, once its scope is open. -/
theorem registry_addClass (name : String) (parents : List Ident) (declIndex : Nat) (span : Span) :
    (t.addClass name parents declIndex span).registry
      = { (t.addScope (classScopeRecord t.classes.length)).registry with
          classes := t.registry.classes ++
            [{ id := t.classes.length
               symbol := { name := name, parents := parents, scope := t.scopes.length,
                           declIndex := declIndex, span := span } }]
          classNames := (name, t.classes.length) :: t.registry.classNames } := by
  let t' := t.addClass name parents declIndex span
  have hlen : t'.classes.length = t.classes.length + 1 := List.length_append
  have hold : ∀ c < t.classes.length, t'.classAt c = t.classAt c := fun c hc =>
    getD_of_isPrefix (List.prefix_append _ _) hc _
  have hnew := classAt_addClass t name parents declIndex span
  have hclasses : t'.registry.classes = t.registry.classes ++ [t'.classEntry t.classes.length] := by
    show (List.range t'.classes.length).map _ = _
    rw [hlen]
    refine (map_range_concat (fun c hc => ?_) rfl).symm
    unfold classEntry fieldsOf
    rw [hold c hc]
    rfl
  have hnames : t'.registry.classNames = (name, t.classes.length) :: t.registry.classNames := by
    show ((List.range t'.classes.length).map fun c => ((t'.classAt c).name, c)).reverse = _
    rw [hlen, ← map_range_concat (f := fun c => ((t.classAt c).name, c)) (a := (name, _))
      (fun c hc => by rw [hold c hc]) (by rw [hnew]), List.reverse_append]
    rfl
  have hentry : t'.classEntry t.classes.length
      = { id := t.classes.length
          symbol := { name := name, parents := parents, scope := t.scopes.length,
                      declIndex := declIndex, span := span } } := by
    have hfields : t'.fieldsOf t.classes.length = [] := by
      unfold fieldsOf
      rw [hnew]
      exact hf.positions_vars_eq_nil fun v hv => beq_iff_eq.mp (Bool.and_eq_true_iff.mp hv).1
    unfold classEntry
    rw [hnew, methodsOf_addClass hf, hfields]
  exact Registry.ext (hclasses.trans (congrArg (t.registry.classes ++ [·]) hentry)) rfl rfl rfl
    hnames

/-- **Adding a method** to the registry, once its scope is open, and listing it in its class. -/
theorem registry_addMethod (owner : ClassId) (name : String) (returnType : Option Ident)
    (declIndex : Nat) (span : Span) :
    (t.addMethod owner name returnType declIndex span).registry
      = Registry.listMethod
          { (t.addScope (methodScopeRecord (t.classAt owner).scope owner)).registry with
            methods := t.registry.methods ++
              [{ id := t.methods.length
                 symbol := { owner := owner, name := name, returnTypeName := returnType,
                             returnType := if returnType.isSome then none else some .void,
                             scope := t.scopes.length, declIndex := declIndex, span := span } }] }
          owner t.methods.length := by
  let t' := t.addMethod owner name returnType declIndex span
  have hlen : t'.methods.length = t.methods.length + 1 := List.length_append
  have hnew := methodAt_addMethod t owner name returnType declIndex span
  have hmethods : t'.registry.methods
      = t.registry.methods ++ [t'.methodEntry t.methods.length] := by
    show (List.range t'.methods.length).map _ = _
    rw [hlen]
    refine (map_range_concat (fun m hm => ?_) rfl).symm
    have hold : t'.methodAt m = t.methodAt m := getD_of_isPrefix (List.prefix_append _ _) hm _
    unfold methodEntry paramsOf
    rw [hold]
    rfl
  have hentry : t'.methodEntry t.methods.length
      = { id := t.methods.length
          symbol := { owner := owner, name := name, returnTypeName := returnType,
                      returnType := if returnType.isSome then none else some .void,
                      scope := t.scopes.length, declIndex := declIndex, span := span } } := by
    have hparams : t'.paramsOf t.methods.length = [] := by
      unfold paramsOf
      rw [hnew]
      exact hf.positions_vars_eq_nil fun v hv => beq_iff_eq.mp (Bool.and_eq_true_iff.mp hv).1
    unfold methodEntry
    rw [hnew, hparams]
  have hclasses : t.registry.classes.modify owner
      (fun e => { e with methods := e.methods ++ [t.methods.length] }) = t'.registry.classes := by
    refine modify_map_range (fun _ => ?_) fun c _ hc => ?_
    · unfold classEntry
      rw [methodsOf_addMethod]
      rfl
    · have hother : t'.methodsOf c = t.methodsOf c := by
        show positions _ (t.methods ++ [_]) = _
        rw [positions_concat, beq_eq_false_iff_ne.mpr hc.symm]
        exact List.append_nil _
      unfold classEntry
      rw [hother]
      rfl
  exact Registry.ext hclasses.symm
    (hmethods.trans (congrArg (t.registry.methods ++ [·]) hentry)) rfl rfl rfl

omit hf in
/-- **Adding a variable** to the registry and to its scope. -/
theorem registry_addVar (v : VarSymbol) :
    (t.addVar v).registry
      = { t.registry with
          classes := (t.addVar v).registry.classes
          methods := (t.addVar v).registry.methods
          vars := t.registry.vars ++ [{ id := t.vars.length, symbol := v }]
          scopes := t.registry.scopes.set v.scope
            { t.scopeEntry v.scope with
              names := (v.name, t.vars.length) :: (t.scopeEntry v.scope).names
              vars := t.varsIn v.scope ++ [t.vars.length] } } := by
  let t' := t.addVar v
  have hlen : t'.vars.length = t.vars.length + 1 := List.length_append
  have hold : ∀ w < t.vars.length, t'.varAt w = t.varAt w := fun w hw =>
    getD_of_isPrefix (List.prefix_append _ _) hw _
  have hnew : t'.varAt t.vars.length = v := getD_of_eq_some List.getElem?_concat_length _
  have hvars : t.registry.vars ++ [{ id := t.vars.length, symbol := v }] = t'.registry.vars := by
    show _ = (List.range t'.vars.length).map _
    rw [hlen]
    refine map_range_concat (fun w hw => ?_) ?_
    · unfold varEntry
      rw [hold w hw]
    · unfold varEntry
      rw [hnew]
  have hnames : ∀ s, ((t.varsIn s).map fun w => ((t'.varAt w).name, w))
      = (t.varsIn s).map fun w => ((t.varAt w).name, w) := fun s =>
    List.map_congr_left fun w hw => by rw [hold w (mem_varsIn.mp hw).1]
  have hscopes : t.registry.scopes.set v.scope
      { t.scopeEntry v.scope with
        names := (v.name, t.vars.length) :: (t.scopeEntry v.scope).names
        vars := t.varsIn v.scope ++ [t.vars.length] } = t'.registry.scopes := by
    refine set_map_range (fun _ => ?_) fun s _ hs => ?_
    · unfold scopeEntry
      rw [varsIn_addVar, if_pos rfl, List.map_append, hnames, List.map_singleton, hnew,
        List.reverse_append]
      rfl
    · unfold scopeEntry
      rw [varsIn_addVar, if_neg hs.symm, List.append_nil, hnames]
      rfl
  exact Registry.ext rfl rfl hvars.symm hscopes.symm rfl

end Additions

/-! ### What a new variable is listed in -/

/-- What is no field is listed in no class. -/
theorem classes_addVar {v : VarSymbol} (hv : v.kind ≠ .field) :
    (t.addVar v).registry.classes = t.registry.classes := by
  refine List.map_congr_left fun c _ => ?_
  unfold classEntry
  rw [fieldsOf_addVar, if_neg fun h => hv h.2, List.append_nil]
  rfl

/-- What is no parameter is listed in no method. -/
theorem methods_addVar {v : VarSymbol} (hv : v.kind.isParam = false) :
    (t.addVar v).registry.methods = t.registry.methods := by
  refine List.map_congr_left fun m _ => ?_
  unfold methodEntry
  rw [paramsOf_addVar, if_neg fun h => Bool.false_ne_true (hv.symm.trans h.2),
    List.append_nil]
  rfl

section Listing

variable (hf : Formed t)
include hf

/-- **A field is listed in its class**, and in no other. -/
theorem listField_addVar {v : VarSymbol} {owner : ClassId} (howner : owner < t.classes.length)
    (hscope : v.scope = (t.classAt owner).scope) (hkind : v.kind = .field) :
    t.registry.classes.modify owner (fun e => { e with fields := e.fields ++ [t.vars.length] })
      = (t.addVar v).registry.classes := by
  refine modify_map_range (fun _ => ?_) fun c hc hne => ?_
  · unfold classEntry
    rw [fieldsOf_addVar, if_pos ⟨hscope, hkind⟩]
    rfl
  · unfold classEntry
    rw [fieldsOf_addVar, if_neg fun h => hne (hf.class_of_scope hc howner (h.1.symm.trans hscope)),
      List.append_nil]
    rfl

/-- **A parameter is listed in its method**, and in no other. -/
theorem listParam_addVar {v : VarSymbol} {method : MethodId} (hmethod : method < t.methods.length)
    (hscope : v.scope = (t.methodAt method).scope) (hkind : v.kind.isParam = true) :
    t.registry.methods.modify method (fun e => { e with params := e.params ++ [t.vars.length] })
      = (t.addVar v).registry.methods := by
  refine modify_map_range (fun _ => ?_) fun m hm hne => ?_
  · unfold methodEntry
    rw [paramsOf_addVar, if_pos ⟨hscope, hkind⟩]
    rfl
  · unfold methodEntry
    have hother : v.scope ≠ (t.methodAt m).scope := fun h =>
      hne (hf.method_of_scope hm hmethod (h.symm.trans hscope))
    rw [paramsOf_addVar, if_neg fun h => hother h.1, List.append_nil]
    rfl

end Listing

/-! ## The operations -/

/-- **An answer of a table as an answer of its registry.** A refusal leaves the registry as it
was. -/
def answered (t : SymbolTable) : Except Issue (Nat × SymbolTable) → Except Issue Nat × Registry
  | .ok (i, t') => (.ok i, t'.registry)
  | .error issue => (.error issue, t.registry)

section Operations

variable (hf : Formed t)
include hf

theorem declareClass_registry (name : String) (parents : List Ident) (declIndex : Nat)
    (span : Span) :
    t.registry.declareClass name parents declIndex span
      = t.answered (t.declareClass name parents declIndex span) := by
  unfold Registry.declareClass declareClass
  rw [registry_lookupClass hf]
  cases hfound : t.lookupClass name with
  | some c =>
    dsimp only [answered]
    rw [registry_classAt_symbol]
  | none =>
    dsimp only [answered]
    rw [registry_addClass hf, openScope_registry hf, registry_classes_length]
    rfl

theorem declareMethod_registry {owner : ClassId} (howner : owner < t.classes.length)
    (name : String) (returnType : Option Ident) (declIndex : Nat) (span : Span) :
    t.registry.declareMethod owner name returnType declIndex span
      = t.answered (t.declareMethod owner name returnType declIndex span) := by
  unfold Registry.declareMethod declareMethod
  rw [registry_memberSpan? hf howner]
  cases hfound : t.memberSpan? owner name with
  | some first => rfl
  | none =>
    dsimp only [answered]
    rw [registry_addMethod hf, openScope_registry hf, registry_methods_length,
      registry_classAt howner]
    rfl

/-- A variable is declared first without being listed in the class or method that it belongs
to. -/
theorem declareVar_registry {v : VarSymbol} (hscope : v.scope < t.scopes.length) :
    t.registry.declareVar v = match t.declareVar v with
      | .ok (i, t') =>
        (.ok i, { t'.registry with
          classes := t.registry.classes, methods := t.registry.methods })
      | .error issue => (.error issue, t.registry) := by
  unfold Registry.declareVar declareVar ScopeEntry.insert
  rw [registry_scopeAt hscope, scopeEntry_lookup hf]
  cases hfound : t.lookupIn v.scope v.name with
  | some w =>
    -- The scope is put back as it was.
    have hback : t.registry.scopes.set v.scope (t.scopeEntry v.scope) = t.registry.scopes :=
      set_map_range (fun _ => rfl) fun _ _ _ => rfl
    dsimp only
    rw [hback]
    show (Except.error (Issue.duplicate _ _ (t.registry.varAt w).symbol.span _), _) = _
    rw [registry_varAt_symbol]
  | none =>
    show (Except.ok _, _) = (Except.ok _, _)
    rw [registry_vars_length, registry_addVar]
    rfl

/-- A variable that is listed where it belongs once it is declared. -/
theorem andList_declareVar {v : VarSymbol} (hscope : v.scope < t.scopes.length)
    {list : Registry → VarId → Registry}
    (hlist : list { (t.addVar v).registry with
        classes := t.registry.classes, methods := t.registry.methods } t.vars.length
      = (t.addVar v).registry) :
    Registry.andList (t.registry.declareVar v) list = t.answered (t.declareVar v) := by
  rw [declareVar_registry hf hscope]
  unfold declareVar
  cases t.lookupIn v.scope v.name with
  | some w => rfl
  | none => exact Prod.ext rfl hlist

theorem declareField_registry {owner : ClassId} (howner : owner < t.classes.length)
    (name : String) (type : Ident) (span : Span) :
    t.registry.declareField owner name type span
      = t.answered (t.declareField owner name type span) := by
  unfold Registry.declareField declareField
  rw [registry_memberSpan? hf howner, registry_classAt howner]
  cases t.memberSpan? owner name with
  | some first => rfl
  | none =>
    refine andList_declareVar hf (hf.classAt_scope_lt howner) ?_
    exact Registry.ext (listField_addVar hf howner rfl rfl) (methods_addVar rfl).symm rfl rfl rfl

theorem declareReceiver_registry {method : MethodId} (hmethod : method < t.methods.length)
    (name : String) (span : Span) :
    t.registry.declareReceiver method name span
      = t.answered (t.declareReceiver method name span) := by
  unfold Registry.declareReceiver declareReceiver
  rw [registry_methodAt hmethod]
  refine andList_declareVar hf (hf.methodAt_scope_lt hmethod) ?_
  exact Registry.ext (classes_addVar VarKind.noConfusion).symm (listParam_addVar hf hmethod rfl rfl)
    rfl rfl rfl

theorem declareParam_registry {method : MethodId} (hmethod : method < t.methods.length)
    (name : String) (type : Ident) (span : Span) :
    t.registry.declareParam method name type span
      = t.answered (t.declareParam method name type span) := by
  unfold Registry.declareParam declareParam
  rw [registry_methodAt hmethod]
  refine andList_declareVar hf (hf.methodAt_scope_lt hmethod) ?_
  exact Registry.ext (classes_addVar VarKind.noConfusion).symm (listParam_addVar hf hmethod rfl rfl)
    rfl rfl rfl

theorem declareLocal_registry {scope : ScopeId} (hscope : scope < t.scopes.length)
    (name : String) (type : Ident) (span : Span) :
    t.registry.declareLocal scope name type span
      = t.answered (t.declareLocal scope name type span) := by
  unfold Registry.declareLocal declareLocal
  rw [declareVar_registry hf hscope]
  unfold declareVar
  cases t.lookupIn scope name with
  | some w => rfl
  | none =>
    exact Prod.ext rfl (Registry.ext (classes_addVar VarKind.noConfusion).symm
      (methods_addVar rfl).symm rfl rfl rfl)

theorem openBlock_registry {scope : ScopeId} (hscope : scope < t.scopes.length) :
    t.registry.openBlock scope = ((t.openBlock scope).1, (t.openBlock scope).2.registry) := by
  unfold Registry.openBlock
  rw [openScope_registry hf, registry_scopeAt hscope]
  rfl

end Operations

end SymbolTable

end Heritage
