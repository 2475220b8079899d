import Heritage.Proofs.FirstOccurrences
import Heritage.Proofs.Owners
import Heritage.Proofs.Renaming
import Heritage.Proofs.Resolvable

/-!
# Resolving tables whose symbols stand elsewhere

Resolution looks at positions only to follow them. So a table whose symbols are
among those of another resolves as the other does, if the words that are written
in it are read alike in both (`ReadAlike`): types, parents, broken classes,
linearizations and members are the same up to the renaming. What was written
nowhere in the smaller table does not matter.

Renamed tables have the same words, and there what is found wrong is the same
too, in another order.
-/

namespace Heritage

open SymbolTable

theorem Renaming.ne_void_comp (σ : Renaming) :
    (fun a : Ty => a != .void) ∘ σ.ty = fun a => a != .void := by
  funext a
  cases a <;> rfl

theorem Renaming.ofKeyword?_map (σ : Renaming) (name : String) :
    (Ty.ofKeyword? name).map σ.ty = Ty.ofKeyword? name := by
  unfold Ty.ofKeyword?
  split
  · rfl
  · split
    · rfl
    · rfl

namespace SymbolTable

/-- **A table whose symbols are among those of another, with its words read alike**: the
parents and types that are written in it are looked up to the same in both. -/
structure ReadAlike (σ : Renaming) (t t' : SymbolTable) : Prop extends Embedded σ t t' where
  /-- Nothing is resolved yet. -/
  fresh : t.Fresh
  /-- Nothing is resolved yet. -/
  fresh' : t'.Fresh
  /-- The written parents. -/
  parents : ∀ c, ∀ q ∈ (t.classAt c).parents,
    t'.lookupClass q.text = (t.lookupClass q.text).map σ.cls
  /-- The written types of the variables that have none yet. -/
  varTypes : ∀ v ∈ t.vars, v.type = none → ∀ w, v.typeName = some w →
    t'.resolveType w.text = (t.resolveType w.text).map σ.ty
  /-- The written return types. -/
  returnTypes : ∀ m ∈ t.methods, ∀ w, m.returnTypeName = some w →
    t'.resolveType w.text = (t.resolveType w.text).map σ.ty

/-- A word is looked up to a type as it is looked up to a class. -/
theorem resolveType_map {σ : Renaming} {t t' : SymbolTable} {name : String}
    (h : t'.lookupClass name = (t.lookupClass name).map σ.cls) :
    t'.resolveType name = (t.resolveType name).map σ.ty := by
  unfold SymbolTable.resolveType
  rw [h, Option.map_or, σ.ofKeyword?_map, Option.map_map, Option.map_map]
  rfl

/-- A word stands for the renamed type. -/
theorem Renamed.resolveType {σ : Renaming} {t t' : SymbolTable} (h : Renamed σ t t')
    (hf : Formed t) (name : String) : t'.resolveType name = (t.resolveType name).map σ.ty :=
  resolveType_map (h.lookupClass hf name)

/-- In renamed tables all words are read alike. -/
theorem Renamed.readAlike {σ : Renaming} {t t' : SymbolTable} (h : Renamed σ t t')
    (hf : Formed t) (ht : t.Fresh) (ht' : t'.Fresh) : ReadAlike σ t t' where
  toEmbedded := h.embedded
  fresh := ht
  fresh' := ht'
  parents _ q _ := h.lookupClass hf q.text
  varTypes _ _ _ w _ := h.resolveType hf w.text
  returnTypes _ _ w _ := h.resolveType hf w.text

section Types

variable {σ : Renaming} {t t' : SymbolTable} (h : ReadAlike σ t t')
include h

/-! ## Types -/

/-- A variable is given the renamed type. -/
theorem ReadAlike.resolvedVarType {v : VarSymbol} (hv : v ∈ t.vars) :
    t'.resolvedVarType (σ.varSymbol v) = (t.resolvedVarType v).map σ.ty := by
  unfold SymbolTable.resolvedVarType
  dsimp only [Renaming.varSymbol]
  cases htype : v.type with
  | some τ => rfl
  | none =>
    rw [Option.map_none, Option.none_or, Option.none_or]
    cases hw : v.typeName with
    | none => rfl
    | some written =>
      show (t'.resolveType written.text).filter _ = ((t.resolveType written.text).filter _).map _
      rw [h.varTypes v hv htype written hw, Option.filter_map, Renaming.ne_void_comp]

/-- A method is given the renamed type. -/
theorem ReadAlike.resolvedReturnType {m : MethodSymbol} (hm : m ∈ t.methods) :
    t'.resolvedReturnType (σ.methodSymbol m) = (t.resolvedReturnType m).map σ.ty := by
  unfold SymbolTable.resolvedReturnType
  dsimp only [Renaming.methodSymbol]
  cases hw : m.returnTypeName with
  | none => rfl
  | some written =>
    show (t'.resolveType written.text).or _ = ((t.resolveType written.text).or _).map _
    rw [h.returnTypes m hm written hw, Option.map_or]

/-- **The symbols stay among those of the other table** when both are resolved. -/
theorem ReadAlike.resolve : Embedded σ t.resolve.table t'.resolve.table where
  classes := by
    have hdeclared : ∀ u : SymbolTable,
        u.resolve.table.classes.map ClassSymbol.declared = u.classes.map ClassSymbol.declared :=
      fun u => congrArg SymbolTable.classes (resolve_declared u)
    have hmap : Embeds σ.cls σ.SameClass (fun _ _ => False) (fun _ => True)
        (t.resolve.table.classes.map ClassSymbol.declared)
        (t'.resolve.table.classes.map ClassSymbol.declared) := by
      rw [hdeclared, hdeclared]
      exact h.classes.map (fun _ => id) id id
    exact hmap.of_map id id id
  methods := by
    rw [resolve_methods, resolve_methods]
    refine h.methods.map ?_ id id
    rintro m _ hm rfl
    rw [h.resolvedReturnType hm]
    rfl
  vars := by
    rw [resolve_vars, resolve_vars]
    refine h.vars.map ?_ id id
    rintro v _ hv rfl
    rw [h.resolvedVarType hv]
    rfl
  scopes := by
    rw [scopes_of_declared (resolve_declared t), scopes_of_declared (resolve_declared t')]
    exact h.scopes

/-! ## Parents -/

theorem ReadAlike.knownParents (c : ClassId) :
    t'.knownParents (t'.classAt (σ.cls c)) = (t.knownParents (t.classAt c)).map σ.cls := by
  unfold SymbolTable.knownParents
  rw [← eraseDups_map σ.cls_injective, List.map_filterMap, (h.classAt c).2.1]
  exact congrArg List.eraseDups (List.filterMap_congr (h.parents c))

theorem ReadAlike.missing_iff {c : ClassId} : t'.Missing (σ.cls c) ↔ t.Missing c := by
  unfold Missing
  rw [(h.classAt c).2.1]
  refine exists_congr fun q => and_congr_right fun hq => ?_
  rw [h.parents c q hq, Option.map_eq_none_iff]

/-- **The parents of a class are the renamed ones, in the same order.** -/
theorem ReadAlike.parented_parents (c : ClassId) :
    (t'.parented.classAt (σ.cls c)).resolvedParents
      = (t.parented.classAt c).resolvedParents.map σ.cls := by
  rw [parented_classAt, parented_classAt]
  exact h.knownParents c

end Types

/-! ## Ancestors -/

/-- What a class reaches in a graph that is renamed was reached before. -/
theorem exists_of_ancestor_renamed {σ : Renaming} {u u' : SymbolTable}
    (hparents : ∀ c, (u'.classAt (σ.cls c)).resolvedParents
      = (u.classAt c).resolvedParents.map σ.cls) {c b : ClassId} (h : u'.Ancestor (σ.cls c) b) :
    ∃ a, b = σ.cls a ∧ u.Ancestor c a := by
  have hparent : ∀ {c b : ClassId}, u'.Parent (σ.cls c) b → ∃ a, b = σ.cls a ∧ u.Parent c a := by
    intro c b hb
    unfold Parent at hb
    rw [hparents] at hb
    obtain ⟨a, ha, rfl⟩ := List.mem_map.mp hb
    exact ⟨a, rfl, ha⟩
  induction h with
  | single hb =>
    obtain ⟨a, rfl, ha⟩ := hparent hb
    exact ⟨a, rfl, .single ha⟩
  | tail _ hb ih =>
    obtain ⟨d, rfl, hd⟩ := ih
    obtain ⟨a, rfl, ha⟩ := hparent hb
    exact ⟨a, rfl, hd.tail ha⟩

/-- A class has the renamed ancestors, if all have the renamed parents. -/
theorem ancestor_renamed_iff {σ : Renaming} {u u' : SymbolTable}
    (hparents : ∀ c, (u'.classAt (σ.cls c)).resolvedParents
      = (u.classAt c).resolvedParents.map σ.cls) {c a : ClassId} :
    u'.Ancestor (σ.cls c) (σ.cls a) ↔ u.Ancestor c a := by
  constructor
  · intro h
    obtain ⟨b, hb, hcb⟩ := exists_of_ancestor_renamed hparents h
    exact σ.cls_injective hb ▸ hcb
  · refine fun h => Relation.TransGen.lift σ.cls (fun d b hb => ?_) _ _ h
    show σ.cls b ∈ (u'.classAt (σ.cls d)).resolvedParents
    rw [hparents]
    exact List.mem_map_of_mem hb

/-- What holds of an ancestor in both graphs. -/
theorem exists_ancestor_renamed_iff {σ : Renaming} {u u' : SymbolTable}
    (hparents : ∀ c, (u'.classAt (σ.cls c)).resolvedParents
      = (u.classAt c).resolvedParents.map σ.cls) {P P' : ClassId → Prop}
    (hP : ∀ a, P' (σ.cls a) ↔ P a) {c : ClassId} :
    (∃ b, u'.Ancestor (σ.cls c) b ∧ P' b) ↔ ∃ a, u.Ancestor c a ∧ P a := by
  constructor
  · rintro ⟨b, hb, hPb⟩
    obtain ⟨a, rfl, ha⟩ := exists_of_ancestor_renamed hparents hb
    exact ⟨a, ha, (hP a).mp hPb⟩
  · rintro ⟨a, ha, hPa⟩
    exact ⟨σ.cls a, (ancestor_renamed_iff hparents).mpr ha, (hP a).mpr hPa⟩

section Graph

variable {σ : Renaming} {t t' : SymbolTable} (h : ReadAlike σ t t')
include h

theorem ReadAlike.defective_iff {c : ClassId} : t'.Defective (σ.cls c) ↔ t.Defective c := by
  unfold Defective
  rw [h.missing_iff, ancestor_renamed_iff h.parented_parents]

theorem ReadAlike.isCyclic (c : ClassId) :
    t'.ancestry.isCyclic (σ.cls c) = t.ancestry.isCyclic c := by
  rw [Bool.eq_iff_iff, isCyclic_ancestry_iff, isCyclic_ancestry_iff,
    ancestor_renamed_iff h.parented_parents]

theorem ReadAlike.isTainted (c : ClassId) :
    t'.cycled.isTainted t'.ancestry (σ.cls c) = t.cycled.isTainted t.ancestry c := by
  rw [Bool.eq_iff_iff, h.fresh.isTainted_iff, h.fresh'.isTainted_iff, h.defective_iff,
    exists_ancestor_renamed_iff h.parented_parents fun a => h.defective_iff]

/-- **A class is broken in both tables or in neither.** What breaks it is itself or an ancestor, and
its ancestors are the renamed ones. -/
theorem ReadAlike.broken_iff {c : ClassId} :
    t'.resolve.table.Broken (σ.cls c) ↔ t.resolve.table.Broken c := by
  rw [h.fresh.resolve_broken_tainted, h.fresh'.resolve_broken_tainted, h.fresh.tainted_broken_iff,
    h.fresh'.tainted_broken_iff, h.defective_iff,
    exists_ancestor_renamed_iff h.parented_parents fun a => h.defective_iff]

theorem ReadAlike.resolve_parents (c : ClassId) :
    (t'.resolve.table.classAt (σ.cls c)).resolvedParents
      = (t.resolve.table.classAt c).resolvedParents.map σ.cls := by
  rw [h.fresh.resolve_parents, h.fresh'.resolve_parents, h.parented_parents]

theorem ReadAlike.isSubclassOf (c a : ClassId) :
    t'.ancestry.isSubclassOf (σ.cls c) (σ.cls a) = t.ancestry.isSubclassOf c a := by
  rw [Bool.eq_iff_iff, h.fresh.isSubclassOf_iff, h.fresh'.isSubclassOf_iff, σ.cls_injective.ne_iff,
    ancestor_renamed_iff h.resolve_parents]

/-- No class stands behind the last one, in either table. -/
theorem ReadAlike.classAt_of_le {c : ClassId} (hc : t.classes.length ≤ c) :
    t.resolve.table.classAt c = default ∧ t'.resolve.table.classAt (σ.cls c) = default :=
  ⟨SymbolTable.classAt_of_le (t.resolve_length ▸ hc),
    SymbolTable.classAt_of_le (t'.resolve_length ▸ h.classes.behind c hc)⟩

/-! ## Linearizations -/

/-- **The linearization of a class is the renamed one.** -/
theorem ReadAlike.linearization (c : ClassId) :
    t'.resolve.table.linearization (σ.cls c) = (t.resolve.table.linearization c).map σ.cls := by
  by_cases hc : c < t.classes.length
  · -- From parents to children. A class that is broken is listed alone in both tables.
    refine h.fresh.induction (P := fun c => t'.resolve.table.linearization (σ.cls c)
      = (t.resolve.table.linearization c).map σ.cls) (fun c hc ih => ?_) hc
    by_cases hb : t.resolve.table.Broken c
    · rw [h.fresh.linearization_of_broken hb,
        h.fresh'.linearization_of_broken (h.broken_iff.mpr hb)]
      rfl
    · have hb' := mt h.broken_iff.mp hb
      rw [h.fresh.linearization_eq hc hb,
        h.fresh'.linearization_eq (h.classes.lt_iff.mpr hc) hb', ← eraseDups_map σ.cls_injective,
        h.resolve_parents, List.flatMap_map, List.map_cons, List.map_flatMap]
      refine congrArg (fun l => (σ.cls c :: l).eraseDups) ?_
      rw [List.flatMap_def, List.flatMap_def]
      exact congrArg List.flatten (List.map_congr_left fun a ha => ih hb a ha)
  · obtain ⟨hat, hat'⟩ := h.classAt_of_le (Nat.le_of_not_lt hc)
    unfold SymbolTable.linearization
    rw [hat, hat']
    rfl

end Graph

end SymbolTable

/-! ## Members -/

/-- Members. -/
def Renaming.members (σ : Renaming) (m : Members) : Members where
  methods := m.methods.map (Prod.map id σ.method)
  fields := m.fields.map (Prod.map id σ.var)
  ambiguous := m.ambiguous

theorem lookup_map_snd {α β : Type} (f : α → β) (l : List (String × α)) (name : String) :
    (l.map (Prod.map id f)).lookup name = (l.lookup name).map f := by
  induction l with
  | nil => rfl
  | cons x rest ih =>
    rw [List.map_cons, List.lookup_cons, List.lookup_cons, ih]
    show (match name == x.1 with
      | true => some (f x.2)
      | false => (rest.lookup name).map f) = _
    cases name == x.1 <;> rfl

/-- The ancestors that declare a member. -/
theorem declaringAncestors_map {α β : Type} {f : ClassId → ClassId} {g : α → β}
    {d : ClassId → Option α} {d' : ClassId → Option β} (hd : ∀ c, d' (f c) = (d c).map g)
    (l : List ClassId) :
    declaringAncestors (l.map f) d' = (declaringAncestors l d).map (Prod.map f g) := by
  unfold declaringAncestors
  rw [← List.map_drop, List.filterMap_map, List.map_filterMap]
  refine List.filterMap_congr fun c _ => ?_
  show (d' (f c)).map _ = _
  rw [hd, Option.map_map, Option.map_map]
  rfl

/-- The most derived among renamed classes are the renamed ones. -/
theorem mostDerived_map {α β : Type} {G G' : Ancestry} {f : ClassId → ClassId} {g : α → β}
    (hG : ∀ c a, G'.isSubclassOf (f c) (f a) = G.isSubclassOf c a) (cs : List (ClassId × α)) :
    G'.mostDerived (cs.map (Prod.map f g)) = (G.mostDerived cs).map (Prod.map f g) := by
  unfold Ancestry.mostDerived
  rw [List.filter_map]
  refine congrArg (List.map _) (List.filter_congr fun x _ => congrArg (!·) ?_)
  rw [List.any_map]
  exact congrArg (cs.any ·) (funext fun y => hG y.1 x.1)

namespace SymbolTable

section Embedded

variable {σ : Renaming} {t t' : SymbolTable} (h : Embedded σ t t')
include h

theorem Embedded.methodNames (l : List ClassId) :
    t'.methodNames (l.map σ.cls) = t.methodNames l := by
  unfold SymbolTable.methodNames
  rw [List.flatMap_map]
  simp only [h.methodsOf, List.map_map]
  refine congrArg (fun f => (l.flatMap f).eraseDups) (funext fun c => ?_)
  exact List.map_congr_left fun m _ => h.methodAt_name m

theorem Embedded.fieldNames (l : List ClassId) :
    t'.fieldNames (l.map σ.cls) = t.fieldNames l := by
  unfold SymbolTable.fieldNames
  rw [List.flatMap_map]
  simp only [h.fieldsOf, List.map_map]
  refine congrArg (fun f => (l.flatMap f).eraseDups) (funext fun c => ?_)
  exact List.map_congr_left fun v _ => h.varAt_name v

theorem Embedded.explicitParams (m : MethodId) :
    t'.explicitParams (σ.method m) = (t.explicitParams m).map σ.var := by
  unfold SymbolTable.explicitParams
  rw [h.paramsOf, List.map_drop]

theorem Embedded.paramTypes (m : MethodId) :
    t'.paramTypes (σ.method m) = (t.paramTypes m).map (Option.map σ.ty) := by
  unfold SymbolTable.paramTypes
  rw [h.explicitParams, List.map_map, List.map_map]
  exact List.map_congr_left fun v _ => h.varAt_type v

/-- Two methods agree in both tables or in neither. -/
theorem Embedded.sameSignature (a b : MethodId) :
    t'.sameSignature (σ.method a) (σ.method b) = t.sameSignature a b := by
  have hty := Option.map_injective σ.ty_injective
  rw [Bool.eq_iff_iff, sameSignature_iff, sameSignature_iff, h.methodAt_returnType,
    h.methodAt_returnType, h.paramTypes, h.paramTypes, hty.eq_iff,
    (List.map_injective_iff.mpr hty).eq_iff]

theorem Embedded.agreedMethod? (cs : List (ClassId × MethodId)) :
    t'.agreedMethod? (cs.map (Prod.map σ.cls σ.method)) = (t.agreedMethod? cs).map σ.method := by
  cases cs with
  | nil => rfl
  | cons first rest =>
    have hall : (((first :: rest).map (Prod.map σ.cls σ.method)).all fun other =>
        t'.sameSignature (σ.method first.2) other.2)
        = (first :: rest).all fun other => t.sameSignature first.2 other.2 := by
      rw [List.all_map]
      exact congrArg ((first :: rest).all ·) (funext fun x => h.sameSignature first.2 x.2)
    show (if ((first :: rest).map (Prod.map σ.cls σ.method)).all fun other =>
        t'.sameSignature (σ.method first.2) other.2 then some (σ.method first.2)
      else none) = (if (first :: rest).all _ then some first.2 else none).map _
    rw [hall]
    split
    · rfl
    · rfl

/-- A class declares the renamed members. -/
theorem Embedded.ownMembers (c : ClassId) :
    t'.ownMembers (σ.cls c) = σ.members (t.ownMembers c) := by
  unfold SymbolTable.ownMembers Renaming.members
  rw [h.methodsOf, h.fieldsOf, List.map_map, List.map_map, List.map_map, List.map_map]
  congr 1
  · exact List.map_congr_left fun m _ => congrArg (·, σ.method m) (h.methodAt_name m)
  · exact List.map_congr_left fun v _ => congrArg (·, σ.var v) (h.varAt_name v)

end Embedded

section Flat

variable {σ : Renaming} {t t' : SymbolTable} (h : ReadAlike σ t t')
include h

theorem ReadAlike.methodCandidates (c : ClassId) (name : String) :
    t'.resolve.table.methodCandidates t'.ancestry (σ.cls c) name
      = (t.resolve.table.methodCandidates t.ancestry c name).map
          (Prod.map σ.cls σ.method) := by
  unfold SymbolTable.methodCandidates
  rw [h.linearization, declaringAncestors_map fun a =>
    h.resolve.declaredMethod a name, mostDerived_map (h.isSubclassOf)]

theorem ReadAlike.fieldCandidates (c : ClassId) (name : String) :
    t'.resolve.table.fieldCandidates t'.ancestry (σ.cls c) name
      = (t.resolve.table.fieldCandidates t.ancestry c name).map (Prod.map σ.cls σ.var) := by
  unfold SymbolTable.fieldCandidates
  rw [h.linearization, declaringAncestors_map fun a =>
    h.resolve.declaredField a name, mostDerived_map (h.isSubclassOf)]

theorem ReadAlike.flatMethod? (c : ClassId) (name : String) :
    t'.resolve.table.flatMethod? t'.ancestry (σ.cls c) name
      = (t.resolve.table.flatMethod? t.ancestry c name).map σ.method := by
  unfold SymbolTable.flatMethod?
  rw [h.resolve.declaredMethod, h.methodCandidates, h.resolve.agreedMethod?]
  cases t.resolve.table.declaredMethod c name <;> rfl

theorem ReadAlike.flatField? (c : ClassId) (name : String) :
    t'.resolve.table.flatField? t'.ancestry (σ.cls c) name
      = (t.resolve.table.flatField? t.ancestry c name).map σ.var := by
  unfold SymbolTable.flatField?
  rw [h.resolve.declaredField, h.fieldCandidates, List.head?_map, Option.map_map]
  cases t.resolve.table.declaredField c name with
  | some own => rfl
  | none =>
    show Option.map _ _ = Option.map _ (Option.map _ _)
    rw [Option.map_map]
    rfl

/-- **The members that a class inherits are the renamed ones**, and the same names are ambiguous. -/
theorem ReadAlike.flatMembers (c : ClassId) :
    t'.resolve.table.flatMembers t'.ancestry (σ.cls c)
      = σ.members (t.resolve.table.flatMembers t.ancestry c) := by
  unfold SymbolTable.flatMembers Renaming.members
  rw [h.linearization, h.resolve.methodNames, h.resolve.fieldNames,
    List.map_filterMap, List.map_filterMap]
  simp only [h.flatMethod?, h.flatField?, Option.map_map, Option.isNone_map]
  rfl

/-- A broken class has its own members, any other the inherited ones too; in both cases they are the
renamed ones. -/
theorem ReadAlike.members (c : ClassId) :
    (t'.resolve.table.classAt (σ.cls c)).members
      = σ.members (t.resolve.table.classAt c).members := by
  by_cases hc : c < t.classes.length
  · by_cases hb : t.resolve.table.Broken c
    · rw [h.fresh.members_of_broken hb, h.fresh'.members_of_broken (h.broken_iff.mpr hb),
        h.resolve.ownMembers]
    · rw [h.fresh.members_of_not_broken hc hb,
        h.fresh'.members_of_not_broken (h.classes.lt_iff.mpr hc) (mt h.broken_iff.mp hb),
        h.flatMembers]
  · obtain ⟨hat, hat'⟩ := h.classAt_of_le (Nat.le_of_not_lt hc)
    rw [hat, hat']
    rfl

/-! ## Ambiguities -/

/-- An ambiguity is reported by the names of classes and the place of one, which stay. -/
theorem ReadAlike.ambiguity (c : ClassId) (name : String) :
    t'.resolve.table.ambiguity t'.ancestry (σ.cls c) name
      = t.resolve.table.ambiguity t.ancestry c name := by
  have hnames : ((t.resolve.table.methodCandidates t.ancestry c name).map
        (Prod.map σ.cls σ.method)).map
        (fun x => (t'.resolve.table.classAt x.1).name ++ "." ++ name)
      = (t.resolve.table.methodCandidates t.ancestry c name).map
        fun x => (t.resolve.table.classAt x.1).name ++ "." ++ name := by
    rw [List.map_map]
    exact List.map_congr_left fun x _ =>
      congrArg (· ++ "." ++ name) (h.resolve.classAt x.1).1
  obtain ⟨hname, -, hspan, -⟩ := h.resolve.classAt c
  unfold SymbolTable.ambiguity
  rw [h.methodCandidates, hnames, hname, hspan]

theorem ReadAlike.ambiguitiesOf (c : ClassId) :
    t'.resolve.table.ambiguitiesOf t'.ancestry (σ.cls c)
      = t.resolve.table.ambiguitiesOf t.ancestry c := by
  have hinherits : ∀ name, t'.resolve.table.inheritsAmbiguity (σ.cls c) name
      = t.resolve.table.inheritsAmbiguity c name := by
    intro name
    unfold inheritsAmbiguity
    rw [h.resolve_parents, List.any_map]
    refine congrArg (List.any _) (funext fun a => ?_)
    exact congrArg (·.isAmbiguous name) (h.members a)
  unfold SymbolTable.ambiguitiesOf
  rw [h.members, funext (h.ambiguity c)]
  simp only [hinherits]
  rfl

end Flat

/-! ## What is found wrong in renamed tables -/

section Issues

variable {σ : Renaming} {t t' : SymbolTable} (h : Renamed σ t t') (hf : Formed t)
include h

/-- The classes of both tables that pass a test, read off in any order. -/
theorem Renamed.classIds_filter_map_perm {α : Type} {p q : ClassId → Bool} {f g : ClassId → α}
    (hpq : ∀ c, q (σ.cls c) = p c) (hfg : ∀ c, g (σ.cls c) = f c) :
    ((t.classIds.filter p).map f).Perm ((t'.classIds.filter q).map g) := by
  have hperm := ((h.classes.range_perm σ.cls_injective).filter q).map g
  rw [List.filter_map, List.map_map] at hperm
  rw [show p = q ∘ σ.cls from funext fun c => (hpq c).symm,
    show f = g ∘ σ.cls from funext fun c => (hfg c).symm]
  exact hperm

/-- The classes that pass a test, as issues that name them. -/
theorem Renamed.classIssues_perm {u u' : SymbolTable} (hu : u.declared = t.declared)
    (hu' : u'.declared = t'.declared) {p q : ClassId → Bool} (hpq : ∀ c, q (σ.cls c) = p c)
    (issue : String → Span → Issue) :
    ((u.classIds.filter p).map fun c => issue (u.classAt c).name (u.classAt c).span).Perm
      ((u'.classIds.filter q).map fun c => issue (u'.classAt c).name (u'.classAt c).span) := by
  rw [classIds_of_declared hu, classIds_of_declared hu']
  refine h.classIds_filter_map_perm hpq fun c => ?_
  obtain ⟨hname, -, -, -, hspan⟩ := ClassSymbol.of_declared_eq (classAt_of_declared hu c)
  obtain ⟨hname', -, -, -, hspan'⟩ := ClassSymbol.of_declared_eq (classAt_of_declared hu' (σ.cls c))
  rw [hname, hspan, hname', hspan', (h.embedded.classAt c).1, (h.embedded.classAt c).2.2.1]

include hf

theorem Renamed.varTypeIssue? (v : VarSymbol) :
    t'.varTypeIssue? (σ.varSymbol v) = t.varTypeIssue? v := by
  obtain ⟨name, typeName, type, scope, kind, span⟩ := v
  cases type with
  | some ty => rfl
  | none =>
    cases typeName with
    | none => rfl
    | some written =>
      dsimp only [SymbolTable.varTypeIssue?, Renaming.varSymbol, Option.map_none]
      rw [h.resolveType hf]
      cases t.resolveType written.text with
      | none => rfl
      | some ty => cases ty <;> rfl

theorem Renamed.returnTypeIssue? (m : MethodSymbol) :
    t'.returnTypeIssue? (σ.methodSymbol m) = t.returnTypeIssue? m := by
  unfold SymbolTable.returnTypeIssue?
  dsimp only [Renaming.methodSymbol]
  cases m.returnTypeName with
  | none => rfl
  | some written =>
    show (if (t'.resolveType written.text).isNone then _ else none) = _
    rw [h.resolveType hf, Option.isNone_map]

/-- The same words stand for no type, in another order. -/
theorem Renamed.typeIssues_perm : t.typeIssues.Perm t'.typeIssues := by
  refine List.Perm.append ?_ ?_
  · refine h.vars.filterMap_perm σ.var_injective ?_
    rintro v _ rfl
    exact h.varTypeIssue? hf v
  · refine h.methods.filterMap_perm σ.method_injective ?_
    rintro m _ rfl
    exact h.returnTypeIssue? hf m

theorem Renamed.missingParents {k k' : ClassSymbol} (hk : σ.SameClass k k') :
    t'.missingParents k' = t.missingParents k := by
  unfold SymbolTable.missingParents
  rw [hk.2.1]
  simp only [h.lookupClass hf, Option.isNone_map]

theorem Renamed.parentIssues_perm :
    t.resolveTypes.parentIssues.Perm t'.resolveTypes.parentIssues := by
  refine h.classes.flatMap_perm σ.cls_injective fun {k k'} hk => ?_
  show (t'.missingParents k').map _ = (t.missingParents k).map _
  rw [h.missingParents hf hk, hk.1]

variable (ht : t.Fresh) (ht' : t'.Fresh)
include ht ht'

theorem Renamed.cycleIssues_perm :
    (t.parented.cycleIssues t.ancestry).Perm (t'.parented.cycleIssues t'.ancestry) :=
  h.classIssues_perm t.parented_declared t'.parented_declared (h.readAlike hf ht ht').isCyclic
    .cyclic

theorem Renamed.taintIssues_perm :
    (t.cycled.taintIssues t.ancestry).Perm (t'.cycled.taintIssues t'.ancestry) :=
  h.classIssues_perm t.cycled_declared t'.cycled_declared (h.readAlike hf ht ht').isTainted
    .unresolved

/-- The same ambiguities are reported, in another order. -/
theorem Renamed.ambiguities_perm :
    (t.resolve.table.ambiguities t.ancestry).Perm
      (t'.resolve.table.ambiguities t'.ancestry) := by
  have hclasses := h.classes.range_perm σ.cls_injective
  rw [← t.resolve_length, ← t'.resolve_length] at hclasses
  have horder : (t.resolve.table.resolutionOrder.map σ.cls).Perm
      t'.resolve.table.resolutionOrder :=
    ((ht.resolve_inside.resolutionOrder_perm.map σ.cls).trans hclasses).trans
      ht'.resolve_inside.resolutionOrder_perm.symm
  have hperm := horder.flatMap_right (t'.resolve.table.ambiguitiesOf t'.ancestry)
  rw [List.flatMap_map] at hperm
  unfold ambiguities
  rw [← funext (h.readAlike hf ht ht').ambiguitiesOf]
  exact hperm

/-- **Resolution finds the same wrong in renamed tables.** -/
theorem Renamed.resolve_issues_perm : t.resolve.issues.Perm t'.resolve.issues := by
  rw [resolve_issues, resolve_issues]
  exact ((((h.typeIssues_perm hf).append (h.parentIssues_perm hf)).append
    (h.cycleIssues_perm hf ht ht')).append (h.taintIssues_perm hf ht ht')).append
    (h.ambiguities_perm hf ht ht')

end Issues

/-! ## Paths -/

section Paths

variable {σ : Renaming} {t t' : SymbolTable}
  (hparents : ∀ c, (t'.classAt (σ.cls c)).resolvedParents
    = (t.classAt c).resolvedParents.map σ.cls)
  (hlin : ∀ c, t'.linearization (σ.cls c) = (t.linearization c).map σ.cls)
include hlin

theorem contains_linearization_map (c a : ClassId) :
    (t'.linearization (σ.cls c)).contains (σ.cls a) = (t.linearization c).contains a := by
  rw [hlin, Bool.eq_iff_iff, List.contains_iff_mem, List.contains_iff_mem]
  exact List.mem_map_of_injective σ.cls_injective

include hparents

theorem parentToward_map (c a : ClassId) :
    t'.parentToward (σ.cls c) (σ.cls a) = (t.parentToward c a).map σ.cls := by
  unfold SymbolTable.parentToward
  rw [hparents, List.find?_map]
  refine congrArg (fun q => Option.map σ.cls (List.find? q _)) (funext fun d => ?_)
  exact contains_linearization_map hlin d a

/-- **The path to an ancestor is the renamed one**, step by step. -/
theorem pathWithin_map (a : ClassId) (n : Nat) (c : ClassId) :
    t'.pathWithin (σ.cls a) n (σ.cls c) = (t.pathWithin a n c).map (List.map σ.cls) := by
  induction n generalizing c with
  | zero =>
    unfold SymbolTable.pathWithin
    rw [if_congr σ.cls_injective.eq_iff rfl rfl]
    split
    · rfl
    · rfl
  | succ n ih =>
    unfold SymbolTable.pathWithin
    rw [if_congr σ.cls_injective.eq_iff rfl rfl, parentToward_map hparents hlin]
    split
    · rfl
    · cases t.parentToward c a with
      | none => rfl
      | some p =>
        show (t'.pathWithin (σ.cls a) n (σ.cls p)).map _ = _
        rw [ih, Option.map_map, Option.map_map]
        rfl

end Paths

/-! ## Tables with all that resolution found -/

/-- **A table whose symbols are among those of another, with all that resolution found.** A
name for which `N` holds denotes the same class in both, or none. -/
structure Carried (σ : Renaming) (N : String → Prop) (t t' : SymbolTable) : Prop
    extends Embedded σ t t' where
  /-- The first is well-formed. -/
  formed : Formed t
  /-- The names of the classes. -/
  lookupClass : ∀ {name}, N name → t'.lookupClass name = (t.lookupClass name).map σ.cls
  /-- The parents. -/
  parents : ∀ c, (t'.classAt (σ.cls c)).resolvedParents = (t.classAt c).resolvedParents.map σ.cls
  /-- The linearizations. -/
  linearization : ∀ c, t'.linearization (σ.cls c) = (t.linearization c).map σ.cls
  /-- The members. -/
  members : ∀ c, (t'.classAt (σ.cls c)).members = σ.members (t.classAt c).members
  /-- The classes whose ancestry is broken. -/
  broken : ∀ c, (t'.classAt (σ.cls c)).state.isBroken = (t.classAt c).state.isBroken
  /-- What a method name denotes is a method. -/
  method_lt : ∀ {c name m}, t.findMethod c name = some m → m < t.methods.length
  /-- The paths to ancestors. -/
  basePath : ∀ c a, t'.basePath (σ.cls c) (σ.cls a) = (t.basePath c a).map (List.map σ.cls)

/-- Tables with their words read alike resolve alike, if a search for a path may be as long in
the first as in the second. -/
theorem ReadAlike.carried {σ : Renaming} {N : String → Prop} {t t' : SymbolTable}
    (h : ReadAlike σ t t') (hf : Formed t)
    (hN : ∀ {name}, N name → t'.lookupClass name = (t.lookupClass name).map σ.cls)
    (hpath : ∀ c a, t.resolve.table.pathWithin a t'.classes.length c
      = t.resolve.table.pathWithin a t.classes.length c) :
    Carried σ N t.resolve.table t'.resolve.table where
  toEmbedded := h.resolve
  formed := hf.of_declared (resolve_declared t)
  lookupClass {name} hname := by
    rw [lookupClass_of_declared (resolve_declared t), lookupClass_of_declared (resolve_declared t'),
      hN hname]
  parents := h.resolve_parents
  linearization := h.linearization
  members := h.members
  broken _ := Bool.eq_iff_iff.mpr h.broken_iff
  method_lt := h.fresh.findMethod_lt
  basePath c a := by
    unfold SymbolTable.basePath
    rw [pathWithin_map h.resolve_parents h.linearization, t.resolve_length, t'.resolve_length,
      hpath]

/-- **Two tables that are renamed with all that resolution found.** -/
structure Transported (σ : Renaming) (t t' : SymbolTable) : Prop
    extends Carried σ (fun _ => True) t t' where
  /-- No class is lost or added. -/
  classIds_perm : (t.classIds.map σ.cls).Perm t'.classIds

/-- **Renamed tables resolve alike.** They have as many classes, so the search for a path has as
many steps. -/
theorem Renamed.transported {σ : Renaming} {t t' : SymbolTable} (h : Renamed σ t t')
    (hf : Formed t) (ht : t.Fresh) (ht' : t'.Fresh) :
    Transported σ t.resolve.table t'.resolve.table where
  toCarried := (h.readAlike hf ht ht').carried hf (fun _ => h.lookupClass hf _)
    fun c a => by rw [h.classes.length_eq]
  classIds_perm := by
    rw [classIds_of_declared (resolve_declared t), classIds_of_declared (resolve_declared t')]
    exact h.classes.range_perm σ.cls_injective

end SymbolTable

end Heritage
