import Heritage.Proofs.Standing

/-!
# Resolving twice

A resolved table can be resolved again. Nothing of it changes then: what each
step would fill in is there already. The steps do not all leave the table alone
on the way. Looking the parents up marks a class on a cycle as one with a missing
parent, if it has one too, and marking the cycles takes that back.

What is reported a second time is not quite the same. A class that was found to
have a broken ancestor is broken itself from then on, and is passed over
(`Fresh.resolve_resolve_issues`).
-/

namespace Heritage

theorem OnlyKinds.filter_ne_eq_self {ks : List Kind} {is : List Issue} (h : OnlyKinds ks is)
    {k : Kind} (hk : k ∉ ks) : is.filter (·.kind != k) = is :=
  List.filter_eq_self.mpr fun i hi => bne_iff_ne.mpr fun heq => hk (heq ▸ h i hi)

theorem OnlyKinds.filter_ne_eq_nil {k : Kind} {is : List Issue} (h : OnlyKinds [k] is) :
    is.filter (·.kind != k) = [] :=
  List.filter_eq_nil_iff.mpr fun i hi =>
    not_not.mpr (List.mem_singleton.mp (h i hi)) ∘ bne_iff_ne.mp

namespace SymbolTable

variable {t u : SymbolTable}

/-! ## Completed tables -/

/-- **A completed table**: all that resolution fills in is there already, as it
would be filled in. -/
structure Completed (t : SymbolTable) : Prop where
  /-- Every variable has the type that its word stands for. -/
  types : ∀ v ∈ t.vars, t.resolvedVarType v = v.type
  /-- Every method has the return type that its word stands for. -/
  results : ∀ m ∈ t.methods, t.resolvedReturnType m = m.returnType
  /-- Every class has its parents. -/
  parents : ∀ c, t.knownParents (t.classAt c) = (t.classAt c).resolvedParents
  /-- The classes on a cycle are marked. -/
  cyclic : ∀ c, t.Ancestor c c → (t.classAt c).state = .cyclic
  /-- So are the others with a parent that is no class. -/
  missing : ∀ c, t.Missing c → ¬ t.Ancestor c c → (t.classAt c).state = .missingParent
  /-- A class with a broken ancestor is broken. -/
  intact : ∀ c a, t.Ancestor c a → ¬ t.Broken c → ¬ t.Broken a
  /-- Every class is linearized. -/
  linearized : ∀ c < t.classes.length, t.linearization c ≠ []
  /-- Every class has its members. -/
  members : ∀ c < t.classes.length, (t.classAt c).members = t.membersOf t.ancestry c

/-- A class that is linearized is left as it is. -/
theorem linearizeClass_of_ne_nil {c : ClassId} (h : t.linearization c ≠ []) :
    t.linearizeClass c = t := by
  unfold linearizeClass
  rw [if_pos]
  rw [Bool.not_eq_true', List.isEmpty_eq_false_iff]
  exact h

/-- Classes that are linearized are left as they are. -/
theorem foldl_linearizeClass_of_ne_nil {cs : List ClassId}
    (h : ∀ c ∈ cs, t.linearization c ≠ []) : cs.foldl linearizeClass t = t := by
  induction cs with
  | nil => rfl
  | cons c rest ih =>
    rw [List.foldl_cons, linearizeClass_of_ne_nil (h c List.mem_cons_self)]
    exact ih fun d hd => h d (List.mem_cons_of_mem c hd)

namespace Completed

variable (h : t.Completed)
include h

theorem resolveTypes_eq : t.resolveTypes = t := by
  have hvars : (t.vars.map fun v => { v with type := t.resolvedVarType v }) = t.vars := by
    refine (List.map_congr_left fun v hv => ?_).trans (List.map_id t.vars)
    rw [h.types v hv]
    rfl
  have hmethods : (t.methods.map fun m => { m with returnType := t.resolvedReturnType m })
      = t.methods := by
    refine (List.map_congr_left fun m hm => ?_).trans (List.map_id t.methods)
    rw [h.results m hm]
    rfl
  unfold resolveTypes
  rw [hvars, hmethods]

/-- The parents stay, but a class is marked if one of them is missing. -/
theorem parented_classAt (c : ClassId) :
    t.parented.classAt c
      = { t.classAt c with
          state := if (t.missingParents (t.classAt c)).isEmpty then (t.classAt c).state
            else .missingParent } := by
  rw [SymbolTable.parented_classAt, h.parents c]

theorem parented_parents (c : ClassId) :
    (t.parented.classAt c).resolvedParents = (t.classAt c).resolvedParents := by
  rw [h.parented_classAt c]

theorem isCyclic_iff {c : ClassId} : t.ancestry.isCyclic c = true ↔ t.Ancestor c c := by
  rw [isCyclic_ancestry_iff, ancestor_congr h.parented_parents]

/-- **With the cycles marked again the table is itself.** -/
theorem cycled_eq : t.cycled = t := by
  have hclasses : t.cycled.classes = t.classes := by
    refine classes_eq_of_classAt t.cycled_length fun c hc => ?_
    rw [cycled_classAt hc, h.parented_classAt c]
    by_cases hcyclic : t.Ancestor c c
    · rw [if_pos (h.isCyclic_iff.mpr hcyclic)]
      show { t.classAt c with state := .cyclic } = _
      rw [← h.cyclic c hcyclic]
    · rw [if_neg fun hmark => hcyclic (h.isCyclic_iff.mp hmark)]
      split
      · rfl
      · rename_i hmissing
        rw [isEmpty_missingParents_iff, not_not] at hmissing
        rw [← h.missing c hmissing hcyclic]
  show ({ t.resolveTypes with classes := t.cycled.classes } : SymbolTable) = t
  rw [h.resolveTypes_eq, hclasses]

/-- No class that is not broken has a broken ancestor. -/
theorem isTainted_eq_false (c : ClassId) : t.isTainted t.ancestry c = false := by
  rw [Bool.eq_false_iff]
  intro htainted
  obtain ⟨hwhole, a, ha, hbroken⟩ := isTainted_iff.mp htainted
  have hancestor : t.Ancestor c a := by
    rw [← ancestor_congr h.parented_parents]
    exact (Ancestry.mem_ancestors t.parented_inside).mp ha
  exact h.intact c a hancestor hwhole hbroken

theorem tainted_eq : t.tainted = t := by
  rw [tainted_eq_markTainted, h.cycled_eq]
  have hclasses : (t.markTainted t.ancestry).classes = t.classes := by
    refine classes_eq_of_classAt List.length_mapIdx fun c hc => ?_
    rw [classAt_of_mapIdx rfl hc, if_neg (Bool.eq_false_iff.mp (h.isTainted_eq_false c))]
  show ({ t with classes := (t.markTainted t.ancestry).classes } : SymbolTable) = t
  rw [hclasses]

theorem linearize_eq : t.linearize = t := by
  have hinside : t.ParentsInside := by
    intro c a hp
    rw [← parent_congr h.parented_parents] at hp
    exact t.parented_length ▸ t.parented_inside c a hp
  refine foldl_linearizeClass_of_ne_nil fun c hc => h.linearized c ?_
  exact List.mem_range.mp (hinside.resolutionOrder_perm.mem_iff.mp hc)

/-- **A completed table is what it resolves to.** -/
theorem resolve_table_eq : t.resolve.table = t := by
  rw [resolve_table, h.tainted_eq, h.linearize_eq]
  have hclasses : (t.flatten t.ancestry).classes = t.classes := by
    refine classes_eq_of_classAt List.length_mapIdx fun c hc => ?_
    rw [flatten_classAt hc, ← h.members c hc]
  show ({ t with classes := (t.flatten t.ancestry).classes } : SymbolTable) = t
  rw [hclasses]

/-- **No class of a completed table is found to have a broken ancestor.** -/
theorem taintIssues_eq_nil : t.cycled.taintIssues t.ancestry = [] := by
  rw [h.cycled_eq]
  unfold taintIssues
  rw [List.map_eq_nil_iff, List.filter_eq_nil_iff]
  exact fun c _ => Bool.eq_false_iff.mp (h.isTainted_eq_false c)

end Completed

/-! ## Resolved tables are completed -/

section Alike

variable (h : u.declared = t.declared)
include h

theorem resolveType_of_declared (word : String) : u.resolveType word = t.resolveType word := by
  unfold resolveType
  rw [lookupClass_of_declared h]

theorem classAt_parents_of_declared (c : ClassId) : (u.classAt c).parents = (t.classAt c).parents :=
  (ClassSymbol.of_declared_eq (classAt_of_declared h c)).2.1

theorem knownParents_of_declared (c : ClassId) :
    u.knownParents (u.classAt c) = t.knownParents (t.classAt c) := by
  unfold knownParents
  rw [classAt_parents_of_declared h c, funext fun p : Ident => lookupClass_of_declared h p.text]

theorem missing_of_declared (c : ClassId) : u.Missing c ↔ t.Missing c := by
  unfold Missing
  rw [classAt_parents_of_declared h c]
  simp only [lookupClass_of_declared h]

/-- Tables that were declared alike have the same ancestry. -/
theorem ancestry_of_declared : u.ancestry = t.ancestry := by
  have hrows : ∀ s : SymbolTable, s.parented.classes.map (·.resolvedParents)
      = s.classIds.map fun c => s.knownParents (s.classAt c) := by
    intro s
    conv_lhs => rw [← map_classAt s.parented, List.map_map]
    rw [classIds_of_declared s.parented_declared]
    exact List.map_congr_left fun c _ =>
      congrArg ClassSymbol.resolvedParents (s.parented_classAt c)
  unfold ancestry Ancestry.ofTable
  rw [hrows u, hrows t, classIds_of_declared h, funext (knownParents_of_declared h)]

theorem cycleIssues_of_declared (g : Ancestry) : u.cycleIssues g = t.cycleIssues g := by
  unfold cycleIssues
  rw [classIds_of_declared h]
  refine List.map_congr_left fun c _ => ?_
  rw [classAt_name_of_declared h, classAt_span_of_declared h]

/-- What is reported of the parents of a class is read off its declaration. -/
theorem parentIssues_of_declared : u.parentIssues = t.parentIssues := by
  have hissues : ∀ s : SymbolTable, s.parentIssues = s.classIds.flatMap fun c =>
      ((s.classAt c).parents.filter fun p => (s.lookupClass p.text).isNone).map fun p =>
        .unknownParent (s.classAt c).name p.text p.span := by
    intro s
    unfold parentIssues
    conv_lhs => rw [← map_classAt s, List.flatMap_map]
    rfl
  rw [hissues u, hissues t, classIds_of_declared h]
  refine List.flatMap_congr fun c _ => ?_
  rw [classAt_parents_of_declared h, classAt_name_of_declared h]
  simp only [lookupClass_of_declared h]

end Alike

section Types

variable (t)

/-- A type that was looked up is looked up to the same type. -/
theorem resolvedVarType_resolve (v : VarSymbol) :
    t.resolve.table.resolvedVarType { v with type := t.resolvedVarType v }
      = t.resolvedVarType v := by
  unfold resolvedVarType
  simp only [resolveType_of_declared (resolve_declared t), Option.or_assoc, Option.or_self]

theorem resolvedReturnType_resolve (m : MethodSymbol) :
    t.resolve.table.resolvedReturnType { m with returnType := t.resolvedReturnType m }
      = t.resolvedReturnType m := by
  unfold resolvedReturnType
  cases m.returnTypeName with
  | none => rfl
  | some written =>
    simp only [resolveType_of_declared (resolve_declared t), ← Option.or_assoc, Option.or_self]

/-- A word that stands for no type a variable can have is reported again. -/
theorem varTypeIssue?_resolve (v : VarSymbol) :
    t.resolve.table.varTypeIssue? { v with type := t.resolvedVarType v } = t.varTypeIssue? v := by
  unfold varTypeIssue? resolvedVarType
  cases v.type with
  | some τ => rfl
  | none =>
    cases v.typeName with
    | none => rfl
    | some written =>
      simp only [resolveType_of_declared (resolve_declared t), Option.none_or, Option.bind_some]
      cases hword : t.resolveType written.text with
      | none => simp only [Option.filter_none, hword]
      | some τ =>
        cases τ with
        | int => rfl
        | void =>
          simp only [Option.filter_some, bne_self_eq_false, Bool.false_eq_true, if_false, hword]
        | cls c => rfl

/-- **The same words are reported again.** -/
theorem typeIssues_resolve : t.resolve.table.typeIssues = t.typeIssues := by
  have hresult : ∀ m : MethodSymbol,
      t.resolve.table.returnTypeIssue? { m with returnType := t.resolvedReturnType m }
        = t.returnTypeIssue? m := by
    intro m
    unfold returnTypeIssue?
    simp only [resolveType_of_declared (resolve_declared t)]
  unfold typeIssues
  rw [resolve_vars, resolve_methods, List.filterMap_map, List.filterMap_map]
  exact congrArg₂ (· ++ ·) (List.filterMap_congr fun v _ => t.varTypeIssue?_resolve v)
    (List.filterMap_congr fun m _ => hresult m)

end Types

section Finished

variable (h : t.Fresh)
include h

/-- **A resolved table is completed.** -/
theorem Fresh.completed : t.resolve.table.Completed where
  types := by
    intro v hv
    rw [resolve_vars] at hv
    obtain ⟨w, -, rfl⟩ := List.mem_map.mp hv
    exact t.resolvedVarType_resolve w
  results := by
    intro m hm
    rw [resolve_methods] at hm
    obtain ⟨n, -, rfl⟩ := List.mem_map.mp hm
    exact t.resolvedReturnType_resolve n
  parents := by
    intro c
    rw [knownParents_of_declared (resolve_declared t), h.resolve_parents, parented_classAt]
  cyclic := by
    intro c hcyclic
    have hc := t.resolve_length ▸ lt_of_ancestor hcyclic
    rw [ancestor_congr h.resolve_parents] at hcyclic
    exact (h.isCyclic_iff_state hc).mp (isCyclic_ancestry_iff.mpr hcyclic)
  missing := by
    intro c hmissing hcyclic
    rw [missing_of_declared (resolve_declared t)] at hmissing
    rw [ancestor_congr h.resolve_parents] at hcyclic
    rw [h.resolve_state_eq (lt_of_defective (Or.inl hmissing)), if_neg hcyclic, if_pos hmissing]
  intact := fun _ _ ha hb => h.not_broken_of_ancestor hb ha
  linearized := by
    intro c hc
    by_cases hb : t.resolve.table.Broken c
    · rw [h.linearization_of_broken hb]
      exact List.cons_ne_nil _ _
    · rw [t.resolve_length] at hc
      exact List.ne_nil_of_mem ((h.mem_linearization hc hb).mpr (Or.inl rfl))
  members := by
    intro c hc
    rw [ancestry_of_declared (resolve_declared t)]
    exact h.resolve_members (t.resolve_length ▸ hc)

/-- **The second time, all is reported again but the classes with a broken
ancestor.** -/
theorem Fresh.resolve_resolve_issues :
    t.resolve.table.resolve.issues
      = t.resolve.issues.filter fun i => i.kind != .unresolvedClass := by
  have hdeclared := resolve_declared t
  have hparents : t.resolve.table.resolveTypes.parentIssues = t.resolveTypes.parentIssues :=
    parentIssues_of_declared ((resolveTypes_declared _).trans
      (hdeclared.trans (resolveTypes_declared t).symm))
  have hcycles : t.resolve.table.parented.cycleIssues t.ancestry
      = t.parented.cycleIssues t.ancestry :=
    cycleIssues_of_declared ((parented_declared _).trans
      (hdeclared.trans t.parented_declared.symm)) t.ancestry
  have htaints := h.completed.taintIssues_eq_nil
  have types := typeIssues_kinds t
  have parents := parentIssues_kinds t.resolveTypes
  have cycles := cycleIssues_kinds t.parented t.ancestry
  have taints := taintIssues_kinds t.cycled t.ancestry
  have ambiguous := ambiguities_kinds t.resolve.table t.ancestry
  rw [ancestry_of_declared hdeclared] at htaints
  rw [resolve_issues, resolve_issues, h.completed.resolve_table_eq, typeIssues_resolve, hparents,
    ancestry_of_declared hdeclared, hcycles, htaints, List.append_nil]
  simp only [List.filter_append]
  rw [types.filter_ne_eq_self (by decide), parents.filter_ne_eq_self (by decide),
    cycles.filter_ne_eq_self (by decide), taints.filter_ne_eq_nil,
    ambiguous.filter_ne_eq_self (by decide), List.append_nil]

end Finished

end SymbolTable

/-- **Resolving a table again changes nothing of it**: states, parents,
linearizations, members and types are what they were, and so are the counts.
Everything that was reported is reported again, but for the classes with a
broken ancestor, which are broken already when the second resolution looks at
them. -/
theorem resolve_idempotent (p : Program) :
    let first := (SymbolTable.collect p).table.resolve
    let second := first.table.resolve
    second.table = first.table
      ∧ (second.resolved, second.broken, second.ambiguous)
        = (first.resolved, first.broken, first.ambiguous)
      ∧ second.issues = first.issues.filter fun i => i.kind != .unresolvedClass := by
  intro first second
  have htable : second.table = first.table := (collect_fresh p).completed.resolve_table_eq
  refine ⟨htable, ?_, (collect_fresh p).resolve_resolve_issues⟩
  unfold Resolved.resolved Resolved.broken Resolved.ambiguous
  rw [htable]

end Heritage
