import Heritage.Proofs.Representation

/-!
# The standing of a class

A class whose ancestry cannot be known is broken, in one of three ways: it
derives from itself, it is written with a parent that is no class, or this is so
of one of its ancestors. Which one it is can be read off the program, whatever
else is wrong with it: off the graph in which a class leads to each of its
written parents that is a class. The states are set one after the other while
the table is resolved, and a later one may replace an earlier one; what comes out
is `Program.standing`, and for each class that is to blame there is one issue.
-/

namespace Heritage

open SymbolTable

/-! ## The graph of a program -/

namespace Program

/-- The declarations whose names are not taken, neither before nor by one of them. -/
def untaken (taken : List String) : List ClassDecl → List ClassDecl
  | [] => []
  | d :: rest =>
    if d.name.text ∈ taken then untaken taken rest
    else d :: untaken (taken ++ [d.name.text]) rest

variable (p : Program)

/-- **The classes of a program**: of several with one name, the first. -/
def declaredClasses : List ClassDecl :=
  untaken [] p.classes

instance (name : String) : Decidable (p.HasClass name) :=
  inferInstanceAs (Decidable (∃ d ∈ p.classes, d.name.text = name))

/-- **A class is written with another as a parent.** -/
def Extends (c a : String) : Prop :=
  ∃ d ∈ p.declaredClasses, d.name.text = c ∧ (∃ q ∈ d.parents, q.text = a) ∧ p.HasClass a

/-- A class derives from another: one or more steps to a parent lead to it. -/
def Inherits : String → String → Prop :=
  Relation.TransGen p.Extends

/-- A class is written with a parent that is no class. -/
def Lacks (c : String) : Prop :=
  ∃ d ∈ p.declaredClasses, d.name.text = c ∧ ∃ q ∈ d.parents, ¬ p.HasClass q.text

open Classical in
/-- **The standing of a class in the graph of written parents.** -/
noncomputable def standing (c : String) : ClassState :=
  if p.Inherits c c then .cyclic
  else if p.Lacks c then .missingParent
  else if ∃ a, p.Inherits c a ∧ (p.Inherits a a ∨ p.Lacks a) then .unresolved
  else .resolved

variable {p}

theorem mem_untaken_names (taken : List String) (ds : List ClassDecl) (name : String) :
    (name ∈ taken ∨ ∃ d ∈ untaken taken ds, d.name.text = name)
      ↔ (name ∈ taken ∨ ∃ d ∈ ds, d.name.text = name) := by
  induction ds generalizing taken with
  | nil => rfl
  | cons d rest ih =>
    unfold untaken
    split
    · rename_i htaken
      rw [ih, List.exists_mem_cons_iff]
      constructor
      · exact fun h => h.imp_right Or.inr
      · rintro (h | rfl | h)
        · exact Or.inl h
        · exact Or.inl htaken
        · exact Or.inr h
    · have hrest := ih (taken ++ [d.name.text])
      rw [List.mem_append, List.mem_singleton] at hrest
      rw [List.exists_mem_cons_iff, List.exists_mem_cons_iff, eq_comm, ← or_assoc, ← or_assoc]
      exact hrest

theorem hasClass_iff_declared {name : String} :
    p.HasClass name ↔ ∃ d ∈ p.declaredClasses, d.name.text = name := by
  have h := mem_untaken_names [] p.classes name
  simp only [List.not_mem_nil, false_or] at h
  exact h.symm

end Program

/-! ## The classes of a table -/

/-- What a table has of a class as it was written, but for its members. -/
def ClassSymbol.outline (k : ClassSymbol) : String × List Ident × Span :=
  (k.name, k.parents, k.span)

/-- What a program says of a class, but for its members. -/
def ClassDecl.outline (d : ClassDecl) : String × List Ident × Span :=
  (d.name.text, d.parents, d.name.span)

namespace SymbolTable

/-- Collecting classes behind a table adds those whose names are not taken. -/
theorem each_class_outline (ds : List ClassDecl) (k : Nat) {t : SymbolTable} (h : Formed t) :
    (Collected.each collectClass (ds.zipIdx k) t).table.classes.map ClassSymbol.outline
      = t.classes.map ClassSymbol.outline
        ++ (Program.untaken (t.classes.map (·.name)) ds).map ClassDecl.outline := by
  induction ds generalizing k t with
  | nil => exact (List.append_nil _).symm
  | cons d rest ih =>
    rw [List.zipIdx_cons]
    unfold Collected.each Program.untaken
    rw [Collected.andThen_table, ih (k + 1) (h.grows (collectClass_grows h (d, k)))]
    by_cases hfree : t.lookupClass d.name.text = none
    · have hclasses := collectClass_classes h (d, k) hfree
      rw [if_neg (lookupClass_eq_none_iff.mp hfree), hclasses, List.map_append, List.map_append,
        List.append_assoc]
      rfl
    · have htable : (collectClass (d, k) t).table = t := by
        rcases collectClass_cases (d, k) t with ⟨htable, -⟩ | ⟨hnone, -⟩
        · exact htable
        · exact absurd hnone hfree
      rw [htable, if_pos (not_not.mp (mt lookupClass_eq_none_iff.mpr hfree))]

/-- **The classes of a table are those of the program**, in order. -/
theorem collect_outline (p : Program) :
    (collect p).table.classes.map ClassSymbol.outline
      = p.declaredClasses.map ClassDecl.outline :=
  each_class_outline p.classes 0 formed_empty

theorem parented_ancestor_lt {t : SymbolTable} {c a : ClassId} (h : t.parented.Ancestor c a) :
    a < t.classes.length := by
  rw [← t.parented_length]
  exact t.parented_inside.ancestor_lt h

/-- What is written of the classes of tables that were declared alike. -/
theorem outline_of_declared {t u : SymbolTable} (h : u.declared = t.declared) :
    u.classes.map ClassSymbol.outline = t.classes.map ClassSymbol.outline := by
  have hmap := congrArg (fun w => w.classes.map ClassSymbol.outline) h
  simp only [declared, List.map_map] at hmap
  exact hmap

end SymbolTable

/-! ## The graph of a table -/

section Graph

variable {p : Program} {c : ClassId}

/-- The declaration of a class of the table. -/
theorem exists_declared (hc : c < (collect p).table.classes.length) :
    ∃ d ∈ p.declaredClasses, d.name.text = ((collect p).table.classAt c).name
      ∧ d.parents = ((collect p).table.classAt c).parents := by
  have hmem : ((collect p).table.classAt c).outline
      ∈ (collect p).table.classes.map ClassSymbol.outline :=
    List.mem_map_of_mem (List.mem_of_getElem? (getElem?_eq_getD hc _))
  rw [collect_outline] at hmem
  obtain ⟨d, hd, houtline⟩ := List.mem_map.mp hmem
  exact ⟨d, hd, congrArg Prod.fst houtline, congrArg (fun o => o.2.1) houtline⟩

/-- The class of the table for a declaration. -/
theorem exists_classAt {d : ClassDecl} (hd : d ∈ p.declaredClasses) :
    ∃ c < (collect p).table.classes.length, ((collect p).table.classAt c).name = d.name.text
      ∧ ((collect p).table.classAt c).parents = d.parents := by
  have hmem : d.outline ∈ p.declaredClasses.map ClassDecl.outline := List.mem_map_of_mem hd
  rw [← collect_outline] at hmem
  obtain ⟨k, hk, houtline⟩ := List.mem_map.mp hmem
  obtain ⟨c, hc⟩ := List.getElem?_of_mem hk
  refine ⟨c, (List.getElem?_eq_some_iff.mp hc).1, ?_⟩
  rw [classAt, getD_of_eq_some hc]
  exact ⟨congrArg Prod.fst houtline, congrArg (fun o => o.2.1) houtline⟩

/-- The declaration of a class is the only one of its name. -/
theorem parents_eq_of_name (hc : c < (collect p).table.classes.length) {d : ClassDecl}
    (hd : d ∈ p.declaredClasses) (hname : d.name.text = ((collect p).table.classAt c).name) :
    d.parents = ((collect p).table.classAt c).parents := by
  obtain ⟨a, ha, haname, haparents⟩ := exists_classAt hd
  obtain rfl := (collect_formed p).class_eq_of_name ha hc (haname.trans hname)
  exact haparents.symm

theorem hasClass_iff_lookupClass {name : String} :
    p.HasClass name ↔ ∃ a, (collect p).table.lookupClass name = some a := by
  rw [Program.hasClass_iff_declared]
  constructor
  · rintro ⟨d, hd, rfl⟩
    obtain ⟨a, ha, hname, -⟩ := exists_classAt hd
    exact ⟨a, (lookupClass_eq_some_iff (collect_formed p)).mpr ⟨ha, hname⟩⟩
  · rintro ⟨a, ha⟩
    obtain ⟨hlt, hname⟩ := (lookupClass_eq_some_iff (collect_formed p)).mp ha
    obtain ⟨d, hd, hdname, -⟩ := exists_declared hlt
    exact ⟨d, hd, hdname.trans hname⟩

theorem extends_iff (hc : c < (collect p).table.classes.length) {name : String} :
    p.Extends ((collect p).table.classAt c).name name
      ↔ ∃ a, (collect p).table.parented.Parent c a ∧ ((collect p).table.classAt a).name = name := by
  constructor
  · rintro ⟨d, hd, hname, ⟨q, hq, rfl⟩, hclass⟩
    obtain ⟨a, ha⟩ := hasClass_iff_lookupClass.mp hclass
    rw [parents_eq_of_name hc hd hname] at hq
    exact ⟨a, parented_parent_iff.mpr ⟨q, hq, ha⟩,
      ((lookupClass_eq_some_iff (collect_formed p)).mp ha).2⟩
  · rintro ⟨a, ha, rfl⟩
    obtain ⟨q, hq, hlook⟩ := parented_parent_iff.mp ha
    obtain ⟨d, hd, hname, hparents⟩ := exists_declared hc
    have hqname := ((lookupClass_eq_some_iff (collect_formed p)).mp hlook).2
    exact ⟨d, hd, hname, ⟨q, hparents ▸ hq, hqname.symm⟩,
      hasClass_iff_lookupClass.mpr ⟨a, hqname ▸ hlook⟩⟩

/-- **The ancestors of a class are those of the graph.** -/
theorem inherits_iff (hc : c < (collect p).table.classes.length) {name : String} :
    p.Inherits ((collect p).table.classAt c).name name
      ↔ ∃ a, (collect p).table.parented.Ancestor c a
        ∧ ((collect p).table.classAt a).name = name := by
  constructor
  · intro h
    induction h with
    | single hstep =>
      obtain ⟨a, ha, hname⟩ := (extends_iff hc).mp hstep
      exact ⟨a, .single ha, hname⟩
    | tail _ hstep ih =>
      obtain ⟨b, hb, rfl⟩ := ih
      obtain ⟨a, ha, hname⟩ := (extends_iff (parented_ancestor_lt hb)).mp hstep
      exact ⟨a, hb.tail ha, hname⟩
  · rintro ⟨a, ha, rfl⟩
    induction ha with
    | single hp => exact .single ((extends_iff hc).mpr ⟨_, hp, rfl⟩)
    | tail hb hp ih => exact ih.tail ((extends_iff (parented_ancestor_lt hb)).mpr ⟨_, hp, rfl⟩)

theorem inherits_self_iff (hc : c < (collect p).table.classes.length) :
    p.Inherits ((collect p).table.classAt c).name ((collect p).table.classAt c).name
      ↔ (collect p).table.parented.Ancestor c c := by
  rw [inherits_iff hc]
  constructor
  · rintro ⟨a, ha, hname⟩
    obtain rfl := (collect_formed p).class_eq_of_name (parented_ancestor_lt ha) hc hname
    exact ha
  · exact fun h => ⟨c, h, rfl⟩

theorem lacks_iff (hc : c < (collect p).table.classes.length) :
    p.Lacks ((collect p).table.classAt c).name ↔ (collect p).table.Missing c := by
  have hnone : ∀ q : Ident, ¬ p.HasClass q.text ↔ (collect p).table.lookupClass q.text = none := by
    intro q
    rw [hasClass_iff_lookupClass, Option.eq_none_iff_forall_not_mem, not_exists]
    rfl
  constructor
  · rintro ⟨d, hd, hname, q, hq, hclass⟩
    rw [parents_eq_of_name hc hd hname] at hq
    exact ⟨q, hq, (hnone q).mp hclass⟩
  · rintro ⟨q, hq, hlook⟩
    obtain ⟨d, hd, hname, hparents⟩ := exists_declared hc
    exact ⟨d, hd, hname, q, hparents ▸ hq, (hnone q).mpr hlook⟩

end Graph

/-! ## States -/

namespace SymbolTable

variable {t : SymbolTable} (h : t.Fresh) {c : ClassId} (hc : c < t.classes.length)
include h hc

theorem Fresh.cycled_state : (t.cycled.classAt c).state
    = if t.ancestry.isCyclic c = true then .cyclic
      else if (t.missingParents (t.classAt c)).isEmpty = true then .pending
      else .missingParent := by
  have hfresh : (t.classAt c).state = .pending := (congrArg ClassSymbol.state (h c)).symm
  rw [cycled_classAt hc, apply_ite ClassSymbol.state, parented_classAt]
  dsimp only
  rw [hfresh]

theorem Fresh.resolve_state : (t.resolve.table.classAt c).state
    = if t.cycled.isTainted t.ancestry c = true then .unresolved
      else if (t.cycled.classAt c).state.isBroken = true then (t.cycled.classAt c).state
      else .resolved := by
  have hstate : (t.tainted.classAt c).state
      = if t.cycled.isTainted t.ancestry c = true then .unresolved
        else (t.cycled.classAt c).state := by
    rw [tainted_classAt hc, apply_ite ClassSymbol.state]
  rw [h.resolve_classAt hc]
  show (t.tainted.linearized t.resolve.table c).state = _
  unfold linearized
  rw [apply_ite ClassSymbol.state]
  dsimp only
  rw [hstate]
  by_cases htainted : t.cycled.isTainted t.ancestry c = true
  · rw [if_pos htainted, if_pos htainted]
    exact if_pos rfl
  · rw [if_neg htainted, if_neg htainted]

open Classical in
/-- **The state of a class of a resolved table.** -/
theorem Fresh.resolve_state_eq : (t.resolve.table.classAt c).state
    = if t.parented.Ancestor c c then .cyclic
      else if t.Missing c then .missingParent
      else if ∃ a, t.parented.Ancestor c a ∧ t.Defective a then .unresolved
      else .resolved := by
  -- The stages ask in the order taint, cycle, missing; a tainted class is itself not defective,
  -- so asking for taint last comes to the same.
  rw [h.resolve_state hc, h.cycled_state hc, if_congr h.isTainted_iff rfl rfl,
    if_congr isCyclic_ancestry_iff rfl rfl, if_congr isEmpty_missingParents_iff rfl rfl]
  by_cases hcyclic : t.parented.Ancestor c c
  · have hdefective : t.Defective c := Or.inr hcyclic
    rw [if_neg fun htainted => htainted.1 hdefective, if_pos hcyclic, if_pos hcyclic]
    rfl
  · rw [if_neg hcyclic, if_neg hcyclic]
    by_cases hmissing : t.Missing c
    · have hdefective : t.Defective c := Or.inl hmissing
      rw [if_neg fun htainted => htainted.1 hdefective, if_neg (not_not.mpr hmissing),
        if_pos hmissing]
      rfl
    · have hdefective : ¬ t.Defective c := not_or.mpr ⟨hmissing, hcyclic⟩
      rw [if_pos hmissing, if_neg hmissing, if_congr (and_iff_right hdefective) rfl rfl]
      rfl

theorem Fresh.isCyclic_iff_state :
    t.ancestry.isCyclic c = true ↔ (t.resolve.table.classAt c).state = .cyclic := by
  rw [isCyclic_ancestry_iff, h.resolve_state_eq hc]
  split_ifs with hcyclic <;> simp [hcyclic]

theorem Fresh.isTainted_iff_state :
    t.cycled.isTainted t.ancestry c = true
      ↔ (t.resolve.table.classAt c).state = .unresolved := by
  rw [h.isTainted_iff, h.resolve_state_eq hc]
  unfold Defective
  split_ifs with hcyclic hmissing hancestor <;> simp_all

end SymbolTable

theorem state_eq_standing (p : Program) {c : ClassId}
    (hc : c < (collect p).table.classes.length) :
    ((collect p).table.resolve.table.classAt c).state
      = p.standing ((collect p).table.classAt c).name := by
  have hancestor : (∃ a, (collect p).table.parented.Ancestor c a ∧ (collect p).table.Defective a)
      ↔ ∃ a, p.Inherits ((collect p).table.classAt c).name a ∧ (p.Inherits a a ∨ p.Lacks a) := by
    constructor
    · rintro ⟨a, ha, hdefective⟩
      have hlt := parented_ancestor_lt ha
      exact ⟨_, (inherits_iff hc).mpr ⟨a, ha, rfl⟩,
        hdefective.symm.imp (inherits_self_iff hlt).mpr (lacks_iff hlt).mpr⟩
    · rintro ⟨name, hname, hdefective⟩
      obtain ⟨a, ha, rfl⟩ := (inherits_iff hc).mp hname
      have hlt := parented_ancestor_lt ha
      exact ⟨a, ha, (hdefective.imp (inherits_self_iff hlt).mp (lacks_iff hlt).mp).symm⟩
  classical
  rw [(collect_fresh p).resolve_state_eq hc]
  unfold Program.standing
  rw [if_congr (inherits_self_iff hc) rfl rfl, if_congr (lacks_iff hc) rfl rfl,
    if_congr hancestor rfl rfl]

/-- The states of the classes, in order. -/
theorem states_eq_standing {p : Program} {u : SymbolTable}
    (hu : u.declared = (collect p).table.declared)
    (hstate : ∀ c, c < (collect p).table.classes.length →
      (u.classAt c).state = p.standing ((collect p).table.classAt c).name) :
    (u.classes.map fun k => k.state) = p.declaredClasses.map fun d => p.standing d.name.text := by
  have hnames := congrArg (List.map fun o => p.standing o.1)
    ((outline_of_declared hu).trans (collect_outline p))
  rw [List.map_map, List.map_map] at hnames
  rw [← map_classAt u, List.map_map] at hnames ⊢
  refine Eq.trans (List.map_congr_left fun c hc => ?_) hnames
  rw [classIds_of_declared hu] at hc
  show (u.classAt c).state = p.standing (u.classAt c).name
  rw [classAt_name_of_declared hu, hstate c (List.mem_range.mp hc)]

/-! ## Issues -/

/-- Issues of these kinds only. -/
def OnlyKinds (ks : List Kind) (is : List Issue) : Prop :=
  ∀ i ∈ is, i.kind ∈ ks

theorem OnlyKinds.filter_eq_nil {ks : List Kind} {is : List Issue} (h : OnlyKinds ks is) {k : Kind}
    (hk : k ∉ ks) : is.filter (·.kind == k) = [] := by
  refine List.filter_eq_nil_iff.mpr fun i hi hkind => hk ?_
  rw [← beq_iff_eq.mp hkind]
  exact h i hi

theorem OnlyKinds.filter_eq_self {k : Kind} {is : List Issue} (h : OnlyKinds [k] is) :
    is.filter (·.kind == k) = is :=
  List.filter_eq_self.mpr fun i hi => beq_iff_eq.mpr (List.mem_singleton.mp (h i hi))

namespace SymbolTable

theorem typeIssues_kinds (t : SymbolTable) :
    OnlyKinds [.undeclaredIdentifier, .typeMismatch] t.typeIssues := by
  intro i hi
  rcases List.mem_append.mp hi with hi | hi
  · obtain ⟨v, -, hv⟩ := List.mem_filterMap.mp hi
    unfold varTypeIssue? at hv
    split at hv
    · split at hv
      · obtain rfl := Option.some.inj hv
        exact List.mem_cons_of_mem _ (List.mem_singleton_self _)
      · cases hv
      · obtain rfl := Option.some.inj hv
        exact List.mem_cons_self
    · cases hv
  · obtain ⟨m, -, hm⟩ := List.mem_filterMap.mp hi
    unfold returnTypeIssue? at hm
    split at hm
    · split at hm
      · obtain rfl := Option.some.inj hm
        exact List.mem_cons_self
      · cases hm
    · cases hm

theorem parentIssues_kinds (t : SymbolTable) : OnlyKinds [.unknownParentClass] t.parentIssues := by
  intro i hi
  obtain ⟨k, -, hi⟩ := List.mem_flatMap.mp hi
  obtain ⟨q, -, rfl⟩ := List.mem_map.mp hi
  exact List.mem_singleton_self _

theorem cycleIssues_kinds (t : SymbolTable) (g : Ancestry) :
    OnlyKinds [.cyclicInheritance] (t.cycleIssues g) := by
  intro i hi
  obtain ⟨c, -, rfl⟩ := List.mem_map.mp hi
  exact List.mem_singleton_self _

theorem taintIssues_kinds (t : SymbolTable) (g : Ancestry) :
    OnlyKinds [.unresolvedClass] (t.taintIssues g) := by
  intro i hi
  obtain ⟨c, -, rfl⟩ := List.mem_map.mp hi
  exact List.mem_singleton_self _

theorem ambiguities_kinds (t : SymbolTable) (g : Ancestry) :
    OnlyKinds [.ambiguousMethodResolution] (t.ambiguities g) := by
  intro i hi
  obtain ⟨c, -, hi⟩ := List.mem_flatMap.mp hi
  obtain ⟨name, -, rfl⟩ := List.mem_map.mp hi
  exact List.mem_singleton_self _

theorem resolve_issues_filter (t : SymbolTable) :
    t.resolve.issues.filter (·.kind == .unknownParentClass) = t.resolveTypes.parentIssues
      ∧ t.resolve.issues.filter (·.kind == .cyclicInheritance) = t.parented.cycleIssues t.ancestry
      ∧ t.resolve.issues.filter (·.kind == .unresolvedClass)
        = t.cycled.taintIssues t.ancestry := by
  have types := typeIssues_kinds t
  have parents := parentIssues_kinds t.resolveTypes
  have cycles := cycleIssues_kinds t.parented t.ancestry
  have taints := taintIssues_kinds t.cycled t.ancestry
  have ambiguous := ambiguities_kinds t.resolve.table t.ancestry
  rw [resolve_issues]
  simp only [List.filter_append]
  refine ⟨?_, ?_, ?_⟩
  · rw [types.filter_eq_nil (by decide), parents.filter_eq_self, cycles.filter_eq_nil (by decide),
      taints.filter_eq_nil (by decide), ambiguous.filter_eq_nil (by decide)]
    simp only [List.nil_append, List.append_nil]
  · rw [types.filter_eq_nil (by decide), parents.filter_eq_nil (by decide), cycles.filter_eq_self,
      taints.filter_eq_nil (by decide), ambiguous.filter_eq_nil (by decide)]
    simp only [List.nil_append, List.append_nil]
  · rw [types.filter_eq_nil (by decide), parents.filter_eq_nil (by decide),
      cycles.filter_eq_nil (by decide), taints.filter_eq_self, ambiguous.filter_eq_nil (by decide)]
    simp only [List.nil_append, List.append_nil]

/-- What is read off the classes that pass a test, by position. -/
theorem map_filter_classIds {α : Type} {t : SymbolTable} {n : Nat} (hn : t.classes.length = n)
    {q : ClassId → Bool} {q' : ClassSymbol → Bool} {f : ClassId → α} {f' : ClassSymbol → α}
    (hq : ∀ c < n, q c = q' (t.classAt c)) (hf : ∀ c < n, f c = f' (t.classAt c)) :
    ((List.range n).filter q).map f = (t.classes.filter q').map f' := by
  rw [← map_classAt t, List.filter_map, List.map_map, classIds, hn]
  rw [List.filter_congr fun c hc => hq c (List.mem_range.mp hc)]
  exact List.map_congr_left fun c hc =>
    hf c (List.mem_range.mp (List.mem_filter.mp hc).1)

section Reports

variable {t : SymbolTable} (h : t.Fresh)
include h

/-- **One issue for each class on a cycle.** -/
theorem Fresh.cycleIssues_eq :
    t.parented.cycleIssues t.ancestry
      = (t.resolve.table.classes.filter (·.state == .cyclic)).map fun k =>
        .cyclic k.name k.span := by
  unfold cycleIssues classIds
  rw [t.parented_length]
  refine map_filter_classIds t.resolve_length (fun c hc => ?_) (fun c _ => ?_)
  · exact Bool.eq_iff_iff.mpr ((h.isCyclic_iff_state hc).trans beq_iff_eq.symm)
  · rw [classAt_name_of_declared (resolve_declared t),
      classAt_span_of_declared (resolve_declared t), parented_classAt]

/-- **One issue for each class with a broken ancestor.** -/
theorem Fresh.taintIssues_eq :
    t.cycled.taintIssues t.ancestry
      = (t.resolve.table.classes.filter (·.state == .unresolved)).map fun k =>
        .unresolved k.name k.span := by
  unfold taintIssues classIds
  rw [t.cycled_length]
  refine map_filter_classIds t.resolve_length (fun c hc => ?_) (fun c hc => ?_)
  · exact Bool.eq_iff_iff.mpr ((h.isTainted_iff_state hc).trans beq_iff_eq.symm)
  · unfold taintIssue
    rw [classAt_name_of_declared (resolve_declared t),
      classAt_span_of_declared (resolve_declared t), cycled_classAt hc, parented_classAt]
    split
    · rfl
    · rfl

end Reports

end SymbolTable

/-- **One issue for each written parent that is no class.** -/
theorem parentIssues_eq (p : Program) :
    (collect p).table.resolveTypes.parentIssues
      = p.declaredClasses.flatMap fun d =>
        (d.parents.filter fun q => ¬ p.HasClass q.text).map fun q =>
          .unknownParent d.name.text q.text q.span := by
  have hnone : ∀ q : Ident, ((collect p).table.lookupClass q.text).isNone
      = decide (¬ p.HasClass q.text) := by
    intro q
    rw [Bool.eq_iff_iff, decide_eq_true_iff, hasClass_iff_lookupClass, Option.isNone_iff_eq_none,
      Option.eq_none_iff_forall_not_mem, not_exists]
    rfl
  -- both sides read what is written of a class, and nothing else
  let report (o : String × List Ident × Span) : List Issue :=
    (o.2.1.filter fun q => ¬ p.HasClass q.text).map fun q => .unknownParent o.1 q.text q.span
  have hclasses : (collect p).table.resolveTypes.parentIssues
      = (collect p).table.classes.flatMap fun k => report k.outline := by
    refine List.flatMap_congr fun k _ => ?_
    show List.map _ (k.parents.filter fun q => ((collect p).table.lookupClass q.text).isNone) = _
    rw [funext hnone]
    rfl
  rw [hclasses, ← List.flatMap_map, collect_outline, List.flatMap_map]
  rfl

/-- **The standing of every class, and what is reported of it.** The classes of the resolved
table are those of the program, each in the state that its written parents ask for. One issue
is reported for each class on a cycle, one for each class that only an ancestor makes
unresolvable, and one for each written parent that is no class; no others of these kinds. -/
theorem standing_of_classes (p : Program) :
    let resolved := (collect p).table.resolve
    resolved.table.classes.map ClassSymbol.outline = p.declaredClasses.map ClassDecl.outline
      ∧ (resolved.table.classes.map fun k => k.state)
        = (p.declaredClasses.map fun d => p.standing d.name.text)
      ∧ resolved.issues.filter (·.kind == .cyclicInheritance)
        = ((resolved.table.classes.filter (·.state == .cyclic)).map fun k =>
          .cyclic k.name k.span)
      ∧ resolved.issues.filter (·.kind == .unresolvedClass)
        = ((resolved.table.classes.filter (·.state == .unresolved)).map fun k =>
          .unresolved k.name k.span)
      ∧ resolved.issues.filter (·.kind == .unknownParentClass)
        = p.declaredClasses.flatMap fun d =>
          (d.parents.filter fun q => ¬ p.HasClass q.text).map fun q =>
            .unknownParent d.name.text q.text q.span := by
  intro resolved
  obtain ⟨hparents, hcycles, htaints⟩ := (collect p).table.resolve_issues_filter
  have houtline : resolved.table.classes.map ClassSymbol.outline
      = p.declaredClasses.map ClassDecl.outline :=
    (outline_of_declared (resolve_declared _)).trans (collect_outline p)
  exact ⟨houtline, states_eq_standing (resolve_declared _) fun _ => state_eq_standing p,
    hcycles.trans (collect_fresh p).cycleIssues_eq,
    htaints.trans (collect_fresh p).taintIssues_eq, hparents.trans (parentIssues_eq p)⟩

end Heritage
