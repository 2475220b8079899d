import Heritage.Proofs.Representation

/-!
# Resolution finds nothing exactly if the declarations are in order

Of a program whose names are in order, resolution reports the written types
that are none, the parents that are none, the classes on a cycle, the classes
below those, and the ambiguities where they arise. There is none of them exactly
if every written type is a type, every class has its ancestors, and the
declarations of a method that meet in a class take and return the same types.
-/

namespace Heritage

open SymbolTable

namespace SymbolTable

variable {t : SymbolTable}

/-! ## Written types -/

theorem varTypeIssue?_eq_none_iff {v : VarSymbol} :
    t.varTypeIssue? v = none
      ↔ ∀ w, (if v.type.isNone then v.typeName else none) = some w →
        ∃ τ, t.resolveType w.text = some τ ∧ τ ≠ .void := by
  unfold varTypeIssue?
  cases v.type with
  | some τ => simp
  | none =>
    cases v.typeName with
    | none => simp
    | some w =>
      simp only [Option.isNone_none, if_true, Option.some.injEq, forall_eq']
      cases t.resolveType w.text with
      | none => simp
      | some τ => cases τ <;> simp

theorem returnTypeIssue?_eq_none_iff {m : MethodSymbol} :
    t.returnTypeIssue? m = none
      ↔ ∀ w, m.returnTypeName = some w → ∃ τ, t.resolveType w.text = some τ := by
  unfold returnTypeIssue?
  cases m.returnTypeName with
  | none => simp
  | some w =>
    simp only [Option.some.injEq, forall_eq']
    cases t.resolveType w.text with
    | none => simp
    | some τ => simp

/-- **Nothing is wrong with the written types** if each that is to be looked up
is found. -/
theorem typeIssues_eq_nil_iff :
    t.typeIssues = []
      ↔ (∀ w ∈ t.openWords, ∃ τ, t.resolveType w.text = some τ ∧ τ ≠ .void)
        ∧ ∀ m ∈ t.methods, ∀ w, m.returnTypeName = some w →
          ∃ τ, t.resolveType w.text = some τ := by
  unfold typeIssues openWords
  rw [List.append_eq_nil_iff, List.filterMap_eq_nil_iff, List.filterMap_eq_nil_iff]
  refine and_congr ⟨?_, ?_⟩ (forall₂_congr fun m _ => returnTypeIssue?_eq_none_iff)
  · intro h w hw
    obtain ⟨v, hv, hword⟩ := List.mem_filterMap.mp hw
    exact varTypeIssue?_eq_none_iff.mp (h v hv) w hword
  · intro h v hv
    exact varTypeIssue?_eq_none_iff.mpr
      (fun w hw => h w (List.mem_filterMap.mpr ⟨v, hv, hw⟩))

/-! ## Ancestry -/

theorem parentIssues_eq_nil_iff :
    t.resolveTypes.parentIssues = [] ↔ ∀ c < t.classes.length, ¬ t.Missing c := by
  have hclass : ∀ k, ((t.missingParents k).map fun q =>
      Issue.unknownParent k.name q.text q.span) = [] ↔ (t.missingParents k).isEmpty = true := by
    intro k
    rw [List.map_eq_nil_iff, List.isEmpty_iff]
  show (t.classes.flatMap fun k => (t.missingParents k).map _) = [] ↔ _
  rw [List.flatMap_eq_nil_iff]
  constructor
  · intro h c hc
    rw [← isEmpty_missingParents_iff, ← hclass]
    exact h _ (List.mem_of_getElem? (getElem?_eq_getD hc default))
  · intro h k hk
    obtain ⟨c, hc⟩ := List.getElem?_of_mem hk
    have hat : t.classAt c = k := getD_of_eq_some hc _
    rw [hclass, ← hat, isEmpty_missingParents_iff]
    exact h c (List.getElem?_eq_some_iff.mp hc).1

theorem cycleIssues_eq_nil_iff :
    t.parented.cycleIssues t.ancestry = [] ↔ ∀ c, ¬ t.parented.Ancestor c c := by
  unfold cycleIssues classIds
  rw [List.map_eq_nil_iff, List.filter_eq_nil_iff]
  constructor
  · intro h c hc
    exact h c (List.mem_range.mpr (lt_of_ancestor hc)) (isCyclic_ancestry_iff.mpr hc)
  · intro h c _ hc
    exact h c (isCyclic_ancestry_iff.mp hc)

/-- Below classes that are not broken there is nothing to report. -/
theorem Fresh.taintIssues_eq_nil (h : t.Fresh) (hsound : ∀ c, ¬ t.Defective c) :
    t.cycled.taintIssues t.ancestry = [] := by
  unfold taintIssues
  rw [List.map_eq_nil_iff, List.filter_eq_nil_iff]
  intro c _ htaint
  obtain ⟨-, a, -, ha⟩ := h.isTainted_iff.mp htaint
  exact hsound a ha

theorem Fresh.not_broken_of_sound (h : t.Fresh) (hsound : ∀ c, ¬ t.Defective c) (c : ClassId) :
    ¬ t.resolve.table.Broken c := by
  rw [h.resolve_broken_tainted, h.tainted_broken_iff]
  rintro (hd | ⟨a, -, hd⟩)
  · exact hsound c hd
  · exact hsound a hd

/-! ## Ambiguities -/

theorem Fresh.mem_resolutionOrder (h : t.Fresh) {c : ClassId} :
    c ∈ t.resolve.table.resolutionOrder ↔ c < t.classes.length := by
  rw [← t.resolve_length, ← List.mem_range]
  exact h.resolve_inside.resolutionOrder_perm.mem_iff

/-- **A method name becomes ambiguous in a class**: it is so there, and in none of the
parents. -/
def Arises (t : SymbolTable) (c : ClassId) (name : String) : Prop :=
  name ∈ (t.classAt c).members.ambiguous
    ∧ ∀ a, t.Parent c a → name ∉ (t.classAt a).members.ambiguous

theorem arises_iff {c : ClassId} {name : String} :
    name ∈ (t.classAt c).members.ambiguous.filter (fun name => !t.inheritsAmbiguity c name)
      ↔ t.Arises c name := by
  unfold inheritsAmbiguity Members.isAmbiguous Arises Parent
  rw [List.mem_filter, Bool.not_eq_true', List.any_eq_false]
  simp only [List.contains_iff_mem]

theorem Fresh.not_broken_of_ambiguous (h : t.Fresh) {c : ClassId} {name : String}
    (hname : name ∈ (t.resolve.table.classAt c).members.ambiguous) :
    c < t.classes.length ∧ ¬ t.resolve.table.Broken c := by
  constructor
  · refine Nat.lt_of_not_le fun hle => ?_
    rw [classAt_of_le (t.resolve_length ▸ hle)] at hname
    exact List.not_mem_nil hname
  · intro hb
    rw [h.ambiguous_of_broken hb] at hname
    exact List.not_mem_nil hname

/-- **Every ambiguity arises somewhere**, in the class itself or in one above it. -/
theorem Fresh.exists_arises (h : t.Fresh) {c : ClassId} {name : String}
    (hname : name ∈ (t.resolve.table.classAt c).members.ambiguous) :
    ∃ d, (d = c ∨ t.resolve.table.Ancestor c d) ∧ t.resolve.table.Arises d name := by
  have hc := (h.not_broken_of_ambiguous hname).1
  revert hname
  refine h.induction (P := fun c => name ∈ (t.resolve.table.classAt c).members.ambiguous →
    ∃ d, (d = c ∨ t.resolve.table.Ancestor c d) ∧ t.resolve.table.Arises d name)
    (fun c _ ih hname => ?_) hc
  have hb := (h.not_broken_of_ambiguous hname).2
  by_cases hparent : ∃ a, t.resolve.table.Parent c a
      ∧ name ∈ (t.resolve.table.classAt a).members.ambiguous
  · obtain ⟨a, ha, hname⟩ := hparent
    obtain ⟨d, rfl | had, hd⟩ := ih hb a ha hname
    · exact ⟨d, Or.inr (.single ha), hd⟩
    · exact ⟨d, Or.inr (.head ha had), hd⟩
  · exact ⟨c, Or.inl rfl, hname, fun a ha hname => hparent ⟨a, ha, hname⟩⟩

/-- **Every ambiguity is reported where it arises**: if none is reported, there is
none. -/
theorem Fresh.ambiguities_eq_nil_iff (h : t.Fresh) :
    t.resolve.table.ambiguities t.ancestry = []
      ↔ ∀ c < t.classes.length, ∀ name,
        (t.resolve.table.classAt c).members.isAmbiguous name ≠ true := by
  unfold ambiguities ambiguitiesOf
  simp only [List.flatMap_eq_nil_iff, h.mem_resolutionOrder, List.map_eq_nil_iff]
  simp only [List.eq_nil_iff_forall_not_mem, arises_iff]
  constructor
  · intro hnone c hc name hamb
    obtain ⟨d, -, hd⟩ := h.exists_arises (List.contains_iff_mem.mp hamb)
    exact hnone d (h.not_broken_of_ambiguous hd.1).1 name hd
  · intro hnone c hc name harises
    exact hnone c hc name (List.contains_iff_mem.mpr harises.1)

end SymbolTable

/-! ## Programs -/

namespace Represents

variable {p : Program} {t : SymbolTable} (h : Represents p t)
include h

/-- **The written types are types** exactly if resolution finds them so. -/
theorem typesOk_iff : p.TypesOk ↔ t.typeIssues = [] := by
  rw [typeIssues_eq_nil_iff]
  constructor
  · intro hok
    constructor
    · intro w hw
      rw [h.words] at hw
      obtain ⟨d, hd, hw⟩ := List.mem_flatMap.mp hw
      obtain ⟨m, hm, hw⟩ := List.mem_flatMap.mp hw
      exact h.isValueType_iff.mp (hok.values d hd m hm w hw)
    · intro k hk w hw
      obtain ⟨m, hm⟩ := List.getElem?_of_mem hk
      obtain ⟨c, decl, hholds⟩ := h.declared m (List.getElem?_eq_some_iff.mp hm).1
      obtain ⟨d, hd, hmem⟩ := hholds.declared
      have hreturns := hholds.returns.1
      rw [methodAt, getD_of_eq_some hm, hw] at hreturns
      exact h.isReturnType_iff.mp
        (hok.results d (List.mem_of_getElem? hd) decl hmem w hreturns.symm)
  · rintro ⟨hvars, hmethods⟩
    constructor
    · intro d hd m hm w hw
      refine h.isValueType_iff.mpr (hvars w ?_)
      rw [h.words]
      exact List.mem_flatMap.mpr ⟨d, hd, List.mem_flatMap.mpr ⟨m, hm, hw⟩⟩
    · intro d hd decl hdecl w hw
      obtain ⟨c, hc⟩ := List.getElem?_of_mem hd
      obtain ⟨m, hm⟩ := h.holds hc hdecl
      refine h.isReturnType_iff.mpr
        (hmethods (t.methodAt m) (List.mem_of_getElem? (getElem?_eq_getD hm.inside default)) w ?_)
      rw [hm.returns.1, hw]

/-- **The ancestry of every class is known** exactly if no class is broken by
itself. -/
theorem ancestryOk_iff : p.AncestryOk ↔ ∀ c, ¬ t.Defective c := by
  have hanc := ancestor_congr h.fresh.resolve_parents
  constructor
  · rintro hok c (⟨q, hq, hnone⟩ | hcycle)
    · have hc : c < t.classes.length := lt_of_defective (Or.inl ⟨q, hq, hnone⟩)
      obtain ⟨d, hd⟩ := h.decl_of_lt hc
      rw [(h.classAt hd).2] at hq
      obtain ⟨a, ha⟩ := h.hasClass_iff.mp (hok.parents d (List.mem_of_getElem? hd) q hq)
      rw [hnone] at ha
      cases ha
    · have hc : c < t.classes.length := lt_of_defective (Or.inr hcycle)
      rw [← hanc] at hcycle
      exact hok.acyclic _ ((h.ancestor_iff hc hc).mpr hcycle)
  · intro hsound
    constructor
    · intro d hd q hq
      obtain ⟨c, hc⟩ := List.getElem?_of_mem hd
      rw [← (h.classAt hc).2] at hq
      refine h.hasClass_iff.mpr (Option.ne_none_iff_exists'.mp fun hnone => ?_)
      exact hsound c (Or.inl ⟨q, hq, hnone⟩)
    · intro x hx
      obtain ⟨y, hp, -⟩ := Relation.TransGen.head'_iff.mp hx
      obtain ⟨c, hc, rfl⟩ := h.exists_of_parent hp
      refine hsound c (Or.inr ?_)
      rw [← hanc]
      exact (h.ancestor_iff hc hc).mp hx

/-! ## Signatures -/

/-- Words that are types, looked up. -/
theorem exists_types {words : List Ident} (hok : ∀ w ∈ words, p.IsValueType w.text) :
    ∃ ts : List Ty, (words.map fun w => (t.resolveType w.text).filter (· != .void)) = ts.map some
      ∧ (∀ τ ∈ ts, t.Known τ ∧ τ ≠ .void) ∧ ts.map t.sourceTy = words.map (.ofWord ·.text) := by
  induction words with
  | nil => exact ⟨[], rfl, by simp, rfl⟩
  | cons w rest ih =>
    obtain ⟨ts, hmap, hknown, hsource⟩ := ih fun x hx => hok x (List.mem_cons_of_mem w hx)
    obtain ⟨τ, hτ, hvoid⟩ := h.isValueType_iff.mp (hok w List.mem_cons_self)
    obtain ⟨hk, hs⟩ := h.resolveType_eq_some hτ
    refine ⟨τ :: ts, ?_, List.forall_mem_cons.mpr ⟨⟨hk, hvoid⟩, hknown⟩, ?_⟩
    · rw [List.map_cons, hmap, hτ, Option.filter_some, if_pos (bne_iff_ne.mpr hvoid)]
      rfl
    · rw [List.map_cons, hs, hsource]
      rfl

end Represents

/-- **The types a method takes and returns in a resolved table**, and those its
declaration is written with. -/
structure TakesAndReturns (t : SymbolTable) (m : MethodId) (decl : MethodDecl) (ts : List Ty)
    (τ : Ty) : Prop where
  /-- The types of the parameters. -/
  params : t.resolve.table.paramTypes m = ts.map some
  /-- They are types of values. -/
  known : ∀ σ ∈ ts, t.Known σ ∧ σ ≠ .void
  /-- They are those of the declaration. -/
  args : ts.map t.sourceTy = decl.argTypes
  /-- The type of the result. -/
  returns : (t.resolve.table.methodAt m).returnType = some τ
  /-- It is a type. -/
  result_known : t.Known τ
  /-- It is that of the declaration. -/
  result : t.sourceTy τ = decl.result

namespace Represents

variable {p : Program} {t : SymbolTable} (h : Represents p t)
include h

/-- **A method takes and returns the types it was written with.** -/
theorem takesAndReturns (hok : p.TypesOk) {m : MethodId} {c : ClassId} {decl : MethodDecl}
    (hm : HoldsMethod p t m c decl) : ∃ ts τ, TakesAndReturns t m decl ts τ := by
  obtain ⟨d, hd, hmem⟩ := hm.declared
  obtain ⟨receiver, params, hp, htype, hsymbols⟩ := hm.params
  have hwords : ∀ w ∈ params.filterMap (·.type), p.IsValueType w.text := by
    intro w hw
    refine hok.values d (List.mem_of_getElem? hd) _ hmem w (List.mem_append_left _ ?_)
    rw [hp, List.filterMap_cons, htype]
    exact hw
  obtain ⟨ts, hmap, hknown, hsource⟩ := h.exists_types hwords
  have hparams : t.resolve.table.paramTypes m = ts.map some := by
    have hvar : (fun v => (t.resolve.table.varAt v).type) = t.resolvedVarType ∘ t.varAt := by
      funext v
      rw [resolve_varAt]
      rfl
    unfold paramTypes explicitParams
    rw [paramsOf_of_declared (resolve_declared t), hvar, ← List.map_map, List.map_drop, hsymbols,
      ← hmap, List.map_filterMap]
    show (paramSymbols _ params).map _ = _
    unfold paramSymbols
    rw [List.map_filterMap]
    refine List.filterMap_congr (fun q _ => ?_)
    rw [Option.map_map]
    rfl
  have hargs : ts.map t.sourceTy = decl.argTypes := by
    rw [hsource]
    unfold MethodDecl.argTypes
    rw [hp, List.tail_cons, List.map_filterMap]
  have hreturns : ∃ τ, (t.resolve.table.methodAt m).returnType = some τ ∧ t.Known τ
      ∧ t.sourceTy τ = decl.result := by
    rw [resolve_methodAt]
    unfold resolvedReturnType MethodDecl.result
    rw [hm.returns.1, hm.returns.2]
    cases hret : decl.returnType with
    | none => exact ⟨.void, rfl, trivial, rfl⟩
    | some w =>
      obtain ⟨τ, hτ⟩ := h.isReturnType_iff.mp
        (hok.results d (List.mem_of_getElem? hd) decl hmem w hret)
      refine ⟨τ, ?_, h.resolveType_eq_some hτ⟩
      show (t.resolveType w.text).or _ = _
      rw [hτ]
      rfl
  obtain ⟨τ, hret, hk, hs⟩ := hreturns
  exact ⟨ts, τ, hparams, hknown, hargs, hret, hk, hs⟩

theorem map_sourceTy_inj {ts us : List Ty} (hts : ∀ τ ∈ ts, t.Known τ) (hus : ∀ τ ∈ us, t.Known τ) :
    ts.map t.sourceTy = us.map t.sourceTy ↔ ts = us := by
  refine ⟨fun heq => ?_, fun heq => heq ▸ rfl⟩
  induction ts generalizing us with
  | nil => exact (List.map_eq_nil_iff.mp heq.symm).symm
  | cons τ rest ih =>
    cases us with
    | nil => cases heq
    | cons σ rest' =>
      obtain ⟨hhead, htail⟩ := List.cons.inj heq
      rw [(h.sourceTy_inj (hts τ List.mem_cons_self) (hus σ List.mem_cons_self)).mp hhead,
        ih (fun x hx => hts x (List.mem_cons_of_mem τ hx))
          (fun x hx => hus x (List.mem_cons_of_mem σ hx)) htail]

/-- **Two methods have one signature** exactly if their declarations are written
with the same types. -/
theorem sameSignature_iff (hok : p.TypesOk) {m n : MethodId} {c a : ClassId}
    {decl decl' : MethodDecl} (hm : HoldsMethod p t m c decl) (hn : HoldsMethod p t n a decl') :
    t.resolve.table.sameSignature m n = true
      ↔ decl.argTypes = decl'.argTypes ∧ decl.result = decl'.result := by
  obtain ⟨ts, τ, hτ⟩ := h.takesAndReturns hok hm
  obtain ⟨us, σ, hσ⟩ := h.takesAndReturns hok hn
  rw [SymbolTable.sameSignature_iff, hτ.params, hσ.params, hτ.returns, hσ.returns, ← hτ.args,
    ← hσ.args, ← hτ.result, ← hσ.result, h.sourceTy_inj hτ.result_known hσ.result_known,
    h.map_sourceTy_inj (fun x hx => (hτ.known x hx).1) (fun x hx => (hσ.known x hx).1),
    Option.some.injEq, List.map_inj_right (fun _ _ => Option.some.inj), and_comm]

/-! ## The most derived declarations -/

/-- **The most derived ancestors by names are those by positions.** -/
theorem mostDerived_iff (hanc : p.AncestryOk) {declares : String → Prop}
    {holds : ClassId → Prop}
    (hd : ∀ a < t.classes.length, (declares (t.classAt a).name ↔ holds a)) {c : ClassId}
    (hc : c < t.classes.length) {x : String} :
    p.MostDerived declares (t.classAt c).name x
      ↔ ∃ a < t.classes.length, (t.classAt a).name = x
        ∧ t.resolve.table.MostDerived c holds a := by
  have hacyclic : ∀ a, ¬ t.resolve.table.Ancestor a a := fun a =>
    h.fresh.acyclic (h.fresh.not_broken_of_sound (h.ancestryOk_iff.mp hanc) a)
  constructor
  · rintro ⟨hca, hda, hno⟩
    obtain ⟨a, ha, rfl⟩ := h.exists_of_ancestor hanc.parents hca
    refine ⟨a, ha, rfl, (h.ancestor_iff hc ha).mp hca, (hd a ha).mp hda, fun b hcb hdb hba => ?_⟩
    have hb : b < t.classes.length := t.resolve_length ▸ lt_of_ancestor hba
    refine hno (t.classAt b).name ((h.ancestor_iff hc hb).mpr hcb) ((hd b hb).mpr hdb) ?_
      ((h.ancestor_iff hb ha).mpr hba)
    intro hname
    obtain rfl := h.name_inj hb ha hname
    exact hacyclic b hba
  · rintro ⟨a, ha, rfl, hm⟩
    refine ⟨(h.ancestor_iff hc ha).mpr hm.ancestor, (hd a ha).mpr hm.holds, ?_⟩
    intro y hcy hdy _ hya
    obtain ⟨b, hb, rfl⟩ := h.exists_of_ancestor hanc.parents hcy
    exact hm.overridden b ((h.ancestor_iff hc hb).mp hcy) ((hd b hb).mp hdy)
      ((h.ancestor_iff hb ha).mp hya)

/-- **The most derived declarations of a method.** -/
theorem mostDerived_method_iff (hanc : p.AncestryOk) {name : String} {c : ClassId}
    (hc : c < t.classes.length) {x : String} :
    p.MostDerived (p.HasMethod name) (t.classAt c).name x
      ↔ ∃ a < t.classes.length, (t.classAt a).name = x
        ∧ t.resolve.table.MostDerived c
          (fun a => t.resolve.table.declaredMethod a name ≠ none) a := by
  refine h.mostDerived_iff hanc (fun a ha => ?_) hc
  rw [declaredMethod_of_declared (resolve_declared t)]
  exact h.hasMethod_iff ha

/-- **No inherited method is ambiguous** exactly if resolution finds none. -/
theorem unambiguous_iff (htypes : p.TypesOk) (hanc : p.AncestryOk) :
    p.Unambiguous ↔ t.resolve.table.ambiguities t.ancestry = [] := by
  have hb := h.fresh.not_broken_of_sound (h.ancestryOk_iff.mp hanc)
  have hdecl := declaredMethod_of_declared (resolve_declared t)
  rw [h.fresh.ambiguities_eq_nil_iff]
  constructor
  · intro hok c hc name hamb
    obtain ⟨hown, a, m, b, n, ha, hm, hb', hn, hdiffer⟩ :=
      (h.fresh.isAmbiguous_iff_differ hc (hb c)).mp hamb
    rw [hdecl] at hown hm hn
    obtain ⟨decl, hm, hname⟩ := h.holds_of_declaredMethod hm
    obtain ⟨decl', hn, hname'⟩ := h.holds_of_declaredMethod hn
    have hlt := h.holdsMethod_lt hm
    have hlt' := h.holdsMethod_lt hn
    refine hdiffer ((h.sameSignature_iff htypes hm hn).mpr ?_)
    refine hok (t.classAt c).name name (h.hasClass_name hc) ?_ (t.classAt a).name
      (t.classAt b).name decl decl' ?_ ?_ ?_ hname ?_ hname'
    · rw [h.hasMethod_iff hc, not_not]
      exact hown
    · exact (h.mostDerived_method_iff hanc hc).mpr ⟨a, hlt, rfl, ha⟩
    · exact (h.mostDerived_method_iff hanc hc).mpr ⟨b, hlt', rfl, hb'⟩
    · exact (h.declaresMethod_iff hlt).mpr ⟨m, hm⟩
    · exact (h.declaresMethod_iff hlt').mpr ⟨n, hn⟩
  · intro hnone x name hx hown y z decl decl' hy hz hd hname hd' hname'
    obtain ⟨c, hlookup⟩ := h.hasClass_iff.mp hx
    obtain ⟨hc, rfl⟩ := (lookupClass_eq_some_iff h.formed).mp hlookup
    obtain ⟨a, ha, rfl, hmost⟩ := (h.mostDerived_method_iff hanc hc).mp hy
    obtain ⟨b, hb', rfl, hmost'⟩ := (h.mostDerived_method_iff hanc hc).mp hz
    obtain ⟨m, hm⟩ := (h.declaresMethod_iff ha).mp hd
    obtain ⟨n, hn⟩ := (h.declaresMethod_iff hb').mp hd'
    rw [← h.sameSignature_iff htypes hm hn]
    by_contra hdiffer
    refine hnone c hc name ((h.fresh.isAmbiguous_iff_differ hc (hb c)).mpr
      ⟨?_, a, m, b, n, hmost, ?_, hmost', ?_, hdiffer⟩)
    · rw [h.hasMethod_iff hc, not_not] at hown
      rw [hdecl, hown]
    · rw [hdecl, ← hname, h.declaredMethod_of_holds hm]
    · rw [hdecl, ← hname', h.declaredMethod_of_holds hn]

/-- **Resolution finds nothing exactly if types, ancestry and inherited methods
are in order.** -/
theorem resolve_issues_eq_nil_iff :
    t.resolve.issues = [] ↔ p.TypesOk ∧ p.AncestryOk ∧ p.Unambiguous := by
  rw [resolve_issues, List.append_eq_nil_iff, List.append_eq_nil_iff, List.append_eq_nil_iff,
    List.append_eq_nil_iff, parentIssues_eq_nil_iff, cycleIssues_eq_nil_iff]
  constructor
  · rintro ⟨⟨⟨⟨htypes, hparents⟩, hcycles⟩, -⟩, hamb⟩
    have htypes := h.typesOk_iff.mpr htypes
    have hanc : p.AncestryOk := h.ancestryOk_iff.mpr fun c hd => by
      rcases hd with hd | hd
      · exact hparents c (lt_of_defective (Or.inl hd)) hd
      · exact hcycles c hd
    exact ⟨htypes, hanc, (h.unambiguous_iff htypes hanc).mpr hamb⟩
  · rintro ⟨htypes, hanc, hamb⟩
    have hsound := h.ancestryOk_iff.mp hanc
    exact ⟨⟨⟨⟨h.typesOk_iff.mp htypes, fun c _ hd => hsound c (Or.inl hd)⟩,
      fun c hd => hsound c (Or.inr hd)⟩, h.fresh.taintIssues_eq_nil hsound⟩,
      (h.unambiguous_iff htypes hanc).mp hamb⟩

end Represents

end Heritage
