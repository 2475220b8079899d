import Heritage.Proofs.Bodies
import Heritage.Proofs.Names
import Heritage.Proofs.Pipeline

/-!
# Exactly the well-formed programs are accepted

A compilation succeeds if none of its three parts finds anything. Collecting
finds nothing exactly if the names of the program are in order; resolving, if
its types, its ancestry and its inherited methods are; and writing, if its
bodies are typable. Each part is only looked at where the ones before it found
nothing, for then the table says what the program says.
-/

namespace Heritage

open SymbolTable

/-! ## Where a body begins -/

namespace Body

variable {p : Program} {t : SymbolTable} {b : Body} {result : Ty} {decl : MethodDecl}

/-- A body begins in one block, with its parameters. -/
theorem start_blocks (b : Body) : b.start.blocks b.table = [b.table.paramsOf b.method] := by
  refine congrArg (fun block => [block]) (List.filter_eq_self.mpr fun v hv => ?_)
  exact beq_iff_eq.mpr (mem_paramsOf.mp hv).2.1

/-- The receiver of a method is an object of its class. -/
theorem Of.receiver_declared (hb : b.Of p t result) {v : VarId} {s : ScopeId} {name : String}
    {owner : ClassId} {span : Span} (hv : t.varAt v = receiverSymbol s name owner span) :
    b.Typed t v ∧ b.binding t v = ⟨name, .object (t.classAt b.cls).name, true⟩ := by
  have hvar : b.table.varAt v = receiverSymbol s name owner span := by
    rw [hb.table, resolve_varAt, hv]
    rfl
  have htype : b.varType? v = some (.cls b.cls) := by
    unfold varType?
    rw [hvar]
    rfl
  refine ⟨⟨_, htype, hb.cls_lt, Ty.noConfusion⟩, ?_⟩
  unfold binding
  rw [htype, hvar]
  rfl

/-- The explicit parameters of a method have the types they were written with. -/
theorem Of.params_declared (hb : b.Of p t result) {s : ScopeId} {params : List Param}
    {vs : List VarId} (hlt : ∀ v ∈ vs, v < t.vars.length)
    (hvs : vs.map t.varAt = paramSymbols s params) :
    (∀ v ∈ vs, b.Typed t v)
      ∧ vs.map (b.binding t)
        = params.filterMap fun q => q.type.map fun w => ⟨q.name.text, .ofWord w.text, false⟩ := by
  have hwritten : ∀ v ∈ vs, b.Typed t v ∧ b.binding t v
      = ⟨(t.varAt v).name, .ofWord ((t.varAt v).typeName.elim "" Ident.text), false⟩ := by
    intro v hv
    have hmem : t.varAt v ∈ paramSymbols s params := hvs ▸ List.mem_map_of_mem hv
    obtain ⟨q, -, hq⟩ := List.mem_filterMap.mp hmem
    obtain ⟨w, -, hsymbol⟩ := Option.map_eq_some_iff.mp hq
    have hname : (t.varAt v).typeName = some w := by rw [← hsymbol]; rfl
    obtain ⟨_, -, -, -, htyped, hbinding⟩ := hb.written_var (hlt v hv)
      (by rw [← hsymbol]; rfl) hname (by rw [← hsymbol]; exact VarKind.noConfusion)
    refine ⟨htyped, ?_⟩
    rw [hbinding, hname]
    rfl
  refine ⟨fun v hv => (hwritten v hv).1, ?_⟩
  rw [List.map_congr_left fun v hv => (hwritten v hv).2]
  have hmap := congrArg (List.map fun k : VarSymbol =>
    (⟨k.name, .ofWord (k.typeName.elim "" Ident.text), false⟩ : Binding)) hvs
  rw [List.map_map] at hmap
  refine hmap.trans ?_
  unfold paramSymbols
  rw [List.map_filterMap]
  refine List.filterMap_congr fun q _ => ?_
  rw [Option.map_map]
  rfl

/-- **A body begins with its parameters in scope.** -/
theorem Of.start_context (hb : b.Of p t result) (hm : HoldsMethod p t b.method b.cls decl) :
    (∀ v ∈ b.start.visible, b.Typed t v)
      ∧ b.context t b.start = [decl.bindings (t.classAt b.cls).name] := by
  obtain ⟨receiver, params, hp, -, hsymbols⟩ := hm.params
  have hvisible : b.table.paramsOf b.method = t.paramsOf b.method := by
    rw [hb.table, paramsOf_of_declared (resolve_declared t)]
  obtain ⟨v, vs, hvs, hv, hrest⟩ := List.map_eq_cons_iff.mp hsymbols
  obtain ⟨htyped, hbinding⟩ := hb.receiver_declared hv
  obtain ⟨htypedRest, hbindingRest⟩ := hb.params_declared
    (fun w hw => (mem_paramsOf.mp (hvs ▸ List.mem_cons_of_mem v hw)).1) hrest
  constructor
  · show ∀ w ∈ b.table.paramsOf b.method, b.Typed t w
    rw [hvisible, hvs]
    exact List.forall_mem_cons.mpr ⟨htyped, htypedRest⟩
  · unfold context MethodDecl.bindings
    rw [start_blocks, hvisible, hvs, hp, List.map_singleton, List.map_cons, hbinding, hbindingRest]

end Body

/-! ## Programs -/

section Programs

variable {p : Program}

/-- **The body of a registered method** is one of a method of the table, which
holds what was written of it. -/
theorem registered_body (clean : (collect p).issues = []) (h : Settled p (collect p).table)
    {r : Registered} (hr : r ∈ registered p) :
    ∃ τ, Body.Of p (collect p).table ⟨(collect p).table.resolve.table, r.method⟩ τ
      ∧ (collect p).table.sourceTy τ = r.decl.result
      ∧ HoldsMethod p (collect p).table r.method
        (Body.cls ⟨(collect p).table.resolve.table, r.method⟩) r.decl := by
  have hm := registered_holds clean hr
  obtain ⟨d, hd, -⟩ := mem_of_registered clean hr
  obtain ⟨ts, τ, htypes⟩ := h.represents.takesAndReturns h.types hm
  have howner : Body.cls ⟨(collect p).table.resolve.table, r.method⟩
      = ((collect p).table.methodAt r.method).owner := by
    unfold Body.cls
    rw [resolve_methodAt]
  exact ⟨τ, ⟨h, rfl, howner ▸ h.represents.lt_of_decl hd, htypes.returns, htypes.result_known⟩,
    htypes.result, howner ▸ hm⟩

/-- **Nothing is wrong with the body of a registered method** exactly if it is
typable by the rules. -/
theorem registered_issues_eq_nil_iff (clean : (collect p).issues = [])
    (h : Settled p (collect p).table) {r : Registered} (hr : r ∈ registered p) {d : ClassDecl}
    (hd : p.classes[((collect p).table.methodAt r.method).owner]? = some d) :
    Body.issuesAll ⟨(collect p).table.resolve.table, r.method⟩ r.decl.body
        (Body.start ⟨(collect p).table.resolve.table, r.method⟩) = []
      ↔ StmtsOk p d.name.text r.decl.result [r.decl.bindings d.name.text] r.decl.body := by
  have hu := resolve_declared (collect p).table
  obtain ⟨τ, hb, hresult, hm⟩ := registered_body clean h hr
  obtain ⟨env, hfollows⟩ := follows_registered hr hu
  obtain ⟨htyped, hcontext⟩ := hb.start_context hm
  have hname : ((collect p).table.classAt
      (Body.cls ⟨(collect p).table.resolve.table, r.method⟩)).name
      = d.name.text := by
    unfold Body.cls
    rw [resolve_methodAt]
    exact (h.represents.classAt hd).1
  rw [hb.issuesAll_eq_nil_iff clean hfollows (sound_start hr hu) htyped, hcontext, hresult, hname]

/-- **Nothing is wrong with the bodies of a program** exactly if they are typable
by the rules. -/
theorem file_issues_eq_nil_iff (clean : (collect p).issues = [])
    (h : Settled p (collect p).table) :
    (C.File.ofTable (collect p).table.resolve.table p).issues = [] ↔ p.BodiesOk := by
  rw [file_issues_registered p (resolve_declared _), List.flatMap_eq_nil_iff]
  constructor
  · intro hnil d hd m hm
    obtain ⟨c, hc⟩ := List.getElem?_of_mem hd
    obtain ⟨r, hr, rfl, rfl⟩ := registered_of_mem clean hc hm
    exact (registered_issues_eq_nil_iff clean h hr hc).mp (hnil r hr)
  · intro hok r hr
    obtain ⟨d, hd, hm⟩ := mem_of_registered clean hr
    exact (registered_issues_eq_nil_iff clean h hr hd).mpr
      (hok d (List.mem_of_getElem? hd) r.decl hm)

/-- A program in which a compilation finds nothing is settled. -/
theorem settled_of_issues {o : Options} {p : Program} (h : (Compilation.run o p).issues = []) :
    (collect p).issues = [] ∧ Settled p (collect p).table
      ∧ (C.File.ofTable (collect p).table.resolve.table p).issues = [] := by
  obtain ⟨hfront, hfile⟩ := List.append_eq_nil_iff.mp h
  obtain ⟨hcollect, hresolve⟩ := List.append_eq_nil_iff.mp hfront
  have hr := represents_collect hcollect
  obtain ⟨htypes, hancestry, hunambiguous⟩ := hr.resolve_issues_eq_nil_iff.mp hresolve
  exact ⟨hcollect, ⟨hr, htypes, hancestry, hunambiguous⟩, hfile⟩

/-- **A compilation finds nothing exactly if the program is well-formed.** -/
theorem issues_eq_nil_iff_wellFormed (o : Options) (p : Program) :
    (Compilation.run o p).issues = [] ↔ p.WellFormed := by
  constructor
  · intro h
    obtain ⟨hcollect, hsettled, hfile⟩ := settled_of_issues h
    exact ⟨(collect_issues_eq_nil_iff p).mp hcollect, hsettled.types, hsettled.ancestry,
      hsettled.unambiguous, (file_issues_eq_nil_iff hcollect hsettled).mp hfile⟩
  · rintro ⟨hnames, htypes, hancestry, hunambiguous, hbodies⟩
    have hcollect := (collect_issues_eq_nil_iff p).mpr hnames
    have hr := represents_collect hcollect
    have hresolve := hr.resolve_issues_eq_nil_iff.mpr ⟨htypes, hancestry, hunambiguous⟩
    have hfile :=
      (file_issues_eq_nil_iff hcollect ⟨hr, htypes, hancestry, hunambiguous⟩).mpr hbodies
    exact List.append_eq_nil_iff.mpr ⟨List.append_eq_nil_iff.mpr ⟨hcollect, hresolve⟩, hfile⟩

end Programs

/-- **A compilation has an output exactly if it found nothing.** -/
theorem exists_ok_iff (o : Options) (p : Program) :
    (∃ out, compileWith o p = .ok out) ↔ (Compilation.run o p).issues = [] := by
  rw [compileWith_eq]
  split
  case isTrue hnil => exact iff_of_true ⟨_, rfl⟩ hnil
  case isFalse hsome => exact iff_of_false (fun ⟨_, hok⟩ => nomatch hok) hsome

/-- **Exactly the well-formed programs are accepted.** -/
theorem compile_ok_iff_wellFormed (p : Program) :
    (∃ out, compile p = .ok out) ↔ p.WellFormed :=
  (exists_ok_iff {} p).trans (issues_eq_nil_iff_wellFormed {} p)

end Heritage
