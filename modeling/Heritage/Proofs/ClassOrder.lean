import Heritage.Proofs.Assembly
import Heritage.Proofs.Limits
import Heritage.Proofs.Parts
import Heritage.Proofs.RenamedBodies

/-!
# The order of the classes does not matter

Let the classes of a program have different names, and let another program have
the same classes in another order. Their tables are renamed into each other, so
the same issues are found, and the parts that are written for a class or a
method are the same. What does change is where a part stands: the classes are
numbered in the order in which they are written, and all else follows them.
-/

namespace Heritage

open SymbolTable

section Orders

variable {p p' : Program} {σ : Renaming}

/-! ## Declarations stay with their symbols -/

/-- **A class is found under its new number.** -/
theorem classDecl_renamed (distinct : (p.classes.map (·.name.text)).Nodup)
    (order : p.classes.Perm p'.classes) (h : Renamed σ (collect p).table (collect p').table)
    {c : ClassId} (hc : c < (collect p).table.classes.length) :
    p'.classes[((collect p').table.classAt (σ.cls c)).declIndex]?
      = p.classes[((collect p).table.classAt c).declIndex]? := by
  have hc' : σ.cls c < (collect p').table.classes.length := h.classes.lt_iff.mpr hc
  obtain ⟨d, hd, hk⟩ := class_declared p (List.mem_of_getElem? (getElem?_eq_getD hc _))
  obtain ⟨d', hd', hk'⟩ := class_declared p' (List.mem_of_getElem? (getElem?_eq_getD hc' _))
  have hname : d'.name.text = d.name.text := by
    have hsame := (h.embedded.classAt c).1
    rw [classAt, classAt, hk, hk'] at hsame
    exact hsame
  have heq : d' = d := List.inj_on_of_nodup_map distinct
    (order.mem_iff.mpr (List.mem_of_getElem? hd')) (List.mem_of_getElem? hd) hname
  rw [classAt, classAt, hd, hd', heq]

theorem declarationOf_renamed (distinct : (p.classes.map (·.name.text)).Nodup)
    (order : p.classes.Perm p'.classes) (h : Renamed σ (collect p).table (collect p').table)
    {m : MethodId} (hm : m < (collect p).table.methods.length) :
    C.declarationOf (collect p').table p' (σ.method m)
      = (C.declarationOf (collect p).table p m).map (Prod.map σ.method id) := by
  have howner := (collect_formed p).methodAt_owner_lt hm
  obtain ⟨hname, -, hspan, -⟩ := h.embedded.classAt ((collect p).table.methodAt m).owner
  unfold C.declarationOf C.methodDecl
  rw [h.embedded.methodAt_of_lt hm]
  dsimp only [Renaming.methodSymbol]
  rw [classDecl_renamed distinct order h howner, hname, hspan]
  cases p.classes[((collect p).table.classAt ((collect p).table.methodAt m).owner).declIndex]? with
  | none => rfl
  | some d =>
    dsimp only
    split <;> rfl

/-- The methods with their declarations, by number. -/
theorem heldMethods_eq (p : Program) {u : SymbolTable}
    (hu : u.declared = (collect p).table.declared) :
    C.heldMethods u p
      = (List.range (collect p).table.methods.length).filterMap fun m =>
        (C.declarationOf (collect p).table p m).toOption := by
  rw [heldMethods_registered p hu, ← registered_methods, List.filterMap_map,
    ← List.filterMap_eq_map]
  refine List.filterMap_congr fun r hr => ?_
  show some (r.method, r.decl) = (C.declarationOf (collect p).table p r.method).toOption
  rw [declarationOf_registered hr rfl]
  rfl

/-- **The same methods are held**, under their new numbers. -/
theorem heldMethods_perm (distinct : (p.classes.map (·.name.text)).Nodup)
    (order : p.classes.Perm p'.classes) (h : Renamed σ (collect p).table (collect p').table)
    {u u' : SymbolTable} (hu : u.declared = (collect p).table.declared)
    (hu' : u'.declared = (collect p').table.declared) :
    ((C.heldMethods u p).map (Prod.map σ.method id)).Perm (C.heldMethods u' p') := by
  rw [heldMethods_eq p hu, heldMethods_eq p' hu', List.map_filterMap]
  refine List.Perm.trans (List.Perm.of_eq ?_)
    ((h.methods.range_perm σ.method_injective).filterMap _)
  rw [List.filterMap_map]
  refine List.filterMap_congr fun m hm => ?_
  show _ = (C.declarationOf (collect p').table p' (σ.method m)).toOption
  rw [declarationOf_renamed distinct order h (List.mem_range.mp hm)]
  cases C.declarationOf (collect p).table p m <;> rfl

/-! ## The same parts are written -/

theorem structs_perm {t t' : SymbolTable} (h : Transported σ t t')
    (hperm : t.structOrder.Perm t.classIds) (hperm' : t'.structOrder.Perm t'.classIds) :
    (C.Parts.ofTable t p).structs.Perm (C.Parts.ofTable t' p').structs := by
  have hparts : t.classIds.map (C.structPart t)
      = (t.classIds.map σ.cls).map (C.structPart t') := by
    rw [List.map_map]
    exact List.map_congr_left fun c _ => (structPart_carried h.toCarried c).symm
  refine (hperm.map _).trans (List.Perm.trans ?_ (hperm'.map _).symm)
  rw [hparts]
  exact h.classIds_perm.map _

theorem functions_perm (distinct : (p.classes.map (·.name.text)).Nodup)
    (order : p.classes.Perm p'.classes) (h : Renamed σ (collect p).table (collect p').table) :
    (C.Parts.ofTable (collect p).table.resolve.table p).functions.Perm
      (C.Parts.ofTable (collect p').table.resolve.table p').functions := by
  have ht := h.transported (collect_formed p) (collect_fresh p) (collect_fresh p')
  have hheld := heldMethods_perm distinct order h (resolve_declared _) (resolve_declared _)
  have hparts : (C.heldMethods (collect p).table.resolve.table p).map
        (C.functionPart (collect p).table.resolve.table)
      = ((C.heldMethods (collect p).table.resolve.table p).map (Prod.map σ.method id)).map
        (C.functionPart (collect p').table.resolve.table) := by
    rw [List.map_map]
    refine List.map_congr_left fun m hm =>
      (functionPart_carried ht.toCarried ?_ fun _ _ => trivial).symm
    exact lt_of_mem_heldMethods (resolve_declared _) hm
  unfold C.Parts.ofTable
  dsimp only
  rw [hparts]
  exact hheld.map _

/-! ## The same issues are found -/

theorem file_issues_perm (distinct : (p.classes.map (·.name.text)).Nodup)
    (order : p.classes.Perm p'.classes) (h : Renamed σ (collect p).table (collect p').table) :
    (C.File.ofTable (collect p).table.resolve.table p).issues.Perm
      (C.File.ofTable (collect p').table.resolve.table p').issues := by
  have ht := h.transported (collect_formed p) (collect_fresh p) (collect_fresh p')
  have hissues : ∀ q : Program, (C.File.ofTable (collect q).table.resolve.table q).issues
      = (C.heldMethods (collect q).table.resolve.table q).flatMap fun m =>
        Body.issuesAll ⟨(collect q).table.resolve.table, m.1⟩ m.2.body
          (Body.start ⟨(collect q).table.resolve.table, m.1⟩) := by
    intro q
    rw [file_issues_registered q (resolve_declared _),
      heldMethods_registered q (resolve_declared _), List.flatMap_map]
  have hheld := heldMethods_perm distinct order h (resolve_declared _) (resolve_declared _)
  rw [hissues p, hissues p']
  refine List.Perm.trans (List.Perm.of_eq ?_) (hheld.flatMap_right _)
  rw [List.flatMap_map]
  refine List.flatMap_congr fun m hm =>
    ((carried_body ht.toCarried ?_).issuesAll_start m.2.body fun _ _ => trivial).symm
  exact lt_of_mem_heldMethods (resolve_declared _) hm

theorem issues_perm (distinct : (p.classes.map (·.name.text)).Nodup)
    (order : p.classes.Perm p'.classes) :
    (Compilation.run {} p).issues.Perm (Compilation.run {} p').issues := by
  obtain ⟨σ, h⟩ := collect_renamed distinct order
  exact ((collect_issues_perm distinct order).append
    (h.resolve_issues_perm (collect_formed p) (collect_fresh p) (collect_fresh p'))).append
    (file_issues_perm distinct order h)

end Orders

/-- **The order of the classes does not matter.** Let the classes of a program have different
names, and let another program have them in another order. If one of the two is accepted, so is
the other, and whether or not they are, the same issues are reported for both. Their files are
made of the same parts, class by class and method by method, and those of an accepted program
have one for each class and each method of it. -/
theorem class_order_irrelevant {p p' : Program} (distinct : (p.classes.map (·.name.text)).Nodup)
    (order : p.classes.Perm p'.classes) :
    let c := Compilation.run {} p
    let c' := Compilation.run {} p'
    let parts := C.Parts.ofTable c.resolved.table p
    let parts' := C.Parts.ofTable c'.resolved.table p'
    ((∃ out, compile p = .ok out) ↔ ∃ out, compile p' = .ok out)
      ∧ c.report.issues.Perm c'.report.issues
      ∧ c.file.MadeOf parts
      ∧ c'.file.MadeOf parts'
      ∧ parts.structs.Perm parts'.structs
      ∧ parts.functions.Perm parts'.functions
      ∧ ((∃ out, compile p = .ok out) → parts.Covers p ∧ parts'.Covers p') := by
  intro c c' parts parts'
  have hissues : c.issues.Perm c'.issues := issues_perm distinct order
  have hiff : (∃ out, compile p = .ok out) ↔ ∃ out, compile p' = .ok out := by
    refine (exists_ok_iff {} p).trans (Iff.trans ?_ (exists_ok_iff {} p').symm)
    exact ⟨fun h => (h ▸ hissues).nil_eq.symm, fun h => (h ▸ hissues).eq_nil⟩
  have hcovers : ∀ q : Program, (∃ out, compile q = .ok out) →
      (C.Parts.ofTable (Compilation.run {} q).resolved.table q).Covers q := by
    intro q hok
    have hnil := (exists_ok_iff {} q).mp hok
    exact C.Parts.covers (resolve_declared _)
      (List.append_eq_nil_iff.mp (List.append_eq_nil_iff.mp hnil).1).1
      (collect_fresh q).structOrder_perm
  obtain ⟨σ, h⟩ := collect_renamed distinct order
  refine ⟨hiff, ?_, C.File.madeOf_parts p (resolve_declared _),
    C.File.madeOf_parts p' (resolve_declared _), ?_, functions_perm distinct order h, ?_⟩
  · rw [Compilation.report_issues_of_limit_none rfl, Compilation.report_issues_of_limit_none rfl]
    exact hissues
  · exact structs_perm (h.transported (collect_formed p) (collect_fresh p) (collect_fresh p'))
      (collect_fresh p).structOrder_perm (collect_fresh p').structOrder_perm
  · exact fun hok => ⟨hcovers p hok, hcovers p' (hiff.mp hok)⟩

/-- A class with a field and a method that reads it. -/
def countingClass : ClassDecl where
  name := ⟨"Counter", {}⟩
  parents := []
  members :=
    [.field ⟨⟨"int", {}⟩, [⟨"n", {}⟩], {}⟩,
      .method ⟨⟨"read", {}⟩, [⟨⟨"self", {}⟩, none, {}⟩], some ⟨"int", {}⟩,
        [.ret (some (.name ⟨"n", {}⟩)) {}], {}, {}⟩]
  span := {}

/-- A class that inherits from it, with a method that calls the inherited one. -/
def inheritingClass : ClassDecl where
  name := ⟨"Timer", {}⟩
  parents := [⟨"Counter", {}⟩]
  members :=
    [.method ⟨⟨"left", {}⟩, [⟨⟨"self", {}⟩, none, {}⟩], some ⟨"int", {}⟩,
      [.ret (some (.call ⟨"read", {}⟩ [] {})) {}], {}, {}⟩]
  span := {}

/-- A class may come before the class it inherits from. -/
theorem class_order_irrelevant_child_first :
    let p : Program := ⟨[countingClass, inheritingClass], {}⟩
    let p' : Program := ⟨[inheritingClass, countingClass], {}⟩
    (p.classes.map (·.name.text)).Nodup
      ∧ p.classes.Perm p'.classes
      ∧ (∃ out, compile p' = .ok out)
      ∧ (C.Parts.ofTable (Compilation.run {} p).resolved.table p).functions.Perm
        (C.Parts.ofTable (Compilation.run {} p').resolved.table p').functions := by
  intro p p'
  have distinct : (p.classes.map (·.name.text)).Nodup := by decide
  have order : p.classes.Perm p'.classes := .swap _ _ _
  have ok : ∃ out, compile p = .ok out := (exists_ok_iff {} p).mpr (by decide +kernel)
  obtain ⟨hok, -, -, -, -, hfunctions, -⟩ := class_order_irrelevant distinct order
  exact ⟨distinct, order, hok.mp ok, hfunctions⟩

end Heritage
