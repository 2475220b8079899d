import Heritage.Proofs.ClassOrder
import Heritage.Proofs.Extension

/-!
# Adding a class changes nothing that was there

Let a class be written behind an accepted program, and let the whole be accepted
too. The class may inherit from any class of the program and override what it
likes. Still, the file of the whole is the file of the program with the parts of
the new class behind its own: a forward declaration, a struct, and a prototype
and a definition for each of its methods.

What could make a difference is a call without a receiver, since it constructs
an object if a class has its name and calls a method if none has.
-/

namespace Heritage

open SymbolTable

/-- The names that the methods of a class call without a receiver. -/
def ClassDecl.callees (d : ClassDecl) : List String :=
  d.methods.flatMap fun m => calleesAll m.2.body

/-- **The names that a program calls without a receiver.** -/
def Program.callees (p : Program) : List String :=
  p.classes.flatMap ClassDecl.callees

theorem ClassDecl.exists_mem_methods {d : ClassDecl} {m : MethodDecl}
    (hm : Member.method m ∈ d.members) : ∃ i, (i, m) ∈ d.methods := by
  obtain ⟨i, hi⟩ := List.getElem?_of_mem hm
  refine ⟨i, List.mem_filterMap.mpr ⟨(.method m, i), ?_, rfl⟩⟩
  exact List.mk_mem_zipIdx_iff_getElem?.mpr hi

theorem mem_callees_of_registered {p : Program} {r : Registered} (hr : r ∈ registered p)
    {name : String} (hname : name ∈ calleesAll r.decl.body) : name ∈ p.callees := by
  obtain ⟨t, c, d, index, v⟩ := visited p hr
  obtain ⟨i, hi⟩ := ClassDecl.exists_mem_methods (List.mem_of_getElem? v.inClass)
  exact List.mem_flatMap.mpr ⟨d, List.mem_of_getElem? v.inProgram,
    List.mem_flatMap.mpr ⟨(i, r.decl), hi, hname⟩⟩

/-! ## The methods of a class in order -/

/-- What a walk that finds nothing wrong sees, element by element. -/
theorem Collected.trace_adds {α β γ : Type} {f : α → SymbolTable → Collected}
    {g : α → SymbolTable → List β} (view : β → γ) (added : α → List γ)
    (one : ∀ a t, (f a t).issues = [] → (g a t).map view = added a) (xs : List α)
    {t : SymbolTable} (clean : (each f xs t).issues = []) :
    (trace f g xs t).map view = xs.flatMap added := by
  induction xs generalizing t with
  | nil => rfl
  | cons a rest ih =>
    obtain ⟨hone, hrest⟩ := List.append_eq_nil_iff.mp clean
    show (g a t ++ trace f g rest (f a t).table).map view = _
    rw [List.map_append, one a t hone, ih hrest]
    rfl

/-- **A class in which nothing is found registers its methods in order.** -/
theorem registeredClass_decls {d : ClassDecl × Nat} {t : SymbolTable}
    (clean : (collectClass d t).issues = []) :
    (registeredClass d t).map (·.decl) = d.1.methods.map (·.2) := by
  rcases collectClass_cases d t with ⟨-, -, hne⟩ | ⟨-, hc, hreg⟩
  · exact absurd clean hne
  · rw [hc] at clean
    rw [hreg]
    unfold ClassDecl.methods
    rw [List.map_filterMap, List.filterMap_eq_flatMap_toList]
    refine Collected.trace_adds Registered.decl _ (fun m u hu => ?_) _ clean
    obtain ⟨member, index⟩ := m
    cases member with
    | field decl => rfl
    | method decl =>
      rcases collectMethod_cases t.classes.length index decl u with
        ⟨-, -, hne⟩ | ⟨receiver, params, -, -, -, -, hmethod⟩
      · exact absurd hu hne
      · show (registeredMethod _ index decl u).map (·.decl) = [decl]
        rw [hmethod]
        rfl

namespace Extended

variable {p p' : Program} {d : ClassDecl} (h : Extended p p' d)
include h

/-! ## The parts of the program -/

/-- **The functions of the program are written as before.** -/
theorem functionPart_eq (uncalled : d.name.text ∉ p.callees) {r : Registered}
    (hr : r ∈ registered p) :
    C.functionPart (collect p').table.resolve.table (r.method, r.decl)
      = C.functionPart (collect p).table.resolve.table (r.method, r.decl) := by
  have hmem : r.method ∈ (registered p).map (·.method) := List.mem_map_of_mem hr
  rw [registered_methods, List.mem_range] at hmem
  have hlt : r.method < (collect p).table.resolve.table.methods.length := by
    rwa [methods_length_of_declared (resolve_declared _)]
  have hpart := functionPart_carried h.carried (m := (r.method, r.decl)) hlt fun w hw heq =>
    uncalled (heq ▸ mem_callees_of_registered hr hw)
  rwa [Prod.map_apply, show (Renaming.added p d).method r.method = r.method from
    makeRoom_of_lt hmem] at hpart

/-- **The structs of the program are written as before.** -/
theorem structPart_eq {c : ClassId} (hc : c ∈ (collect p).table.resolve.table.structOrder) :
    C.structPart (collect p').table.resolve.table c
      = C.structPart (collect p).table.resolve.table c := by
  rw [(collect_fresh p).structOrder_perm.mem_iff, classIds, List.mem_range, resolve_length] at hc
  have hpart := structPart_carried h.carried c
  rwa [show (Renaming.added p d).cls c = c from makeRoom_of_lt hc] at hpart

/-! ## The parts of the class -/

section Names

variable {u : SymbolTable} (hu : u.declared = (collect p').table.declared)
include hu

theorem className_eq : (u.classAt p.classes.length).name = d.name.text := by
  have hd : p'.classes[p.classes.length]? = some d := by
    rw [h.classes]
    exact List.getElem?_concat_length
  have hat := classAt_of_declared hu p.classes.length
  rw [(collect_classAt (settled_of_issues h.accepted').1 hd).2] at hat
  exact congrArg ClassSymbol.name hat

/-- A method that the class registers is its own. -/
theorem owner_eq {r : Registered}
    (hr : r ∈ registeredClass (d, p.classes.length) (collect p).table) :
    (u.methodAt r.method).owner = p.classes.length := by
  refine (congrArg MethodSymbol.owner (methodAt_of_declared hu r.method)).trans ?_
  rcases collectClass_cases (d, p.classes.length) (collect p).table with
    ⟨-, -, hne⟩ | ⟨hfree, hc, hreg⟩
  · exact absurd h.clean hne
  · have hcls := hasClass_addClass (collect_formed p) d.parents p.classes.length d.name.span hfree
    have hmethods := each_member_methodsOf d.members.zipIdx hcls
    have hmem : r.method ∈ (collect p').table.methodsOf (collect p).table.classes.length := by
      rw [hreg] at hr
      rw [h.table_collectClass, hc, collectMembers, hmethods]
      exact List.mem_append_right _ (List.mem_map_of_mem hr)
    exact (mem_methodsOf.mp hmem).2.trans h.length_eq

/-- A function of the class has its name and that of its method. -/
theorem functionPart_name {r : Registered}
    (hr : r ∈ registeredClass (d, p.classes.length) (collect p).table) :
    (C.functionPart u (r.method, r.decl)).1 = (d.name.text, r.decl.name.text) := by
  have hreg : r ∈ registered p' := by
    rw [h.registered_eq]
    exact List.mem_append_right _ hr
  refine Prod.ext ?_ (methodAt_registered hreg hu).1
  show (u.classAt (u.methodAt r.method).owner).name = _
  rw [h.owner_eq hu hr, h.className_eq hu]

/-- **The functions of the class are those of its methods**, in order. -/
theorem functionNames_eq :
    (registeredClass (d, p.classes.length) (collect p).table).map
        (fun r => (C.functionPart u (r.method, r.decl)).1)
      = d.methods.map fun m => (d.name.text, m.2.name.text) :=
  calc (registeredClass (d, p.classes.length) (collect p).table).map
        (fun r => (C.functionPart u (r.method, r.decl)).1)
      = ((registeredClass (d, p.classes.length) (collect p).table).map (·.decl)).map
          fun m => (d.name.text, m.name.text) := by
        rw [List.map_map]
        exact List.map_congr_left fun r hr => h.functionPart_name hu hr
    _ = d.methods.map fun m => (d.name.text, m.2.name.text) := by
        rw [registeredClass_decls h.clean, List.map_map]
        rfl

end Names

/-! ## The parts of the whole -/

/-- **The struct of the class is written behind those of the program.** -/
theorem structs_eq :
    (C.Parts.ofTable (collect p').table.resolve.table p').structs
      = (C.Parts.ofTable (collect p).table.resolve.table p).structs
        ++ [(d.name.text,
            C.linesOf (C.structSteps (collect p').table.resolve.table p.classes.length))] := by
  unfold C.Parts.ofTable
  dsimp only
  rw [h.structOrder_eq, List.map_append, List.map_congr_left fun c hc => h.structPart_eq hc,
    ← h.className_eq (resolve_declared _)]
  rfl

/-- **The functions of the class are written behind those of the program.** -/
theorem functions_eq (uncalled : d.name.text ∉ p.callees) :
    (C.Parts.ofTable (collect p').table.resolve.table p').functions
      = (C.Parts.ofTable (collect p).table.resolve.table p).functions
        ++ (registeredClass (d, p.classes.length) (collect p).table).map
          (fun r => C.functionPart (collect p').table.resolve.table (r.method, r.decl)) := by
  unfold C.Parts.ofTable
  dsimp only
  rw [heldMethods_registered p (resolve_declared _), heldMethods_registered p' (resolve_declared _),
    h.registered_eq, List.map_append, List.map_append, List.map_map, List.map_map, List.map_map]
  exact congrArg (· ++ _) (List.map_congr_left fun r hr => h.functionPart_eq uncalled hr)

theorem classNames_eq :
    (collect p').table.resolve.table.classNames
      = (collect p).table.resolve.table.classNames ++ [d.name.text] := by
  rw [classNames_of_declared (resolve_declared _), classNames_of_declared (resolve_declared _)]
  unfold classNames
  rw [h.table_collectClass, collectClass_classes (collect_formed p) _ h.free, List.map_append]
  rfl

/-- **The class is declared behind those of the program.** -/
theorem typedefs_eq :
    (C.File.ofTable (collect p').table.resolve.table p').typedefs
      = (C.File.ofTable (collect p).table.resolve.table p).typedefs
        ++ [{ depth := 0, text := "typedef struct " ++ C.ident d.name.text ++ " "
              ++ C.ident d.name.text ++ ";" }] := by
  rw [(C.File.declares_names (resolve_declared _)).types,
    (C.File.declares_names (resolve_declared _)).types]
  unfold C.typeNames
  rw [h.classNames_eq, List.map_append, List.map_append]
  rfl

end Extended

/-- The output of an accepted program is what was written for it. -/
theorem eq_written_of_ok {o : Options} {p : Program} {out : Output}
    (ok : compileWith o p = .ok out) : out = (Compilation.run o p).written := by
  have hnil := (exists_ok_iff o p).mp ⟨out, ok⟩
  rw [compileWith_eq, if_pos hnil] at ok
  exact (Except.ok.inj ok).symm

/-- **Adding a class changes nothing that was there.** Let a class be added behind a program,
and let no call without a receiver in the program have its name. If both are accepted with the
same options, then the file of the whole has the forward declarations, structs, prototypes and
definitions of the program, the same and in the same order, and behind them those of the class
and no others. -/
theorem added_class_changes_nothing {o : Options} {p p' : Program} {d : ClassDecl}
    {out out' : Output} (added : p'.classes = p.classes ++ [d])
    (uncalled : d.name.text ∉ p.callees) (ok : compileWith o p = .ok out)
    (ok' : compileWith o p' = .ok out') :
    let c := Compilation.run o p
    let c' := Compilation.run o p'
    let parts := C.Parts.ofTable c.resolved.table p
    let parts' := C.Parts.ofTable c'.resolved.table p'
    out.text = c.file.text o
      ∧ out'.text = c'.file.text o
      ∧ c.file.MadeOf parts
      ∧ c'.file.MadeOf parts'
      ∧ c'.file.typedefs = c.file.typedefs
        ++ [{ depth := 0, text := "typedef struct " ++ C.ident d.name.text ++ " "
              ++ C.ident d.name.text ++ ";" }]
      ∧ parts'.structs = parts.structs
        ++ [(d.name.text, C.linesOf (C.structSteps c'.resolved.table p.classes.length))]
      ∧ ∃ own, parts'.functions = parts.functions ++ own
        ∧ own.map (·.1) = d.methods.map fun m => (d.name.text, m.2.name.text) := by
  intro c c' parts parts'
  have h : Extended p p' d :=
    ⟨added, (exists_ok_iff o p).mp ⟨out, ok⟩, (exists_ok_iff o p').mp ⟨out', ok'⟩⟩
  refine ⟨?_, ?_, C.File.madeOf_parts p (resolve_declared _),
    C.File.madeOf_parts p' (resolve_declared _), h.typedefs_eq, h.structs_eq, _,
    h.functions_eq uncalled, ?_⟩
  · rw [eq_written_of_ok ok]
    rfl
  · rw [eq_written_of_ok ok']
    rfl
  · rw [List.map_map]
    exact h.functionNames_eq (resolve_declared _)

/-- A class that inherits from another through a third, and overrides a method of it that the
third one calls. -/
def overridingClass : ClassDecl where
  name := ⟨"Alarm", {}⟩
  parents := [⟨"Timer", {}⟩]
  members :=
    [.method ⟨⟨"read", {}⟩, [⟨⟨"self", {}⟩, none, {}⟩], some ⟨"int", {}⟩,
      [.ret (some (.call ⟨"left", {}⟩ [] {})) {}], {}, {}⟩]
  span := {}

/-- A class that overrides a method does not change who calls it. -/
theorem added_class_changes_nothing_override :
    let p : Program := ⟨[countingClass, inheritingClass], {}⟩
    let p' : Program := ⟨[countingClass, inheritingClass, overridingClass], {}⟩
    let parts := C.Parts.ofTable (Compilation.run {} p).resolved.table p
    let parts' := C.Parts.ofTable (Compilation.run {} p').resolved.table p'
    overridingClass.name.text ∉ p.callees
      ∧ (∃ out, compileWith {} p = .ok out)
      ∧ (∃ out, compileWith {} p' = .ok out)
      ∧ ∃ own, parts'.functions = parts.functions ++ own ∧ own.map (·.1) = [("Alarm", "read")] := by
  intro p p' parts parts'
  have uncalled : overridingClass.name.text ∉ p.callees := by decide +kernel
  have accepted : ∃ out, compileWith {} p = .ok out := (exists_ok_iff {} p).mpr (by decide +kernel)
  have accepted' : ∃ out, compileWith {} p' = .ok out :=
    (exists_ok_iff {} p').mpr (by decide +kernel)
  refine ⟨uncalled, accepted, accepted', ?_⟩
  obtain ⟨out, ok⟩ := accepted
  obtain ⟨out', ok'⟩ := accepted'
  obtain ⟨-, -, -, -, -, -, hfunctions⟩ := added_class_changes_nothing rfl uncalled ok ok'
  exact hfunctions

end Heritage
