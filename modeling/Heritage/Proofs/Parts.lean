import Heritage.Proofs.Agreement
import Heritage.Proofs.ParentsFirst
import Heritage.Proofs.Representation

/-!
# The parts of a file

A file is made of parts: a struct for each class, and a prototype and a
definition for each method. They are written one behind the other by one
`Layout`, which counts depths, so a block that stayed open in one part would
shift the parts behind it. None does: what is written for a struct or a function
ends at the depth at which it began, the function since its body is followed to
its end (`definitionSteps_level`), and so each part has the lines that it would
have alone (`File.madeOf_parts`).
-/

namespace Heritage

open SymbolTable

namespace C

theorem structSteps_level (t : SymbolTable) (c : ClassId) : Level (structSteps t c) :=
  (level_map_line (fun m : StructMember => m.text t ++ ";") _).block _ _

/-- **The parts of a file**, with the names that they are for. -/
structure Parts where
  /-- For each class its name and the lines of its struct. -/
  structs : List (String × List Line)
  /-- For each method the names of its class and of itself, the line of its prototype and the
  lines of its definition. -/
  functions : List ((String × String) × Line × List Line)

/-- The part of a file that a class has. -/
def structPart (t : SymbolTable) (c : ClassId) : String × List Line :=
  ((t.classAt c).name, linesOf (structSteps t c))

/-- The part of a file that a method has. -/
def functionPart (t : SymbolTable) (m : MethodId × MethodDecl) :
    (String × String) × Line × List Line :=
  (((t.classAt (t.methodAt m.1).owner).name, (t.methodAt m.1).name),
    { depth := 0, text := signature t m.1 ++ ";" }, linesOf (definitionSteps t m.1 m.2.body))

/-- The parts of the file of a program, in order. -/
def Parts.ofTable (t : SymbolTable) (p : Program) : Parts where
  structs := t.structOrder.map (structPart t)
  functions := (heldMethods t p).map (functionPart t)

/-- **A file that is made of parts**, and of nothing else but its forward declarations. -/
structure File.MadeOf (f : File) (parts : Parts) : Prop where
  structs : f.structs = spaced (parts.structs.map (·.2))
  prototypes : f.prototypes = parts.functions.map (·.2.1)
  definitions : f.definitions = spaced (parts.functions.map (·.2.2))

/-- **The file of a program is made of its parts.** -/
theorem File.madeOf_parts (p : Program) {u : SymbolTable}
    (hu : u.declared = (collect p).table.declared) :
    (File.ofTable u p).MadeOf (Parts.ofTable u p) where
  structs := by
    show linesOf (separated (u.structOrder.map (structSteps u))) = _
    rw [linesOf_separated (List.forall_mem_map.mpr fun c _ => structSteps_level u c), List.map_map]
    unfold Parts.ofTable
    rw [List.map_map]
    rfl
  prototypes := by
    unfold Parts.ofTable
    rw [List.map_map]
    exact linesOf_map_line (fun m : MethodId × MethodDecl => signature u m.1 ++ ";") _
  definitions := by
    have hlevel : ∀ m ∈ heldMethods u p, Level (definitionSteps u m.1 m.2.body) := by
      rw [heldMethods_registered p hu]
      exact List.forall_mem_map.mpr fun r hr => definitionSteps_level hr hu
    unfold Parts.ofTable
    rw [List.map_map]
    show linesOf (separated ((heldMethods u p).map _)) = _
    rw [linesOf_separated (List.forall_mem_map.mpr hlevel), List.map_map]
    rfl

end C

/-! ## Each class and each method has its part -/

namespace SymbolTable

variable {t : SymbolTable}

/-- The structs stand in some order of the classes. -/
theorem Fresh.structOrder_perm (h : t.Fresh) :
    t.resolve.table.structOrder.Perm t.resolve.table.classIds :=
  ParentsFirst.order_perm fun _ _ _ ha => h.resolve_inside _ _ ha

end SymbolTable

namespace C

/-- **Parts for a program**: one for each class and one for each method that it declares. -/
structure Parts.Covers (parts : Parts) (p : Program) : Prop where
  /-- No class has two. -/
  struct_names : (parts.structs.map (·.1)).Nodup
  /-- No method has two. -/
  function_names : (parts.functions.map (·.1)).Nodup
  /-- Every class has one. -/
  structs : ∀ d ∈ p.classes, d.name.text ∈ parts.structs.map (·.1)
  /-- Every method has one. -/
  functions : ∀ d ∈ p.classes, ∀ m, Member.method m ∈ d.members →
    (d.name.text, m.name.text) ∈ parts.functions.map (·.1)

section Names

variable {p : Program} {u : SymbolTable} (hu : u.declared = (collect p).table.declared)
include hu

/-- The methods that have parts are the registered ones. -/
theorem functions_names : (Parts.ofTable u p).functions.map (·.1) = u.methodsByName := by
  unfold Parts.ofTable methodsByName
  rw [heldMethods_registered p hu, methods_length_of_declared hu, ← registered_methods,
    List.map_map, List.map_map, List.map_map]
  rfl

/-- **If the names of a program are in order, each of its classes and methods has its part.** -/
theorem Parts.covers (clean : (collect p).issues = []) (hperm : u.structOrder.Perm u.classIds) :
    (Parts.ofTable u p).Covers p := by
  have hrep := represents_collect clean
  have hformed := hrep.formed.of_declared hu
  have hstructs : ((Parts.ofTable u p).structs.map (·.1)).Perm u.classNames := by
    unfold Parts.ofTable classNames
    rw [List.map_map, ← map_classAt u, List.map_map]
    exact hperm.map _
  constructor
  · exact hstructs.nodup_iff.mpr hformed.class_names
  · rw [functions_names hu]
    exact hformed.methodsByName_nodup
  · intro d hd
    rw [hstructs.mem_iff, classNames_of_declared hu, hrep.mem_classNames_iff]
    exact ⟨d, hd, rfl⟩
  · intro d hd m hm
    rw [functions_names hu, methodsByName_of_declared hu, hrep.mem_methodsByName_iff]
    exact ⟨m, ⟨d, hd, rfl, hm⟩, rfl⟩

end Names

end C

end Heritage
