import Heritage.C.Function
import Heritage.Proofs.Transport

/-!
# Declarations from tables whose symbols stand elsewhere

Positions are followed and never written. So what is declared for a class or a
method is the same text from a table and from one in which its symbols stand
elsewhere, and so is what a rule of typing finds wrong. One lemma for each
function says that it commutes with the renaming, from the views of a table up
to structs and signatures.
-/

namespace Heritage

open SymbolTable

namespace Renaming

variable (σ : Renaming)

/-- A member of a struct. -/
def structMember : C.StructMember → C.StructMember
  | .part parent => .part (σ.cls parent)
  | .field v => .field (σ.var v)
  | .unused => .unused

theorem ty_eq_int_iff {a : Ty} : σ.ty a = .int ↔ a = .int :=
  σ.ty_eq_iff (b := .int)

theorem ty_eq_void_iff {a : Ty} : σ.ty a = .void ↔ a = .void :=
  σ.ty_eq_iff (b := .void)

end Renaming

namespace SymbolTable

variable {σ : Renaming} {N : String → Prop} {t t' : SymbolTable} (h : Carried σ N t t')
include h

/-! ## Views of a table -/

namespace Carried

theorem className (c : ClassId) : (t'.classAt (σ.cls c)).name = (t.classAt c).name :=
  (h.classAt c).1

theorem typeName (a : Ty) : t'.typeName (σ.ty a) = t.typeName a := by
  cases a with
  | int => rfl
  | void => rfl
  | cls c => exact h.className c

theorem findField (c : ClassId) (name : String) :
    t'.findField (σ.cls c) name = (t.findField c name).map σ.var := by
  unfold SymbolTable.findField Members.field?
  rw [h.members]
  exact lookup_map_snd σ.var _ name

/-- What a name denotes as a method of a class is the renamed method. A class has its members in the
table, so nothing is looked up anew. -/
theorem findMethod (c : ClassId) (name : String) :
    t'.findMethod (σ.cls c) name = (t.findMethod c name).map σ.method := by
  unfold SymbolTable.findMethod Members.method?
  rw [h.members]
  exact lookup_map_snd σ.method _ name

theorem isAmbiguous (c : ClassId) (name : String) :
    (t'.classAt (σ.cls c)).members.isAmbiguous name
      = (t.classAt c).members.isAmbiguous name := by
  rw [h.members]
  rfl

theorem owner {m : MethodId} (hm : m < t.methods.length) :
    (t'.methodAt (σ.method m)).owner = σ.cls (t.methodAt m).owner :=
  congrArg MethodSymbol.owner (h.methodAt_of_lt hm)

theorem qualifiedName {m : MethodId} (hm : m < t.methods.length) :
    t'.qualifiedName (σ.method m) = t.qualifiedName m := by
  unfold SymbolTable.qualifiedName
  rw [h.owner hm, h.className, h.methodAt_name]

theorem arity (m : MethodId) : t'.arity (σ.method m) = t.arity m := by
  unfold SymbolTable.arity
  rw [h.explicitParams, List.length_map]

/-- **A value fits where it fitted before**: its class is found in the linearization of the other
one under its new position. -/
theorem isCompatible (a b : Ty) : t'.isCompatible (σ.ty a) (σ.ty b) = t.isCompatible a b := by
  have heq : (σ.ty a == σ.ty b) = (a == b) :=
    Bool.eq_iff_iff.mpr (beq_iff_eq.trans (σ.ty_eq_iff.trans beq_iff_eq.symm))
  unfold SymbolTable.isCompatible
  rw [heq]
  refine congrArg ((a == b) || ·) ?_
  cases a with
  | int => rfl
  | void => rfl
  | cls c =>
    cases b with
    | int => rfl
    | void => rfl
    | cls d => exact contains_linearization_map h.linearization c d

/-- The class that declares a field is found through the scope of the field, which it alone has. -/
theorem fieldOwner (v : VarId) : t'.fieldOwner (σ.var v) = (t.fieldOwner v).map σ.cls := by
  unfold SymbolTable.fieldOwner
  rw [h.varAt]
  show (if (t.varAt v).kind = .field then (t'.scopeAt (σ.scope (t.varAt v).scope)).cls else none)
    = _
  rw [h.scopeAt]
  split
  · rfl
  · rfl

/-! ## Paths -/

/-- The members along a path are named after the classes, whose names stay. -/
theorem partChain (path : List ClassId) : C.partChain t' (path.map σ.cls) = C.partChain t path := by
  unfold C.partChain
  rw [List.map_map]
  exact congrArg _ (List.map_congr_left fun c _ => congrArg C.partName (h.className c))

/-- **An object is converted by the same text**: the search for the path goes from class to class as
before. -/
theorem upcast (code : String) (c a : ClassId) :
    C.upcast t' code (σ.cls c) (σ.cls a) = C.upcast t code c a := by
  unfold C.upcast
  rw [h.basePath]
  cases t.basePath c a with
  | none => rfl
  | some path =>
    cases path with
    | nil => rfl
    | cons p rest =>
      exact congrArg ("&" ++ C.arrowOperand code ++ "->" ++ ·) (h.partChain (p :: rest))

theorem convert (code : String) (source : Option Ty) (target : Ty) :
    C.convert t' code (source.map σ.ty) (σ.ty target) = C.convert t code source target := by
  cases source with
  | none => rfl
  | some source =>
    cases source with
    | int => rfl
    | void => rfl
    | cls c =>
      cases target with
      | int => rfl
      | void => rfl
      | cls a => exact h.upcast code c a

/-- A field is read by the same text, from the class that declares it. -/
theorem fieldAccess (c : ClassId) (v : VarId) :
    C.fieldAccess t' (σ.cls c) (σ.var v) = C.fieldAccess t c v := by
  have hpath : ((t'.fieldOwner (σ.var v)).bind (t'.basePath (σ.cls c))).getD []
      = (((t.fieldOwner v).bind (t.basePath c)).getD []).map σ.cls := by
    rw [h.fieldOwner]
    cases t.fieldOwner v with
    | none => rfl
    | some o =>
      show (t'.basePath (σ.cls c) (σ.cls o)).getD [] = ((t.basePath c o).getD []).map σ.cls
      rw [h.basePath]
      cases t.basePath c o <;> rfl
  unfold C.fieldAccess
  dsimp only
  rw [hpath, h.varAt_name]
  cases ((t.fieldOwner v).bind (t.basePath c)).getD [] with
  | nil => rfl
  | cons p rest =>
    exact congrArg (C.receiver ++ "->" ++ · ++ "." ++ C.ident (t.varAt v).name)
      (h.partChain (p :: rest))

/-! ## Declarations -/

theorem typeText (a : Ty) : C.typeText t' (σ.ty a) = C.typeText t a := by
  cases a with
  | int => rfl
  | void => rfl
  | cls c => exact congrArg (C.ident · ++ " *") (h.className c)

theorem memberTypeText (type : Option Ty) (written : Option Ident) :
    C.memberTypeText t' (type.map σ.ty) written = C.memberTypeText t type written := by
  cases type with
  | none => cases written <;> rfl
  | some a => exact h.typeText a

/-- A variable is declared by the same text. -/
theorem varDeclaration (v : VarId) : C.varDeclaration t' (σ.var v) = C.varDeclaration t v := by
  unfold C.varDeclaration
  rw [h.varAt]
  exact congrArg (C.declaration · (C.ident (t.varAt v).name)) (h.memberTypeText _ _)

/-- **The function of a method is declared by the same text.** Only a method of the table has an
owner to be named after. -/
theorem signature {m : MethodId} (hm : m < t.methods.length) :
    C.signature t' (σ.method m) = C.signature t m := by
  have hparams : C.paramDeclarations t' (σ.method m) = C.paramDeclarations t m := by
    unfold C.paramDeclarations C.receiverDeclaration
    rw [h.owner hm, h.className, h.explicitParams, List.map_map]
    exact congrArg _ (List.map_congr_left fun v _ => h.varDeclaration v)
  unfold C.signature
  rw [hparams, h.methodAt_of_lt hm]
  show C.declaration (C.memberTypeText t' ((t.methodAt m).returnType.map σ.ty) _)
    (C.functionName (t'.classAt (σ.cls (t.methodAt m).owner)).name _ ++ _ ++ _ ++ _) = _
  rw [h.memberTypeText, h.className]
  rfl

/-- A struct has the renamed parts and fields, in the same order. -/
theorem structMembers (c : ClassId) :
    C.structMembers t' (σ.cls c) = (C.structMembers t c).map σ.structMember := by
  have hparts : C.partsAndFields t' (σ.cls c) = (C.partsAndFields t c).map σ.structMember := by
    unfold C.partsAndFields
    rw [h.parents, h.fieldsOf, List.map_append, List.map_map, List.map_map, List.map_map,
      List.map_map]
    rfl
  unfold C.structMembers
  rw [hparts, List.isEmpty_map]
  split
  · rfl
  · rfl

theorem structMember_text (m : C.StructMember) : (σ.structMember m).text t' = m.text t := by
  cases m with
  | part parent =>
    show C.ident (t'.classAt (σ.cls parent)).name ++ _ ++ C.partName _ = _
    rw [h.className]
    rfl
  | field v => exact h.varDeclaration v
  | unused => rfl

/-- **The struct of a class.** -/
theorem structSteps (c : ClassId) : C.structSteps t' (σ.cls c) = C.structSteps t c := by
  unfold C.structSteps
  rw [h.className, h.structMembers, List.map_map]
  refine congrArg (fun ms => C.Step.opening _ :: ms ++ _) (List.map_congr_left fun m _ => ?_)
  exact congrArg (fun text => C.Step.line (text ++ ";")) (h.structMember_text m)

/-! ## Rules -/

/-- Storing a value is wrong in the same way, or not at all; the types are named alike. -/
theorem storeIssue? (a b : Ty) (use : String) (span : Span) :
    t'.storeIssue? (σ.ty a) (σ.ty b) use span = t.storeIssue? a b use span := by
  unfold SymbolTable.storeIssue?
  rw [h.isCompatible, h.typeName, h.typeName]

theorem conditionIssue? (a : Ty) (span : Span) :
    t'.conditionIssue? (σ.ty a) span = t.conditionIssue? a span := by
  unfold SymbolTable.conditionIssue?
  rw [if_congr σ.ty_eq_int_iff rfl rfl, h.typeName]

theorem operandIssue? (op : BinOp) (a : Ty) (span : Span) :
    t'.operandIssue? op (σ.ty a) span = t.operandIssue? op a span := by
  unfold SymbolTable.operandIssue?
  rw [if_congr σ.ty_eq_int_iff rfl rfl, h.typeName]

theorem arityIssue? {m : MethodId} (hm : m < t.methods.length) (got : Nat) (span : Span) :
    t'.arityIssue? (σ.method m) got span = t.arityIssue? m got span := by
  unfold SymbolTable.arityIssue?
  rw [h.arity, h.qualifiedName hm]

theorem bareReturnIssue? {m : MethodId} (hm : m < t.methods.length) (span : Span) :
    t'.bareReturnIssue? (σ.method m) span = t.bareReturnIssue? m span := by
  unfold SymbolTable.bareReturnIssue?
  rw [h.methodAt_returnType, h.qualifiedName hm]
  cases (t.methodAt m).returnType with
  | none => rfl
  | some a =>
    cases a with
    | int => rfl
    | void => rfl
    | cls c =>
      show some (Issue.mismatch (.missingResult _ (t'.typeName (σ.ty (.cls c)))) span) = _
      rw [h.typeName]

omit h in
theorem valueIssue?_ty (σ : Renaming) (a : Ty) (span : Span) :
    Heritage.valueIssue? (σ.ty a) span = Heritage.valueIssue? a span :=
  if_congr σ.ty_eq_void_iff rfl rfl

/-- Returning a value of a type is wrong in the same way, or not at all. -/
theorem returnIssue? {m : MethodId} (hm : m < t.methods.length) (a : Ty) (span : Span) :
    t'.returnIssue? (σ.method m) (σ.ty a) span = t.returnIssue? m a span := by
  unfold SymbolTable.returnIssue?
  rw [h.methodAt_returnType, h.qualifiedName hm, valueIssue?_ty]
  cases (t.methodAt m).returnType with
  | none => rfl
  | some b =>
    cases b with
    | int => exact congrArg (Option.or _) (h.storeIssue? a .int _ span)
    | void => rfl
    | cls c => exact congrArg (Option.or _) (h.storeIssue? a (.cls c) _ span)

end Carried

end SymbolTable

end Heritage
