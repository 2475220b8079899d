import Heritage.Proofs.Origins
import Heritage.Proofs.Rows

/-!
# Line breaks

A name of a program may be any text, and one with a line break in it is written
with that line break. If no name has one, then what is written for a line is one
line: no text that is made up for a body or a signature has a line break in it
(`Entry.unbroken_text`, `SymbolTable.Unbroken.signature`), and a text that is
cut at its line breaks gives the lines that it was put together from
(`C.textLines_intercalate`).

Only names that a program declares, assigns to or writes as types are asked for.
A name that is used in an expression is written as it was declared, or, if it
was not, left out.
-/

namespace Heritage

namespace C

/-! ## Texts on one line -/

/-- **A text without a line break.** -/
def Unbroken (text : String) : Prop :=
  '\n' ∉ text.toList

instance (text : String) : Decidable (Unbroken text) :=
  inferInstanceAs (Decidable (¬ '\n' ∈ text.toList))

@[simp] theorem unbroken_append {a b : String} : Unbroken (a ++ b) ↔ Unbroken a ∧ Unbroken b := by
  simp [Unbroken]

theorem forall_mem_intercalate {α : Type} {P : α → Prop} {sep : List α} (hsep : ∀ a ∈ sep, P a)
    {lists : List (List α)} (h : ∀ list ∈ lists, ∀ a ∈ list, P a) :
    ∀ a ∈ sep.intercalate lists, P a := by
  induction lists with
  | nil => exact List.forall_mem_nil _
  | cons list rest ih =>
    obtain ⟨hlist, hrest⟩ := List.forall_mem_cons.mp h
    cases rest with
    | nil => rwa [List.intercalate_singleton]
    | cons list' rest =>
      rw [List.intercalate_cons_cons]
      exact List.forall_mem_append.mpr ⟨List.forall_mem_append.mpr ⟨hlist, hsep⟩, ih hrest⟩

/-- Texts without a line break are put together without one, if there is none between them. -/
theorem unbroken_intercalate {sep : String} (hsep : Unbroken sep) {texts : List String}
    (h : ∀ text ∈ texts, Unbroken text) : Unbroken (sep.intercalate texts) := by
  have hne : ∀ c ∈ sep.toList.intercalate (texts.map String.toList), c ≠ '\n' :=
    forall_mem_intercalate (P := (· ≠ '\n')) (fun c hc heq => hsep (heq ▸ hc))
      (List.forall_mem_map.mpr fun text htext c hc heq => h text htext (heq ▸ hc))
  unfold Unbroken
  rw [String.toList_intercalate]
  exact fun hmem => hne _ hmem rfl

theorem unbroken_toString_nat (n : Nat) : Unbroken (toString n) := by
  unfold Unbroken
  rw [Nat.toString_eq_ofList_toDigits, String.toList_ofList]
  intro hmem
  have hdigit := Nat.isDigit_of_mem_toDigits (by omega) (by omega) hmem
  exact absurd hdigit (by decide)

theorem unbroken_toString_int (n : Int) : Unbroken (toString n) := by
  cases n with
  | ofNat n => exact unbroken_toString_nat n
  | negSucc n => exact unbroken_append.mpr ⟨by decide, unbroken_toString_nat (n + 1)⟩

theorem unbroken_spaces (n : Nat) : Unbroken (String.ofList (List.replicate n ' ')) := by
  unfold Unbroken
  rw [String.toList_ofList]
  exact fun hmem => absurd (List.eq_of_mem_replicate hmem) (by decide)

theorem unbroken_symbol (op : BinOp) : Unbroken op.symbol := by
  cases op <;> decide

/-- A name is written as it is, or with an underscore behind it. -/
theorem unbroken_ident {name : String} (h : Unbroken name) : Unbroken (ident name) := by
  unfold ident
  split
  · exact unbroken_append.mpr ⟨h, by decide⟩
  · exact h

theorem unbroken_functionName {cls method : String} (h : Unbroken cls) (h' : Unbroken method) :
    Unbroken (functionName cls method) := by
  unfold functionName
  simp +decide [unbroken_ident h, h']

theorem unbroken_partName {parent : String} (h : Unbroken parent) :
    Unbroken (partName parent) := by
  unfold partName
  simp +decide [unbroken_ident h]

/-- A declaration is a type and a name on one line. -/
theorem unbroken_declaration {type name : String} (h : Unbroken type) (h' : Unbroken name) :
    Unbroken (declaration type name) := by
  unfold declaration
  split <;> simp +decide [h, h']

theorem unbroken_arrowOperand {code : String} (h : Unbroken code) :
    Unbroken (arrowOperand code) := by
  unfold arrowOperand
  split
  · exact h
  · simp +decide [h]

/-- An expression that stands alone has no more characters than in another. -/
theorem unbroken_standalone (e : Expr) {code : String} (h : Unbroken code) :
    Unbroken (standalone e code) := by
  unfold standalone
  split
  · rename_i rest hcode
    split
    · unfold Unbroken at h ⊢
      rw [String.toList_ofList]
      rw [hcode] at h
      exact fun hmem => h (List.mem_cons_of_mem _ (List.dropLast_subset rest hmem))
    · exact h
  · exact h

/-! ## Lines of a text -/

/-- **The lines of a text.** -/
def textLines (text : String) : List String :=
  (text.toList.splitOn '\n').map String.ofList

/-- **A text that was put together from lines is cut into these lines.** -/
theorem textLines_intercalate {lines : List String} (hne : lines ≠ [])
    (h : ∀ line ∈ lines, Unbroken line) : textLines ("\n".intercalate lines) = lines := by
  unfold textLines
  rw [String.toList_intercalate,
    show ("\n" : String).toList = ['\n'] from rfl, List.splitOn_intercalate]
  · rw [List.map_map]
    exact List.map_id'' (fun line => String.ofList_toList) lines
  · exact List.forall_mem_map.mpr h
  · exact fun hnil => hne (List.map_eq_nil_iff.mp hnil)

end C

open C

/-! ## The names of a program -/

mutual
/-- The names that a statement declares, assigns to or writes as types. -/
def Stmt.writtenNames : Stmt → List String
  | .declare type vars _ => type.text :: vars.map (·.name.text)
  | .ifThen _ body _ _ => writtenNamesOf body
  | .ifElse _ body _ other _ _ => writtenNamesOf body ++ writtenNamesOf other
  | .loop _ body _ _ => writtenNamesOf body
  | .ret .. => []
  | .assign target _ _ => [target.text]
  | .eval .. => []
/-- The names that a list of statements declares, assigns to or writes as types. -/
def writtenNamesOf : List Stmt → List String
  | [] => []
  | s :: rest => s.writtenNames ++ writtenNamesOf rest
end

/-- The names that a member declares, assigns to or writes as types. -/
def Member.writtenNames : Member → List String
  | .field decl => decl.type.text :: decl.names.map (·.text)
  | .method decl =>
    decl.name.text :: decl.returnType.toList.map (·.text)
      ++ decl.params.flatMap (fun q => q.name.text :: q.type.toList.map (·.text))
      ++ writtenNamesOf decl.body

/-- **The names that a program declares, assigns to or writes as types.** -/
def Program.writtenNames (p : Program) : List String :=
  p.classes.map (·.name.text) ++ p.members.flatMap Member.writtenNames

/-- The name of a variable and its written type. -/
def VarDecl.names (v : VarDecl) : List String :=
  v.name :: v.type.toList.map (·.text)

mutual
/-- The names of the variables that a statement declares are among those that it writes. -/
theorem Stmt.names_subset : (s : Stmt) → ∀ v ∈ s.varDecls, v.names ⊆ s.writtenNames
  | .declare type vars _ => by
    unfold Stmt.varDecls Stmt.writtenNames
    refine List.forall_mem_map.mpr fun v hv => List.cons_subset.mpr ⟨?_, ?_⟩
    · exact List.mem_cons_of_mem _ (List.mem_map_of_mem hv)
    · exact List.cons_subset.mpr ⟨List.mem_cons_self, List.nil_subset _⟩
  | .ifThen _ body _ _ => by
    unfold Stmt.varDecls Stmt.writtenNames
    exact names_subset_of body
  | .ifElse _ body _ other _ _ => by
    unfold Stmt.varDecls Stmt.writtenNames
    refine List.forall_mem_append.mpr ⟨fun v hv => ?_, fun v hv => ?_⟩
    · exact List.subset_append_of_subset_left _ (names_subset_of body v hv)
    · exact List.subset_append_of_subset_right _ (names_subset_of other v hv)
  | .loop _ body _ _ => by
    unfold Stmt.varDecls Stmt.writtenNames
    exact names_subset_of body
  | .ret .. => List.forall_mem_nil _
  | .assign .. => List.forall_mem_nil _
  | .eval .. => List.forall_mem_nil _
theorem names_subset_of : (body : List Stmt) → ∀ v ∈ varDeclsOf body, v.names ⊆ writtenNamesOf body
  | [] => List.forall_mem_nil _
  | s :: rest => by
    unfold varDeclsOf writtenNamesOf
    refine List.forall_mem_append.mpr ⟨fun v hv => ?_, fun v hv => ?_⟩
    · exact List.subset_append_of_subset_left _ (s.names_subset v hv)
    · exact List.subset_append_of_subset_right _ (names_subset_of rest v hv)
end

theorem Member.names_subset (m : Member) : ∀ v ∈ m.varDecls, v.names ⊆ m.writtenNames := by
  cases m with
  | field decl =>
    refine List.forall_mem_map.mpr fun name hname => List.cons_subset.mpr ⟨?_, ?_⟩
    · exact List.mem_cons_of_mem _ (List.mem_map_of_mem hname)
    · exact List.cons_subset.mpr ⟨List.mem_cons_self, List.nil_subset _⟩
  | method decl =>
    have hparam : ∀ q ∈ decl.params, q.name.text :: q.type.toList.map (·.text)
        ⊆ (Member.method decl).writtenNames := by
      intro q hq
      exact List.subset_append_of_subset_left _ (List.subset_append_of_subset_right _
        fun x hx => List.mem_flatMap.mpr ⟨q, hq, hx⟩)
    refine List.forall_mem_append.mpr ⟨List.forall_mem_append.mpr ⟨?_, ?_⟩, ?_⟩
    · refine List.forall_mem_map.mpr fun q hq => ?_
      obtain ⟨hname, -⟩ := List.cons_subset.mp (hparam q (List.mem_of_mem_take hq))
      exact List.cons_subset.mpr ⟨hname, List.nil_subset _⟩
    · intro v hv
      obtain ⟨q, hq, hdecl⟩ := List.mem_filterMap.mp hv
      obtain ⟨type, htype, rfl⟩ := Option.map_eq_some_iff.mp hdecl
      have hsubset := hparam q (List.mem_of_mem_tail hq)
      rw [htype] at hsubset
      exact hsubset
    · intro v hv
      exact List.subset_append_of_subset_right _ (names_subset_of decl.body v hv)

/-! ## The names in a table -/

namespace SymbolTable

/-- **No name in a table has a line break.** A position without a symbol has the empty name. -/
structure Unbroken (t : SymbolTable) : Prop where
  cls : ∀ c, C.Unbroken (t.classAt c).name
  method : ∀ m, C.Unbroken (t.methodAt m).name
  returnType : ∀ m, ∀ type ∈ (t.methodAt m).returnTypeName, C.Unbroken type.text
  var : ∀ v, C.Unbroken (t.varAt v).name
  varType : ∀ v, ∀ type ∈ (t.varAt v).typeName, C.Unbroken type.text

theorem forall_getD {α : Type} [Inhabited α] {xs : List α} {P : α → Prop} (h : ∀ a ∈ xs, P a)
    (hdefault : P default) (i : Nat) : P (xs.getD i default) := by
  rw [List.getD_eq_getElem?_getD]
  cases hi : xs[i]? with
  | none => exact hdefault
  | some a => exact h a (List.mem_of_getElem? hi)

/-- **A table has no line break in any name** if the program that it is drawn from has none. -/
theorem DrawnFrom.unbroken {p : Program} {t : SymbolTable} (h : DrawnFrom p t)
    (hnames : ∀ x ∈ p.writtenNames, C.Unbroken x) : t.Unbroken := by
  obtain ⟨hclasses, hmembers⟩ := List.forall_mem_append.mp hnames
  have hmember : ∀ m ∈ p.members, ∀ x ∈ m.writtenNames, C.Unbroken x :=
    fun m hm x hx => hmembers x (List.mem_flatMap.mpr ⟨m, hm, hx⟩)
  have hmethods : ∀ m ∈ t.methods,
      C.Unbroken m.name ∧ ∀ type ∈ m.returnTypeName, C.Unbroken type.text := by
    intro m hm
    obtain ⟨decl, hdecl, hname, htype⟩ := h.methods m hm
    obtain ⟨hfirst, -⟩ := List.forall_mem_append.mp
      (List.forall_mem_append.mp (hmember _ hdecl)).1
    obtain ⟨hdeclared, hreturn⟩ := List.forall_mem_cons.mp hfirst
    refine ⟨hname ▸ hdeclared, fun type hmem => ?_⟩
    rw [htype] at hmem
    exact hreturn _ (List.mem_map_of_mem (Option.mem_toList.mpr hmem))
  have hvars : ∀ v ∈ t.vars, ∀ x ∈ v.varDecl.names, C.Unbroken x := by
    intro v hv x hx
    obtain ⟨m, hm, hdecl⟩ := List.mem_flatMap.mp (h.vars v hv)
    exact hmember m hm x (m.names_subset _ hdecl hx)
  constructor
  · refine forall_getD (P := fun c : ClassSymbol => C.Unbroken c.name) (fun c hc => ?_) (by decide)
    obtain ⟨d, hd, hname⟩ := h.classes c hc
    exact hname ▸ hclasses _ (List.mem_map_of_mem hd)
  · exact forall_getD (P := fun m : MethodSymbol => C.Unbroken m.name)
      (fun m hm => (hmethods m hm).1) (by decide)
  · exact forall_getD (P := fun m : MethodSymbol => ∀ type ∈ m.returnTypeName, C.Unbroken type.text)
      (fun m hm => (hmethods m hm).2) (fun _ htype => nomatch htype)
  · exact forall_getD (P := fun v : VarSymbol => C.Unbroken v.name)
      (fun v hv => hvars v hv _ List.mem_cons_self) (by decide)
  · refine forall_getD (P := fun v : VarSymbol => ∀ type ∈ v.typeName, C.Unbroken type.text)
      (fun v hv type htype => ?_) (fun _ htype => nomatch htype)
    exact hvars v hv _
      (List.mem_cons_of_mem _ (List.mem_map_of_mem (Option.mem_toList.mpr htype)))

namespace Unbroken

variable {t : SymbolTable} (h : t.Unbroken)
include h

/-- Types are written by the names of classes. -/
theorem typeText (ty : Ty) : C.Unbroken (typeText t ty) := by
  cases ty with
  | int => exact (by decide : C.Unbroken "int")
  | void => exact (by decide : C.Unbroken "void")
  | cls c => exact unbroken_append.mpr ⟨unbroken_ident (h.cls c), by decide⟩

theorem memberTypeText (type : Option Ty) {written : Option Ident}
    (hwritten : ∀ w ∈ written, C.Unbroken w.text) :
    C.Unbroken (memberTypeText t type written) := by
  unfold C.memberTypeText
  split
  · exact h.typeText _
  · exact unbroken_ident (hwritten _ rfl)
  · decide

theorem varDeclaration (v : VarId) : C.Unbroken (varDeclaration t v) :=
  unbroken_declaration (h.memberTypeText _ (h.varType v)) (unbroken_ident (h.var v))

/-- **A signature is on one line.** -/
theorem signature (m : MethodId) : C.Unbroken (signature t m) := by
  have hparams : ∀ q ∈ paramDeclarations t m, C.Unbroken q := by
    refine List.forall_mem_cons.mpr ⟨?_, List.forall_mem_map.mpr fun v _ => h.varDeclaration v⟩
    unfold receiverDeclaration
    simp +decide [unbroken_ident (h.cls _)]
  refine unbroken_declaration (h.memberTypeText _ (h.returnType m)) ?_
  simp +decide [unbroken_functionName (h.cls _) (h.method m), unbroken_intercalate _ hparams]

theorem partChain (path : List ClassId) : C.Unbroken (partChain t path) :=
  unbroken_intercalate (by decide) (List.forall_mem_map.mpr fun c _ => unbroken_partName (h.cls c))

/-- A conversion adds the names of parts to the text that it converts. -/
theorem upcast {code : String} (hcode : C.Unbroken code) (source target : ClassId) :
    C.Unbroken (upcast t code source target) := by
  unfold C.upcast
  split
  · exact hcode
  · exact hcode
  · simp +decide [unbroken_arrowOperand hcode, h.partChain]

theorem convert {code : String} (hcode : C.Unbroken code) (source : Option Ty) (target : Ty) :
    C.Unbroken (convert t code source target) := by
  unfold C.convert
  split
  · exact h.upcast hcode _ _
  · exact hcode

/-- A field is read through the names of parts, and by its own. -/
theorem fieldAccess (c : ClassId) (field : VarId) : C.Unbroken (fieldAccess t c field) := by
  have hname := unbroken_ident (h.var field)
  unfold C.fieldAccess
  dsimp only
  split
  · simp +decide [hname]
  · simp +decide [hname, h.partChain]

end Unbroken

end SymbolTable

/-! ## Expressions -/

namespace Site

variable {s : Site} (h : s.table.Unbroken)
include h

theorem unbroken_varCode (v : VarId) : C.Unbroken (s.varCode v) := by
  unfold varCode
  split
  · decide
  · exact h.fieldAccess _ _
  · exact unbroken_ident (h.var v)

omit h in
theorem unbroken_valueText (e : Expr) {code : String} (hcode : C.Unbroken code) :
    C.Unbroken (s.valueText e code) := by
  unfold valueText
  split
  · decide
  · exact hcode

theorem unbroken_storeText (e : Expr) (target : Option Ty) {code : String}
    (hcode : C.Unbroken code) : C.Unbroken (s.storeText e target code) := by
  unfold storeText
  split
  · split
    · exact unbroken_standalone e (h.convert hcode _ _)
    · exact hcode
  · exact unbroken_standalone e hcode

/-- A call is written with names of the table only. -/
theorem unbroken_callText {receiver args : String} (hreceiver : C.Unbroken receiver)
    (hargs : C.Unbroken args) (target : Target) : C.Unbroken (s.callText receiver args target) := by
  unfold callText
  split
  · simp +decide [unbroken_ident (h.cls _)]
  · decide
  · split
    · decide
    · simp +decide [unbroken_functionName (h.cls _) (h.method _), h.upcast hreceiver, hargs]

mutual
/-- **The text of an expression is on one line.** A name in it is written as it was declared. -/
theorem unbroken_code : (e : Expr) → C.Unbroken (s.code e)
  | .int value _ => by
    unfold code
    split
    · exact unbroken_toString_int value
    · decide
  | .name ident => by
    unfold code
    split
    · exact unbroken_varCode h _
    · decide
  | .self _ => by
    unfold code
    decide
  | .binary op left right _ => by
    unfold code
    simp +decide [unbroken_valueText _ (unbroken_code left), unbroken_symbol,
      unbroken_valueText _ (unbroken_code right)]
  | .call callee args _ => by
    unfold code
    exact unbroken_callText h (by decide) (unbroken_argsCode _ 0 args) _
  | .send receiver callee args _ => by
    unfold code
    exact unbroken_callText h (unbroken_valueText _ (unbroken_code receiver))
      (unbroken_argsCode _ 0 args) _
theorem unbroken_argsCode (target : Target) (i : Nat) : (args : List Expr) →
    C.Unbroken (s.argsCode target i args)
  | [] => by
    unfold argsCode
    decide
  | e :: rest => by
    unfold argsCode
    simp +decide [unbroken_storeText h e _ (unbroken_valueText e (unbroken_code e)),
      unbroken_argsCode target (i + 1) rest]
end

theorem unbroken_valueCode (e : Expr) : C.Unbroken (s.valueCode e) :=
  unbroken_valueText e (unbroken_code h e)

theorem unbroken_checkCode (e : Expr) (target : Option Ty) : C.Unbroken (s.checkCode e target) :=
  unbroken_storeText h e target (unbroken_valueCode h e)

end Site

/-! ## Rows -/

/-- The names of an entry that are written as they are. -/
def Entry.names : Entry → List String
  | .declarator type v => [type.text, v.name.text]
  | .assign target _ => [target.text]
  | .ret _ => []
  | .eval _ => []
  | .ifHeader _ => []
  | .loopHeader _ => []
  | .otherwise => []
  | .close => []

section Entries

variable {b : Body} (h : b.table.Unbroken)
include h

/-- The line of a local has the written type, the name, and the text of the initial value. -/
theorem Body.unbroken_varLine (env : Env) {type : Ident} {v : Declarator}
    (htype : C.Unbroken type.text) (hname : C.Unbroken v.name.text) (id : VarId) :
    C.Unbroken (b.varLine env type v id) := by
  have hcheck := Site.unbroken_checkCode (s := b.site env) h
  have hstart {text : String} (htext : C.Unbroken text) :
      C.Unbroken (declaration text (ident v.name.text)) :=
    unbroken_declaration htext (unbroken_ident hname)
  unfold varLine
  cases (b.table.varAt id).type with
  | none => cases v.init <;> simp +decide [hstart htype, hcheck]
  | some ty => cases v.init <;> simp +decide [hstart (h.typeText ty), hcheck]

theorem Body.unbroken_assignTarget (env : Env) {target : Ident} (hname : C.Unbroken target.text) :
    C.Unbroken (b.assignTarget env target).2 := by
  unfold assignTarget
  split
  · exact unbroken_ident hname
  · split
    · decide
    · exact Site.unbroken_varCode (s := b.site env) h _

/-- A returned value is converted on the same line. -/
theorem Body.unbroken_returnCode (env : Env) (value : Expr) :
    C.Unbroken (b.returnCode env value) := by
  have hcode := Site.unbroken_code (s := b.site env) h value
  unfold returnCode
  refine unbroken_standalone value ?_
  split
  · split
    · exact h.convert hcode _ _
    · exact hcode
  · exact hcode

theorem Body.unbroken_condCode (env : Env) (cond : Expr) : C.Unbroken (b.condCode env cond) :=
  unbroken_standalone cond (Site.unbroken_valueCode (s := b.site env) h cond)

/-- **What is written for a line is one line.** -/
theorem Entry.unbroken_text (entry : Entry) (hnames : ∀ x ∈ entry.names, C.Unbroken x) (env : Env) :
    C.Unbroken (entry.text b env) := by
  cases entry with
  | declarator type v =>
    obtain ⟨htype, hname⟩ := List.forall_mem_cons.mp hnames
    exact Body.unbroken_varLine h env htype (List.forall_mem_singleton.mp hname) _
  | assign target value =>
    unfold text
    simp +decide [Body.unbroken_assignTarget h env (List.forall_mem_singleton.mp hnames),
      Site.unbroken_checkCode (s := b.site env) h]
  | ret value =>
    cases value with
    | none => exact (by decide : C.Unbroken "return;")
    | some value =>
      unfold text
      simp +decide [Body.unbroken_returnCode h]
  | eval expr =>
    unfold text
    simp +decide [unbroken_standalone expr (Site.unbroken_code (s := b.site env) h expr)]
  | ifHeader cond =>
    unfold text
    simp +decide [Body.unbroken_condCode h]
  | loopHeader cond =>
    unfold text
    simp +decide [Body.unbroken_condCode h]
  | otherwise => exact (by decide : C.Unbroken "\x7d else \x7b")
  | close => exact (by decide : C.Unbroken "\x7d")

end Entries

end Heritage
