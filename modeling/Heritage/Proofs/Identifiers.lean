import Heritage.Proofs.Conversions
import Heritage.Proofs.Origins
import Heritage.Proofs.Redeclarations
import Heritage.Proofs.Tokens

/-!
# Names as words of C

A name of a program is written in C as it is, or with an underscore behind it,
and the names of functions and of the parts of a struct are put together from
such words. If the names that a program declares are identifiers of C, then each
of these is one too, and none is a keyword (`IsWord`).

A table takes its names from the program (`collect_spelled`), and so does every
name that is looked up in it (`Fresh.named`).
-/

namespace Heritage

namespace C

/-! ## Words -/

theorem isIdentifier_append {name rest : String} (h : IsIdentifier name)
    (hrest : rest.toList.all isWordChar = true) : IsIdentifier (name ++ rest) := by
  obtain ⟨c, cs, hname, hc, hcs⟩ := h
  refine ⟨c, cs ++ rest.toList, ?_, hc, ?_⟩
  · rw [String.toList_append, hname]
    rfl
  · rw [List.all_append, hcs, hrest]
    rfl

theorem IsIdentifier.all_isWordChar {name : String} (h : IsIdentifier name) :
    name.toList.all isWordChar = true := by
  obtain ⟨c, cs, hname, hc, hcs⟩ := h
  rw [hname, List.all_cons, isWordChar_of_isWordStart hc, hcs]
  rfl

theorem IsIdentifier.head? {name : String} (h : IsIdentifier name) :
    ∃ c, name.toList.head? = some c ∧ isWordStart c = true := by
  obtain ⟨c, cs, hname, hc, -⟩ := h
  exact ⟨c, by rw [hname]; rfl, hc⟩

theorem isDigit_of_isWordStart {c : Char} (h : isWordStart c = true) : c.isDigit = false := by
  by_contra hdigit
  rw [Bool.not_eq_false] at hdigit
  rw [isWordStart_of_isDigit hdigit] at h
  cases h

/-- **A word that is written in C**: an identifier that is no keyword. -/
structure IsWord (name : String) : Prop where
  identifier : IsIdentifier name
  plain : name ∉ keywords

theorem isWord_receiver : IsWord receiver :=
  ⟨⟨'s', ['e', 'l', 'f'], rfl, by decide, by decide⟩, by decide⟩

/-- **An identifier is written as a C word**: a keyword is none once an underscore is behind it. -/
theorem isWord_ident {name : String} (h : IsIdentifier name) : IsWord (ident name) := by
  unfold ident
  split
  · rename_i hreserved
    have hnot := not_reserved_underscore hreserved
    exact ⟨isIdentifier_append h (by decide), fun hmem => hnot (Or.inr hmem)⟩
  · rename_i hreserved
    exact ⟨h, fun hmem => hreserved (Or.inr hmem)⟩

/-- A word with an underscore inside is no keyword. -/
theorem isWord_join {name rest : String} (h : IsIdentifier name)
    (hrest : rest.toList.all isWordChar = true) : IsWord (ident name ++ "_" ++ rest) := by
  -- Keywords with an underscore have it in front.
  have hkeywords : ∀ w ∈ keywords, '_' ∉ w.toList.tail := by decide
  have hident := (isWord_ident h).identifier
  refine ⟨isIdentifier_append (isIdentifier_append hident (by decide)) hrest, fun hmem => ?_⟩
  obtain ⟨c, cs, hname, -, -⟩ := hident
  refine hkeywords _ hmem ?_
  rw [String.toList_append, String.toList_append, hname]
  exact List.mem_append_left _ (List.mem_append_right cs (by decide))

/-- The name of a function is a C word. -/
theorem isWord_functionName {cls method : String} (h : IsIdentifier cls)
    (h' : IsIdentifier method) : IsWord (functionName cls method) :=
  isWord_join h h'.all_isWordChar

theorem isWord_partName {parent : String} (h : IsIdentifier parent) :
    IsWord (partName parent) := by
  have hjoin : IsWord (ident parent ++ "_" ++ "part") := isWord_join h (by decide)
  rwa [String.append_assoc] at hjoin

end C

open C

/-! ## The names of a program -/

/-- The names that a member declares, those of its parameters and locals
included. The receiver is spelled the same in every function, whatever its name
is. -/
def Member.words : Member → List String
  | .field decl => decl.names.map (·.text)
  | .method decl => decl.name.text :: decl.scopes.flatten

/-- The names that a class declares, its own included. -/
def ClassDecl.words (d : ClassDecl) : List String :=
  d.name.text :: d.members.flatMap Member.words

/-- **The names that a program declares.** -/
def Program.words (p : Program) : List String :=
  p.classes.flatMap ClassDecl.words

mutual
theorem Stmt.forall_varDecls {P : String → Prop} : (s : Stmt) → (∀ x ∈ s.locals, P x) →
    (∀ block ∈ s.blocks, ∀ x ∈ localsOf block, P x) → ∀ v ∈ s.varDecls, P v.name
  | .declare _ vars _, hlocals, _ => by
    unfold Stmt.varDecls
    exact List.forall_mem_map.mpr (List.forall_mem_map.mp hlocals)
  | .ifThen _ body _ _, _, hblocks => by
    unfold Stmt.blocks at hblocks
    unfold Stmt.varDecls
    exact forall_varDeclsOf body hblocks
  | .ifElse _ body _ other _ _, _, hblocks => by
    unfold Stmt.blocks at hblocks
    obtain ⟨hbody, hother⟩ := List.forall_mem_append.mp hblocks
    unfold Stmt.varDecls
    exact List.forall_mem_append.mpr ⟨forall_varDeclsOf body hbody, forall_varDeclsOf other hother⟩
  | .loop _ body _ _, _, hblocks => by
    unfold Stmt.blocks at hblocks
    unfold Stmt.varDecls
    exact forall_varDeclsOf body hblocks
  | .ret .., _, _ => List.forall_mem_nil _
  | .assign .., _, _ => List.forall_mem_nil _
  | .eval .., _, _ => List.forall_mem_nil _
theorem forall_varDeclsOf {P : String → Prop} : (body : List Stmt) →
    (∀ block ∈ body :: blocksOf body, ∀ x ∈ localsOf block, P x) → ∀ v ∈ varDeclsOf body, P v.name
  | [], _ => List.forall_mem_nil _
  | s :: rest, hblocks => by
    obtain ⟨hlocals, hblocks⟩ := List.forall_mem_cons.mp hblocks
    unfold blocksOf at hblocks
    obtain ⟨hstmt, hrest⟩ := List.forall_mem_append.mp hblocks
    obtain ⟨hhere, hlocals⟩ := List.forall_mem_append.mp hlocals
    unfold varDeclsOf
    exact List.forall_mem_append.mpr ⟨s.forall_varDecls hhere hstmt,
      forall_varDeclsOf rest (List.forall_mem_cons.mpr ⟨hlocals, hrest⟩)⟩
end

/-- The variables that a member declares, other than receivers, have names that it declares. -/
theorem Member.forall_varDecls {P : String → Prop} (m : Member) (h : ∀ x ∈ m.words, P x) :
    ∀ v ∈ m.varDecls, v.kind ≠ .receiver → P v.name := by
  cases m with
  | field decl => exact List.forall_mem_map.mpr fun name hname _ => h _ (List.mem_map_of_mem hname)
  | method decl =>
    have hscopes := List.forall_mem_flatten.mp (List.forall_mem_cons.mp h).2
    obtain ⟨houter, hblocks⟩ := List.forall_mem_cons.mp hscopes
    obtain ⟨hparams, hlocals⟩ := List.forall_mem_append.mp houter
    refine List.forall_mem_append.mpr ⟨List.forall_mem_append.mpr ⟨?_, ?_⟩, ?_⟩
    · exact List.forall_mem_map.mpr fun q _ hkind => absurd rfl hkind
    · intro v hv _
      obtain ⟨q, hq, hdecl⟩ := List.mem_filterMap.mp hv
      obtain ⟨type, -, rfl⟩ := Option.map_eq_some_iff.mp hdecl
      exact hparams _ (List.mem_map_of_mem hq)
    · intro v hv _
      exact forall_varDeclsOf decl.body
        (List.forall_mem_cons.mpr ⟨hlocals, List.forall_mem_map.mp hblocks⟩) v hv

namespace SymbolTable

/-- **The names in a table are identifiers**, apart from those of receivers. -/
structure Spelled (t : SymbolTable) : Prop where
  classes : ∀ c ∈ t.classes, IsIdentifier c.name
  methods : ∀ m ∈ t.methods, IsIdentifier m.name
  vars : ∀ v ∈ t.vars, v.kind ≠ .receiver → IsIdentifier v.name

section Spelled

variable {t : SymbolTable}

/-- **The names of a table are identifiers if those of the program are.** -/
theorem DrawnFrom.spelled {p : Program} (h : DrawnFrom p t)
    (hwords : ∀ x ∈ p.words, IsIdentifier x) : t.Spelled := by
  have hclass : ∀ d ∈ p.classes, ∀ x ∈ d.words, IsIdentifier x :=
    fun d hd x hx => hwords x (List.mem_flatMap.mpr ⟨d, hd, hx⟩)
  have hmember : ∀ m ∈ p.members, ∀ x ∈ m.words, IsIdentifier x := by
    intro m hm x hx
    obtain ⟨d, hd, hmem⟩ := List.mem_flatMap.mp hm
    exact hclass d hd x (List.mem_cons_of_mem _ (List.mem_flatMap.mpr ⟨m, hmem, hx⟩))
  constructor
  · intro c hc
    obtain ⟨d, hd, hname⟩ := h.classes c hc
    exact hname ▸ hclass d hd _ List.mem_cons_self
  · intro m hm
    obtain ⟨decl, hdecl, hname, -⟩ := h.methods m hm
    exact hname ▸ hmember _ hdecl _ List.mem_cons_self
  · intro v hv
    obtain ⟨m, hm, hdecl⟩ := List.mem_flatMap.mp (h.vars v hv)
    exact m.forall_varDecls (hmember m hm) _ hdecl

/-- **A table takes its names from the program.** -/
theorem collect_spelled {p : Program} (hwords : ∀ x ∈ p.words, IsIdentifier x) :
    (collect p).table.Spelled :=
  (collect_drawnFrom p).spelled hwords

theorem spelled_declared : t.declared.Spelled ↔ t.Spelled := by
  constructor
  · intro h
    exact ⟨fun c hc => h.classes c.declared (List.mem_map_of_mem hc),
      fun m hm => h.methods m.declared (List.mem_map_of_mem hm),
      fun v hv => h.vars v.declared (List.mem_map_of_mem hv)⟩
  · intro h
    exact ⟨List.forall_mem_map.mpr h.classes, List.forall_mem_map.mpr h.methods,
      List.forall_mem_map.mpr h.vars⟩

/-- Resolution changes no name. -/
theorem Spelled.of_declared {u : SymbolTable} (h : t.Spelled) (hu : u.declared = t.declared) :
    u.Spelled :=
  spelled_declared.mp (hu ▸ spelled_declared.mpr h)

theorem Spelled.classAt (h : t.Spelled) {c : ClassId} (hc : c < t.classes.length) :
    IsIdentifier (t.classAt c).name :=
  h.classes _ (List.mem_of_getElem? (getElem?_eq_getD hc default))

theorem Spelled.methodAt (h : t.Spelled) {m : MethodId} (hm : m < t.methods.length) :
    IsIdentifier (t.methodAt m).name :=
  h.methods _ (List.mem_of_getElem? (getElem?_eq_getD hm default))

theorem Spelled.varAt (h : t.Spelled) {v : VarId} (hv : v < t.vars.length)
    (hkind : (t.varAt v).kind ≠ .receiver) : IsIdentifier (t.varAt v).name :=
  h.vars _ (List.mem_of_getElem? (getElem?_eq_getD hv default)) hkind

end Spelled

/-! ## Names that are looked up -/

/-- **Whatever is looked up in a table has a name that C can spell**: classes, methods and the
classes that they belong to, variables, and the classes on the way to an ancestor. -/
structure Named (t : SymbolTable) : Prop where
  cls : ∀ {name c}, t.lookupClass name = some c → IsIdentifier (t.classAt c).name
  method : ∀ {c name m}, t.findMethod c name = some m →
    IsIdentifier (t.classAt (t.methodAt m).owner).name ∧ IsIdentifier (t.methodAt m).name
  field : ∀ {c name v}, t.findField c name = some v → (t.varAt v).kind ≠ .receiver →
    IsIdentifier (t.varAt v).name
  inScope : ∀ {s name v}, t.lookupIn s name = some v → (t.varAt v).kind ≠ .receiver →
    IsIdentifier (t.varAt v).name
  path : ∀ {c a path}, t.basePath c a = some path → ∀ p ∈ path, IsIdentifier (t.classAt p).name

theorem Route.forall_mem {t : SymbolTable} {c a : ClassId} {path : List ClassId}
    (h : t.Route c path a) {P : ClassId → Prop} (parent : ∀ {c p}, t.Parent c p → P p) :
    ∀ p ∈ path, P p := by
  induction h with
  | here => exact List.forall_mem_nil _
  | step hp _ ih => exact List.forall_mem_cons.mpr ⟨parent hp, ih⟩

theorem Fresh.named {t : SymbolTable} (h : t.Fresh) (hf : Formed t) (hs : t.Spelled) :
    Named t.resolve.table := by
  have hu := resolve_declared t
  have hf' : Formed t.resolve.table := hf.of_declared hu
  have hs' : t.resolve.table.Spelled := hs.of_declared hu
  constructor
  · exact fun hc => hs'.classAt (lookupClass_lt hc)
  · intro c name m hm
    have hlt := h.findMethod_lt hm
    exact ⟨hs'.classAt (hf'.methodAt_owner_lt hlt), hs'.methodAt hlt⟩
  · intro c name v hv
    obtain ⟨a, -, hdeclared⟩ := h.findField_declared hf hv
    exact hs'.varAt ((lookupIn_eq_some_iff hf').mp hdeclared).1
  · exact fun hv => hs'.varAt ((lookupIn_eq_some_iff hf').mp hv).1
  · intro c a path hpath
    exact (pathWithin_route hpath).1.forall_mem fun hp => hs'.classAt (h.resolve_inside _ _ hp)

/-- What a name denotes at a point of a body is spelled as C spells it. -/
theorem Named.var {s : Site} (h : s.table.Named) {name : Ident} {v : VarId}
    (hv : s.var name = .ok v) (hkind : (s.table.varAt v).kind ≠ .receiver) :
    IsIdentifier (s.table.varAt v).name := by
  unfold Site.var variableNamed at hv
  cases hlook : s.env.lookup s.table name.text with
  | some w =>
    rw [hlook] at hv
    obtain rfl := Except.ok.inj hv
    obtain ⟨f, -, hframe⟩ := List.exists_of_findSome?_eq_some hlook
    exact h.inScope (Option.eq_some_of_filter_eq_some hframe) hkind
  | none =>
    rw [hlook, Option.none_or] at hv
    cases hfield : s.table.findField s.cls name.text with
    | some w =>
      rw [hfield] at hv
      obtain rfl := Except.ok.inj hv
      exact h.field hfield hkind
    | none =>
      rw [hfield] at hv
      dsimp only at hv
      split_ifs at hv

end SymbolTable

end Heritage
