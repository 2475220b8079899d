import Heritage.Compilation
import Heritage.Proofs.Indentation
import Heritage.Proofs.LeftOpen
import Heritage.Proofs.LineBreaks

/-!
# The outline of a body

What lines a body has, in which order and how deep, can be read off its
statements, without a table, an environment or a layout: a line for each
declarator, assignment, return and expression, and for a conditional or a loop
its header, the lines of its blocks one deeper, and a line that closes it
(`Stmt.outline`). Only the texts of the lines take symbols.

The definition of a registered method has exactly these lines, whatever is wrong
with its expressions (`rowsAll_outline`), and so the text of a program, cut at
its line breaks, follows the outlines of its methods
(`definitions_follow_outline`).
-/

namespace Heritage

open SymbolTable

/-! ## Outlines -/

/-- Lines inside one more block. -/
def deepened (lines : List (Nat × Entry)) : List (Nat × Entry) :=
  lines.map fun line => (line.1 + 1, line.2)

mutual
/-- **The lines of a statement**: what each is for, and how many blocks of the statement it stands
in. -/
def Stmt.outline : Stmt → List (Nat × Entry)
  | .declare type vars _ => vars.map fun v => (0, .declarator type v)
  | .ifThen cond body _ _ => (0, .ifHeader cond) :: deepened (outlineOf body) ++ [(0, .close)]
  | .ifElse cond body _ other _ _ =>
    (0, .ifHeader cond) :: deepened (outlineOf body)
      ++ (0, .otherwise) :: deepened (outlineOf other) ++ [(0, .close)]
  | .loop cond body _ _ => (0, .loopHeader cond) :: deepened (outlineOf body) ++ [(0, .close)]
  | .ret value _ => [(0, .ret value)]
  | .assign target value _ => [(0, .assign target value)]
  | .eval expr _ => [(0, .eval expr)]
/-- The lines of a list of statements. -/
def outlineOf : List Stmt → List (Nat × Entry)
  | [] => []
  | s :: rest => s.outline ++ outlineOf rest
end

/-- What a row is for, and how many blocks it stands in. -/
def Row.place (r : Row) : Nat × Entry :=
  (r.depth, r.entry)

theorem map_place_deeper (rows : List Row) :
    (rows.map Row.deeper).map Row.place = deepened (rows.map Row.place) := by
  unfold deepened
  rw [List.map_map, List.map_map]
  rfl

namespace Body

variable {b : Body}

theorem varRows_outline (type : Ident) (vars : List Declarator) {env env' : Env}
    (h : b.afterVars vars env = .ok env') :
    (b.varRows type vars env).map Row.place = vars.map fun v => (0, .declarator type v) := by
  induction vars generalizing env with
  | nil => rfl
  | cons v rest ih =>
    unfold afterVars afterVar at h
    unfold varRows
    cases hid : b.table.lookupIn env.scope v.name.text with
    | none =>
      rw [hid] at h
      cases h
    | some id =>
      rw [hid] at h
      exact congrArg ((0, Entry.declarator type v) :: ·) (ih h)

/-- A block that the body gets past has the rows of its outline if its statements have. -/
theorem blockRows_outline {body : List Stmt}
    (hrows : ∀ {env env' : Env}, b.afterAll body env = .ok env' →
      (b.rowsAll body env).map Row.place = outlineOf body)
    {span : Span} {env env' : Env} (h : b.afterBlock body span env = .ok env') :
    (ifEntered (env.enter b.table span) [] (b.rowsAll body)).map Row.place = outlineOf body := by
  obtain ⟨first, last, henter, hall, -⟩ := afterBlock_eq_ok h
  rw [henter, ifEntered_ok]
  exact hrows hall

mutual
/-- **A statement that the body gets past has the rows of its outline.** -/
theorem rows_outline : (s : Stmt) → {env env' : Env} → b.after s env = .ok env' →
    (b.rows s env).map Row.place = s.outline
  | .declare type vars _, env, _, h => by
    unfold after at h
    unfold rows Stmt.outline
    exact varRows_outline type vars h
  | .ifThen cond body bodySpan span, env, _, h => by
    rw [after_ifThen] at h
    unfold rows Stmt.outline
    rw [h, List.map_append, List.map_cons, map_place_deeper,
      blockRows_outline (rowsAll_outline body) h]
    rfl
  | .ifElse cond body bodySpan other otherSpan span, env, _, h => by
    obtain ⟨env₁, hbody, hother⟩ := after_ifElse_eq_ok h
    unfold rows Stmt.outline
    rw [hbody, ifEntered_ok, hother, List.map_append, List.map_cons, map_place_deeper,
      blockRows_outline (rowsAll_outline body) hbody, List.map_append, List.map_cons,
      map_place_deeper, blockRows_outline (rowsAll_outline other) hother, List.append_assoc]
    rfl
  | .loop cond body bodySpan span, env, _, h => by
    rw [after_loop] at h
    unfold rows Stmt.outline
    rw [h, List.map_append, List.map_cons, map_place_deeper,
      blockRows_outline (rowsAll_outline body) h]
    rfl
  | .ret _ _, _, _, _ => by
    unfold rows Stmt.outline
    rfl
  | .assign _ _ _, _, _, _ => by
    unfold rows Stmt.outline
    rfl
  | .eval _ _, _, _, _ => by
    unfold rows Stmt.outline
    rfl
/-- **A body that is followed to its end has the rows of its outline.** -/
theorem rowsAll_outline : (body : List Stmt) → {env env' : Env} → b.afterAll body env = .ok env' →
    (b.rowsAll body env).map Row.place = outlineOf body
  | [], _, _, _ => by
    unfold rowsAll outlineOf
    rfl
  | s :: rest, env, _, h => by
    obtain ⟨env₁, hs, hrest⟩ := afterAll_cons_eq_ok h
    unfold rowsAll outlineOf
    rw [hs, ifEntered_ok, List.map_append, rows_outline s hs, rowsAll_outline rest hrest]
end

end Body

/-! ## The names in an outline -/

section Names

variable {P : String → Prop}

theorem forall_names_singleton {entry : Entry} (hentry : ∀ x ∈ entry.names, P x) :
    ∀ line ∈ [((0 : Nat), entry)], ∀ x ∈ line.2.names, P x :=
  List.forall_mem_singleton.mpr hentry

/-- A line without names of its own and a block behind it. -/
theorem forall_names_block {entry : Entry} (hentry : ∀ x ∈ entry.names, P x)
    {lines : List (Nat × Entry)} (h : ∀ line ∈ lines, ∀ x ∈ line.2.names, P x) :
    ∀ line ∈ (0, entry) :: deepened lines, ∀ x ∈ line.2.names, P x :=
  List.forall_mem_cons.mpr ⟨hentry, List.forall_mem_map.mpr h⟩

mutual
theorem Stmt.forall_outline_names : (s : Stmt) → (∀ x ∈ s.writtenNames, P x) →
    ∀ line ∈ s.outline, ∀ x ∈ line.2.names, P x
  | .declare type vars _, h => by
    unfold Stmt.writtenNames at h
    obtain ⟨htype, hvars⟩ := List.forall_mem_cons.mp h
    unfold Stmt.outline
    refine List.forall_mem_map.mpr fun v hv => List.forall_mem_cons.mpr ⟨htype, ?_⟩
    exact List.forall_mem_singleton.mpr (hvars _ (List.mem_map_of_mem hv))
  | .ifThen _ body _ _, h => by
    unfold Stmt.writtenNames at h
    unfold Stmt.outline
    exact List.forall_mem_append.mpr
      ⟨forall_names_block (List.forall_mem_nil _) (forall_outlineOf_names body h),
        forall_names_singleton (List.forall_mem_nil _)⟩
  | .ifElse _ body _ other _ _, h => by
    unfold Stmt.writtenNames at h
    unfold Stmt.outline
    obtain ⟨h, h'⟩ := List.forall_mem_append.mp h
    refine List.forall_mem_append.mpr ⟨List.forall_mem_append.mpr ⟨?_, ?_⟩,
      forall_names_singleton (List.forall_mem_nil _)⟩
    · exact forall_names_block (List.forall_mem_nil _) (forall_outlineOf_names body h)
    · exact forall_names_block (List.forall_mem_nil _) (forall_outlineOf_names other h')
  | .loop _ body _ _, h => by
    unfold Stmt.writtenNames at h
    unfold Stmt.outline
    exact List.forall_mem_append.mpr
      ⟨forall_names_block (List.forall_mem_nil _) (forall_outlineOf_names body h),
        forall_names_singleton (List.forall_mem_nil _)⟩
  | .ret .., _ => by
    unfold Stmt.outline
    exact forall_names_singleton (List.forall_mem_nil _)
  | .assign .., h => by
    unfold Stmt.outline
    exact forall_names_singleton h
  | .eval .., _ => by
    unfold Stmt.outline
    exact forall_names_singleton (List.forall_mem_nil _)
theorem forall_outlineOf_names : (body : List Stmt) → (∀ x ∈ writtenNamesOf body, P x) →
    ∀ line ∈ outlineOf body, ∀ x ∈ line.2.names, P x
  | [], _ => List.forall_mem_nil _
  | s :: rest, h => by
    unfold writtenNamesOf at h
    obtain ⟨hs, hrest⟩ := List.forall_mem_append.mp h
    unfold outlineOf
    exact List.forall_mem_append.mpr
      ⟨s.forall_outline_names hs, forall_outlineOf_names rest hrest⟩
end

end Names

/-! ## Definitions -/

/-- The declaration of a registered method is a member of a class. -/
theorem mem_members_of_registered {p : Program} {r : Registered} (h : r ∈ registered p) :
    .method r.decl ∈ p.members := by
  obtain ⟨t, c, decl, index, v⟩ := visited p h
  exact List.mem_flatMap.mpr
    ⟨decl, List.mem_of_getElem? v.inProgram, List.mem_of_getElem? v.inClass⟩

theorem Body.varLine_ne_empty (b : Body) (env : Env) (type : Ident) (v : Declarator) (id : VarId) :
    b.varLine env type v id ≠ "" := by
  unfold varLine
  dsimp only
  split <;> simp

theorem Entry.text_ne_empty (entry : Entry) (b : Body) (env : Env) : entry.text b env ≠ "" := by
  cases entry with
  | declarator type v => exact b.varLine_ne_empty env type v _
  | ret value => cases value <;> simp [text]
  | _ => simp [text]

namespace C

/-- **The definition of a method, line by line**: its signature, its rows with so many spaces for
each block that they stand in, the outermost one included, and a brace. -/
def definitionTexts (width : Nat) (t : SymbolTable) (m : MethodId) (body : List Stmt) :
    List String :=
  (signature t m ++ " \x7b")
    :: (Body.rowsAll ⟨t, m⟩ body (Body.start ⟨t, m⟩)).map (fun r =>
      String.ofList (List.replicate ((1 + r.depth) * width) ' ') ++ r.entry.text ⟨t, m⟩ r.env)
    ++ ["\x7d"]

/-- A definition that leaves nothing open. -/
theorem map_render_definitionLines (width : Nat) {t : SymbolTable} {m : MethodId}
    {body : List Stmt} (h : leftOpenBy t m body = 0) :
    (definitionLines t m body).map (Line.render width) = definitionTexts width t m body := by
  unfold definitionLines definitionTexts
  rw [h, List.map_append, List.map_cons, Line.render_zero, List.map_map, List.map_map]
  refine congrArg₂ (fun rows last => (signature t m ++ " \x7b") :: rows ++ last)
    (List.map_congr_left fun r _ => ?_) (congrArg ([·]) (Line.render_zero width "\x7d"))
  exact Line.render_shift (r.entry.text_ne_empty ⟨t, m⟩ r.env) width 1

/-- **The lines of a definition are lines**, if no name has a line break. -/
theorem unbroken_definitionTexts (width : Nat) {p : Program}
    (names : ∀ x ∈ p.writtenNames, Unbroken x) {u : SymbolTable}
    (hu : u.declared = (collect p).table.declared) {r : Registered} (hr : r ∈ registered p) :
    ∀ line ∈ definitionTexts width u r.method r.decl.body, Unbroken line := by
  have hunbroken : u.Unbroken := ((collect_drawnFrom p).of_declared hu).unbroken names
  have hbody : ∀ x ∈ writtenNamesOf r.decl.body, Unbroken x := fun x hx =>
    names x (List.mem_append_right _ (List.mem_flatMap.mpr
      ⟨.method r.decl, mem_members_of_registered hr, List.mem_append_right _ hx⟩))
  obtain ⟨env, hfollows⟩ := follows_registered hr hu
  refine List.forall_mem_append.mpr ⟨List.forall_mem_cons.mpr ⟨?_, ?_⟩, ?_⟩
  · exact unbroken_append.mpr ⟨hunbroken.signature r.method, by decide⟩
  · refine List.forall_mem_map.mpr fun row hrow => unbroken_append.mpr ⟨unbroken_spaces _, ?_⟩
    -- A row is for a line of the outline, so the names in its text are names of the body.
    have hplace : row.place ∈ outlineOf r.decl.body := by
      rw [← Body.rowsAll_outline r.decl.body hfollows.afterAll_eq]
      exact List.mem_map_of_mem hrow
    exact row.entry.unbroken_text hunbroken (forall_outlineOf_names _ hbody _ hplace) row.env
  · exact List.forall_mem_singleton.mpr (by decide)

/-! ## The section of definitions -/

/-- The last of the texts stands at the end, with a blank line before it if there are others. -/
theorem paragraphs_concat (texts : List String) (last : String) :
    ∃ front, paragraphs (texts ++ [last]) = front ++ last ++ "\n"
      ∧ (front = "" ∨ ∃ rest, front = rest ++ "\n\n") := by
  induction texts with
  | nil => exact ⟨"", by simp [paragraphs], Or.inl rfl⟩
  | cons text texts ih =>
    obtain ⟨front, hfront, hends⟩ := ih
    have hne : front ++ last ++ "\n" ≠ "" := by simp
    refine ⟨text ++ "\n\n" ++ front, ?_, Or.inr ?_⟩
    · rw [List.cons_append, paragraphs_cons, hfront, if_neg hne]
      simp [← String.toList_inj]
    · obtain rfl | ⟨rest, rfl⟩ := hends
      · exact ⟨text, String.append_empty⟩
      · exact ⟨text ++ "\n\n" ++ rest, by simp [String.append_assoc]⟩

/-- A text ends with its definitions. -/
theorem File.text_eq_front_append (o : Options) {f : File} (h : f.definitions ≠ []) :
    ∃ front, f.text o = front ++ sectionText o.indentWidth f.definitions ++ "\n"
      ∧ (front = "" ∨ ∃ rest, front = rest ++ "\n\n") := by
  have hsections : sectionTexts o.indentWidth (bannerSection o :: f.sections)
      = sectionTexts o.indentWidth [bannerSection o, f.typedefs, f.structs, f.prototypes]
        ++ [sectionText o.indentWidth f.definitions] := by
    have hlast : [f.definitions].filter (fun lines => !lines.isEmpty) = [f.definitions] :=
      List.filter_cons_of_pos (by simpa using h)
    show (List.filter _ ([bannerSection o, f.typedefs, f.structs, f.prototypes]
      ++ [f.definitions])).map _ = _
    rw [List.filter_append, List.map_append, hlast]
    rfl
  rw [File.text_eq_paragraphs, hsections]
  exact paragraphs_concat _ _

section Registered

variable {p : Program} {u : SymbolTable} (hu : u.declared = (collect p).table.declared)
include hu

/-- The definitions of registered methods, one behind the other. -/
theorem File.render_definitions_registered (width : Nat) :
    (File.ofTable u p).definitions.map (Line.render width)
      = [""].intercalate
        ((registered p).map fun r => definitionTexts width u r.method r.decl.body) := by
  -- No body leaves anything open, so each definition stands as it does alone.
  have hleft : ∀ m ∈ heldMethods u p, leftOpenBy u m.1 m.2.body = 0 := by
    rw [heldMethods_registered p hu]
    exact List.forall_mem_map.mpr fun r hr => leftOpenBy_registered hr hu
  have hopen : ∀ i, openBefore u (heldMethods u p) i = 0 := fun i =>
    (openBefore_eq_zero_iff u _ i).mpr fun m hm => hleft m (List.mem_of_mem_take hm)
  rw [heldMethods_registered p hu] at hopen
  rw [File.render_definitions, heldMethods_registered p hu]
  refine congrArg _ (List.ext_getElem? fun i => ?_)
  rw [List.getElem?_mapIdx, List.getElem?_map, List.getElem?_map, Option.map_map, hopen]
  cases hr : (registered p)[i]? with
  | none => rfl
  | some r =>
    refine congrArg some ?_
    show renderAt width 0 (linesOf (definitionSteps u r.method r.decl.body)) = _
    rw [(lays_definition u r.method r.decl.body).linesOf_eq, renderAt_zero,
      map_render_definitionLines width (leftOpenBy_registered (List.mem_of_getElem? hr) hu)]

theorem File.definitions_ne_nil (hne : registered p ≠ []) :
    (File.ofTable u p).definitions ≠ [] := by
  intro hnil
  obtain ⟨r, rest, hregistered⟩ := List.exists_cons_of_ne_nil hne
  have hrender := File.render_definitions_registered hu 0
  rw [hnil, hregistered, List.map_cons] at hrender
  cases rest with
  | nil => simp [definitionTexts] at hrender
  | cons r' rest => simp [List.intercalate_cons_cons] at hrender

/-- **Cut at its line breaks, the section of definitions gives the lines of the definitions.** -/
theorem File.textLines_definitions (width : Nat) (names : ∀ x ∈ p.writtenNames, Unbroken x)
    (hne : registered p ≠ []) :
    textLines (sectionText width (File.ofTable u p).definitions)
      = [""].intercalate
        ((registered p).map fun r => definitionTexts width u r.method r.decl.body) := by
  have hrender := File.render_definitions_registered hu width
  have hlines : (File.ofTable u p).definitions.map (Line.render width) ≠ [] := fun hnil =>
    File.definitions_ne_nil hu hne (List.map_eq_nil_iff.mp hnil)
  unfold sectionText
  rw [hrender] at hlines ⊢
  exact textLines_intercalate hlines (forall_mem_intercalate
    (List.forall_mem_singleton.mpr (by decide))
    (List.forall_mem_map.mpr fun r hr => unbroken_definitionTexts width names hu hr))

/-- After any number of the definitions nothing is left open. -/
theorem depth_definitions (k : Nat) :
    (Layout.run (separated (((registered p).take k).map fun r =>
      definitionSteps u r.method r.decl.body))).depth = 0 := by
  refine level_separated (List.forall_mem_map.mpr fun r hr => ?_) {}
  exact definitionSteps_level (List.mem_of_mem_take hr) hu

end Registered

end C

/-- **The lines of a definition are those of the outline of its body.** If no name of a program has
a line break, its text ends with the definitions of its registered methods, an empty line between
them; each has its signature, then a line for each line of the outline of its body, in order and
indented by the blocks around it, and then a brace, whatever is wrong with the body. After any
number of definitions nothing is left open. -/
theorem definitions_follow_outline (o : Options) (p : Program)
    (names : ∀ x ∈ p.writtenNames, C.Unbroken x) :
    let c := Compilation.run o p
    let t := c.resolved.table
    (registered p ≠ [] →
      C.textLines (C.sectionText o.indentWidth c.file.definitions)
        = [""].intercalate ((registered p).map fun r =>
          C.definitionTexts o.indentWidth t r.method r.decl.body)
      ∧ ∃ front, c.file.text o = front ++ C.sectionText o.indentWidth c.file.definitions ++ "\n"
        ∧ (front = "" ∨ ∃ rest, front = rest ++ "\n\n"))
      ∧ (∀ r ∈ registered p,
        (Body.rowsAll ⟨t, r.method⟩ r.decl.body (Body.start ⟨t, r.method⟩)).map Row.place
          = outlineOf r.decl.body)
      ∧ ∀ k, (C.Layout.run (C.separated (((registered p).take k).map fun r =>
          C.definitionSteps t r.method r.decl.body))).depth = 0 := by
  intro c t
  have hu : t.declared = (collect p).table.declared := resolve_declared _
  refine ⟨fun hne => ⟨?_, ?_⟩, fun r hr => ?_, C.depth_definitions hu⟩
  · exact C.File.textLines_definitions hu o.indentWidth names hne
  · exact C.File.text_eq_front_append o (C.File.definitions_ne_nil hu hne)
  · obtain ⟨env, hfollows⟩ := follows_registered hr hu
    exact Body.rowsAll_outline r.decl.body hfollows.afterAll_eq

/-- A method with nested blocks, one of them empty, a name that denotes nothing and a value that it
must not return. -/
def shapedMethod : MethodDecl where
  name := ⟨"m", {}⟩
  params := [⟨⟨"self", {}⟩, none, {}⟩]
  returnType := none
  body :=
    [.declare ⟨"int", {}⟩ [⟨⟨"x", {}⟩, some (.name ⟨"y", {}⟩), {}⟩, ⟨⟨"z", {}⟩, none, {}⟩] {},
      .ifElse (.name ⟨"x", {}⟩) [.loop (.int 1 {}) [.assign ⟨"x", {}⟩ (.int 2 {}) {}] {} {}] {} []
        {} {},
      .ret (some (.int 3 {})) {}]
  bodySpan := {}
  span := {}

/-- A program with this method. -/
def shaped : Program where
  classes := [⟨⟨"A", {}⟩, [], [.method shapedMethod], {}⟩]
  span := {}

/-- Two issues are found in this program, and each line stands where its statement puts it. -/
theorem shaped_follows_outline :
    (∀ x ∈ shaped.writtenNames, C.Unbroken x) ∧ registered shaped ≠ []
      ∧ (Compilation.run {} shaped).issues.length = 2
      ∧ C.textLines (C.sectionText 4 (Compilation.run {} shaped).file.definitions)
        = ["void A_m(A *self) \x7b", "    int x = ;", "    int z;", "    if (x) \x7b",
          "        while (1) \x7b", "            x = 2;", "        \x7d", "    \x7d else \x7b",
          "    \x7d", "    return 3;", "\x7d"] := by
  have names : ∀ x ∈ shaped.writtenNames, C.Unbroken x := by decide +kernel
  have registers : registered shaped ≠ [] := List.cons_ne_nil _ _
  obtain ⟨lines, -⟩ := definitions_follow_outline {} shaped names
  exact ⟨names, registers, by decide +kernel, (lines registers).1.trans (by decide +kernel)⟩

end Heritage
