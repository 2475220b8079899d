import Heritage.Proofs.Binding
import Heritage.Proofs.Collisions
import Heritage.Proofs.Conversions
import Heritage.Proofs.Requests

/-!
# Names that are declared twice in one place

Inside a file C has scopes of its own: each struct has its members, each
function its parameters and the locals of its outermost block, and each block
inside it has its locals. In a program the names of such a place differ; in C
their spellings have to. A reserved word and this word with an underscore are
two names with one spelling, and the part of a parent is a member beside the
fields, whose name a field may have as well. This module says for each of these
scopes when its names differ in C.
-/

namespace Heritage

open SymbolTable

namespace C

/-! ## Names that differ and are spelled alike -/

/-- **Names are told apart**: two of them that differ are spelled differently. -/
def Apart (named : String → Prop) : Prop :=
  ∀ x y, named x → named y → Alike x y → x = y

/-- A list of names stays without duplicates exactly if a spelling tells them
apart. -/
theorem nodup_map_iff_apart {spell : String → String}
    (hspell : ∀ {x y}, spell x = spell y ↔ Alike x y) {names : List String}
    {named : String → Prop} (hnodup : names.Nodup) (hnamed : ∀ {x}, x ∈ names ↔ named x) :
    (names.map spell).Nodup ↔ Apart named := by
  rw [List.nodup_map_iff_inj_on hnodup]
  constructor
  · intro h x y hx hy halike
    exact h x (hnamed.mpr hx) y (hnamed.mpr hy) (hspell.mpr halike)
  · intro h x hx y hy heq
    exact h x y (hnamed.mp hx) (hnamed.mp hy) (hspell.mp heq)

/-- A name that ends like the spelling of a reserved word or of a part. -/
def Suffixed (name : String) : Prop :=
  ∃ x, name = x ++ "_" ∨ name = x ++ "_part"

theorem apart_of_not_suffixed {named : String → Prop} (h : ∀ x, named x → ¬ Suffixed x) :
    Apart named := by
  rintro x y hx hy (heq | ⟨-, rfl⟩ | ⟨-, rfl⟩)
  · exact heq
  · exact absurd ⟨x, Or.inl rfl⟩ (h _ hy)
  · exact absurd ⟨y, Or.inl rfl⟩ (h _ hx)

/-! ## Structs -/

theorem partName_eq_iff {a b : String} : partName a = partName b ↔ Alike a b := by
  unfold partName
  rw [String.append_left_inj, ident_eq_iff]

theorem not_reserved_partName (parent : String) : ¬ Reserved (partName parent) := by
  have hall : ∀ w ∈ receiver :: keywords, ¬ "_part".toList <:+ w.toList := by
    decide +kernel
  intro h
  exact hall _ (List.mem_cons.mpr h) ⟨(ident parent).toList, by simp [partName]⟩

/-- **A field is spelled like a part exactly if it is called like it.** -/
theorem ident_eq_partName_iff {x parent : String} :
    ident x = partName parent ↔ x = partName parent := by
  show (if Reserved x then x ++ "_" else x) = partName parent ↔ _
  split
  · rename_i hreserved
    -- A spelling that was completed ends in an underscore, and a part does not.
    refine iff_of_false (fun heq => ?_) (fun heq => ?_)
    · have hlast := congrArg (fun s => s.toList.getLast?) heq
      simp [partName] at hlast
    · exact not_reserved_partName parent (heq ▸ hreserved)
  · rfl

/-- A declaration ends in the name it declares. -/
def DeclaresName (text name : String) : Prop :=
  ∃ type, text = type ++ " " ++ name ∨ text = type ++ "*" ++ name

theorem declaration_declares (type name : String) : DeclaresName (declaration type name) name := by
  unfold declaration
  split
  · rename_i hstar
    obtain ⟨front, hfront⟩ := List.getLast?_eq_some_iff.mp hstar
    refine ⟨String.ofList front, Or.inr (congrArg (· ++ name) ?_)⟩
    simp [← String.toList_inj, hfront]
  · exact ⟨type, Or.inl rfl⟩

theorem StructMember.text_declares (t : SymbolTable) (m : StructMember) :
    DeclaresName (m.text t) (m.name t) := by
  cases m with
  | part parent => exact ⟨_, Or.inl rfl⟩
  | field v => exact declaration_declares _ _
  | unused => exact ⟨"char", Or.inl rfl⟩

/-- The names of the members of the struct of a class. -/
def memberNames (t : SymbolTable) (c : ClassId) : List String :=
  (structMembers t c).map (·.name t)

/-- The names of the parents of a class. -/
def parentNames (t : SymbolTable) (c : ClassId) : List String :=
  (t.classAt c).resolvedParents.map fun a => (t.classAt a).name

/-- The names of the fields of a class. -/
def ownFieldNames (t : SymbolTable) (c : ClassId) : List String :=
  (t.fieldsOf c).map fun v => (t.varAt v).name

theorem memberNames_nodup_iff_spelled (t : SymbolTable) (c : ClassId) :
    (memberNames t c).Nodup
      ↔ ((parentNames t c).map partName ++ (ownFieldNames t c).map ident).Nodup := by
  have hnames : (partsAndFields t c).map (·.name t)
      = (parentNames t c).map partName ++ (ownFieldNames t c).map ident := by
    unfold partsAndFields parentNames ownFieldNames
    rw [List.map_append, List.map_map, List.map_map, List.map_map, List.map_map]
    rfl
  unfold memberNames structMembers
  rw [← hnames]
  split
  · rename_i hempty
    rw [List.isEmpty_iff.mp hempty]
    exact iff_of_true (List.nodup_singleton _) List.nodup_nil
  · rfl

end C

section Structs

variable {p : Program} {t : SymbolTable} (h : Represents p t) {c : ClassId}
  (hc : c < t.classes.length)
include h hc

theorem Represents.mem_parentNames (known : p.AncestryOk) {x : String} :
    x ∈ C.parentNames t.resolve.table c ↔ p.Parent (t.classAt c).name x := by
  have hu := resolve_declared t
  unfold C.parentNames
  rw [List.mem_map]
  constructor
  · rintro ⟨a, ha, rfl⟩
    have hinside : a < t.classes.length := t.resolve_length ▸ h.fresh.resolve_inside c a ha
    rw [classAt_name_of_declared hu]
    exact (h.parent_name_iff hc hinside).mpr ha
  · intro hparent
    -- A written parent is a class, since the ancestry of every class is known.
    have hcls : p.HasClass x := by
      obtain ⟨d, hd, -, q, hq, rfl⟩ := hparent
      exact known.parents d hd q hq
    obtain ⟨a, ha⟩ := h.hasClass_iff.mp hcls
    obtain ⟨hinside, rfl⟩ := (lookupClass_eq_some_iff h.formed).mp ha
    exact ⟨a, (h.parent_name_iff hc hinside).mp hparent, classAt_name_of_declared hu a⟩

omit hc in
theorem Represents.parentNames_nodup : (C.parentNames t.resolve.table c).Nodup := by
  refine h.fresh.resolvedParents_nodup.map_on fun a ha b hb hname => ?_
  rw [classAt_name_of_declared (resolve_declared t),
    classAt_name_of_declared (resolve_declared t)] at hname
  exact h.name_inj (t.resolve_length ▸ h.fresh.resolve_inside c a ha)
    (t.resolve_length ▸ h.fresh.resolve_inside c b hb) hname

theorem Represents.mem_ownFieldNames {x : String} :
    x ∈ C.ownFieldNames t.resolve.table c ↔ p.HasField x (t.classAt c).name := by
  have hu := resolve_declared t
  have hlen : c < t.resolve.table.classes.length := t.resolve_length.symm ▸ hc
  rw [h.hasField_iff hc, ← declaredField_of_declared hu, Option.ne_none_iff_exists']
  unfold C.ownFieldNames
  rw [List.mem_map]
  exact exists_congr fun v => ((h.formed.of_declared hu).declaredField_iff hlen).symm

theorem Represents.ownFieldNames_nodup : (C.ownFieldNames t.resolve.table c).Nodup := by
  have hlen : c < t.resolve.table.classes.length := t.resolve_length.symm ▸ hc
  exact (List.nodup_append'.mp
    ((h.formed.of_declared (resolve_declared t)).member_names_nodup hlen)).1

/-- **When the members of a struct differ.** -/
theorem Represents.memberNames_nodup_iff (known : p.AncestryOk) :
    (C.memberNames t.resolve.table c).Nodup
      ↔ C.Apart (p.Parent (t.classAt c).name)
        ∧ C.Apart (p.HasField · (t.classAt c).name)
        ∧ ∀ a, p.Parent (t.classAt c).name a → ¬ p.HasField (C.partName a) (t.classAt c).name := by
  have hmeet : List.Disjoint ((C.parentNames t.resolve.table c).map C.partName)
      ((C.ownFieldNames t.resolve.table c).map C.ident)
        ↔ ∀ a, p.Parent (t.classAt c).name a
          → ¬ p.HasField (C.partName a) (t.classAt c).name := by
    constructor
    · intro hdisjoint a ha hfield
      refine hdisjoint (List.mem_map_of_mem ((h.mem_parentNames hc known).mpr ha)) ?_
      exact List.mem_map.mpr ⟨_, (h.mem_ownFieldNames hc).mpr hfield,
        C.ident_eq_partName_iff.mpr rfl⟩
    · intro hnone name hpart hfield
      obtain ⟨a, ha, rfl⟩ := List.mem_map.mp hpart
      obtain ⟨x, hx, heq⟩ := List.mem_map.mp hfield
      obtain rfl := C.ident_eq_partName_iff.mp heq
      exact hnone a ((h.mem_parentNames hc known).mp ha) ((h.mem_ownFieldNames hc).mp hx)
  rw [C.memberNames_nodup_iff_spelled, List.nodup_append', hmeet,
    C.nodup_map_iff_apart C.partName_eq_iff h.parentNames_nodup (h.mem_parentNames hc known),
    C.nodup_map_iff_apart C.ident_eq_iff (h.ownFieldNames_nodup hc) (h.mem_ownFieldNames hc)]

end Structs

/-! ## Functions -/

mutual
/-- The blocks inside a statement, those inside them included. -/
def Stmt.blocks : Stmt → List (List Stmt)
  | .declare .. => []
  | .ifThen _ body _ _ => body :: blocksOf body
  | .ifElse _ body _ other _ _ => (body :: blocksOf body) ++ other :: blocksOf other
  | .loop _ body _ _ => body :: blocksOf body
  | .ret .. => []
  | .assign .. => []
  | .eval .. => []
/-- The blocks inside a list of statements. -/
def blocksOf : List Stmt → List (List Stmt)
  | [] => []
  | s :: rest => s.blocks ++ blocksOf rest
end

/-- **The names declared in each scope of a method**: the explicit parameters
with the locals of the body, and the locals of each block inside. -/
def MethodDecl.scopes (m : MethodDecl) : List (List String) :=
  (m.params.tail.map (·.name.text) ++ localsOf m.body) :: (blocksOf m.body).map localsOf

mutual
theorem Stmt.distinct_iff : (s : Stmt) → (s.Distinct ↔ ∀ block ∈ s.blocks, (localsOf block).Nodup)
  | .declare .. => by simp [Stmt.Distinct, Stmt.blocks]
  | .ifThen _ body _ _ => by simp [Stmt.Distinct, Stmt.blocks, blocksDistinct_iff body]
  | .ifElse _ body _ other _ _ => by
    rw [Stmt.Distinct, Stmt.blocks, blocksDistinct_iff body, blocksDistinct_iff other,
      List.forall_mem_append, List.forall_mem_cons, List.forall_mem_cons]
  | .loop _ body _ _ => by simp [Stmt.Distinct, Stmt.blocks, blocksDistinct_iff body]
  | .ret .. => by simp [Stmt.Distinct, Stmt.blocks]
  | .assign .. => by simp [Stmt.Distinct, Stmt.blocks]
  | .eval .. => by simp [Stmt.Distinct, Stmt.blocks]
theorem blocksDistinct_iff : (body : List Stmt) →
    (BlocksDistinct body ↔ ∀ block ∈ blocksOf body, (localsOf block).Nodup)
  | [] => by simp [BlocksDistinct, blocksOf]
  | s :: rest => by
    rw [BlocksDistinct, s.distinct_iff, blocksDistinct_iff rest, blocksOf, List.forall_mem_append]
end

/-- The names of a scope of a method differ. -/
theorem MethodDecl.NamesOk.scopes_nodup {m : MethodDecl} (h : m.NamesOk) :
    ∀ names ∈ m.scopes, names.Nodup := by
  refine List.forall_mem_cons.mpr ⟨?_, List.forall_mem_map.mpr ((blocksDistinct_iff _).mp h.blocks)⟩
  obtain ⟨receiver, rest, hparams, -, -⟩ := h.params
  have hdistinct := h.distinct
  rw [hparams, List.map_cons, List.cons_append] at hdistinct
  rw [hparams]
  exact (List.nodup_cons.mp hdistinct).2

namespace C

/-- The names that are declared directly in a block. -/
def namesIn (t : SymbolTable) (items : List Item) : List String :=
  items.flatMap fun
    | .declare _ v _ => [spelling t v]
    | _ => []

mutual
/-- The blocks inside an item, those inside them included. -/
def Item.blocks : Item → List (List Item)
  | .declare .. => []
  | .line _ => []
  | .block _ body => body :: blocksIn body
  | .branch _ body other => (body :: blocksIn body) ++ other :: blocksIn other
/-- The blocks inside a block. -/
def blocksIn : List Item → List (List Item)
  | [] => []
  | item :: rest => item.blocks ++ blocksIn rest
end

theorem blocksIn_append (xs ys : List Item) : blocksIn (xs ++ ys) = blocksIn xs ++ blocksIn ys := by
  induction xs with
  | nil => rfl
  | cons x rest ih => rw [List.cons_append, blocksIn, ih, blocksIn, List.append_assoc]

/-- **The names declared in each scope of a function**: its parameters with the
locals of its outermost block, and the locals of each block inside. -/
def Function.scopeNames (t : SymbolTable) (f : Function) : List (List String) :=
  (f.params.map (fun q => spelling t q.2) ++ namesIn t f.body)
    :: (blocksIn f.body).map (namesIn t)

theorem scopes_nodup_of_not_suffixed {spelled written : List (List String)}
    (h : List.Forall₂ (fun xs ys => xs.Nodup ↔ Apart (· ∈ ys)) spelled written)
    (plain : ∀ ys ∈ written, ∀ x ∈ ys, ¬ Suffixed x) : ∀ xs ∈ spelled, xs.Nodup := by
  induction h with
  | nil => exact nofun
  | cons hiff _ ih =>
    obtain ⟨hfirst, hrest⟩ := List.forall_mem_cons.mp plain
    exact List.forall_mem_cons.mpr ⟨hiff.mpr (apart_of_not_suffixed hfirst), ih hrest⟩

end C

namespace SymbolTable

theorem names_paramSymbols (s : ScopeId) {params : List Param}
    (typed : ∀ q ∈ params, q.type ≠ none) :
    (paramSymbols s params).map (·.name) = params.map (·.name.text) := by
  induction params with
  | nil => rfl
  | cons q rest ih =>
    obtain ⟨hq, hrest⟩ := List.forall_mem_cons.mp typed
    obtain ⟨w, hw⟩ := Option.ne_none_iff_exists'.mp hq
    unfold paramSymbols at ih ⊢
    rw [List.filterMap_cons, hw]
    exact congrArg _ (ih hrest)

end SymbolTable

namespace Body

open C

variable {p : Program} {t : SymbolTable} {b : Body} {result : Ty}

/-- Items declare, as C spells them, the names of statements, and so do the
blocks inside. -/
structure DeclaresLike (t : SymbolTable) (items : List Item) (body : List Stmt) : Prop where
  /-- The names declared directly. -/
  names : namesIn t items = (localsOf body).map C.ident
  /-- The names declared in the blocks inside. -/
  blocks : (blocksIn items).map (namesIn t)
    = (blocksOf body).map fun block => (localsOf block).map C.ident

theorem DeclaresLike.cons {items items' : List Item} {s : Stmt} {rest : List Stmt}
    (names : namesIn t items = s.locals.map C.ident)
    (blocks : (blocksIn items).map (namesIn t)
      = s.blocks.map fun block => (localsOf block).map C.ident)
    (h : DeclaresLike t items' rest) : DeclaresLike t (items ++ items') (s :: rest) where
  names := by
    unfold namesIn at *
    rw [List.flatMap_append, names, localsOf, List.flatMap_cons, List.map_append]
    exact congrArg _ h.names
  blocks := by rw [blocksIn_append, List.map_append, blocks, h.blocks, blocksOf, List.map_append]

theorem DeclaresLike.block {items : List Item} {body : List Stmt} (h : DeclaresLike t items body) :
    (items :: blocksIn items).map (namesIn t)
      = (body :: blocksOf body).map fun block => (localsOf block).map C.ident := by
  rw [List.map_cons, h.names, h.blocks, List.map_cons]

theorem blocksIn_varItems (type : Ident) (vars : List Declarator) (env : Env) :
    blocksIn (b.varItems type vars env) = [] := by
  induction vars generalizing env with
  | nil => rfl
  | cons v rest ih =>
    unfold varItems
    split
    · rfl
    · exact ih _

theorem Of.namesIn_varItems (hb : b.Of p t result) {clean : Prop} (hclean : clean) {type : Ident}
    (vars : List Declarator) {env : Env} (held : ∀ v ∈ vars, Held t clean env.scope type v) :
    namesIn b.table (b.varItems type vars env) = (vars.map (·.name.text)).map C.ident := by
  induction vars generalizing env with
  | nil => rfl
  | cons v rest ih =>
    obtain ⟨id, τ, hlook, -, -, -, -, -, -, hbinding⟩ :=
      hb.local_declared hclean (held v List.mem_cons_self)
    unfold varItems
    rw [hlook]
    dsimp only
    rw [Env.declare_eq hlook]
    have hrest := @ih { env with visible := id :: env.visible }
      fun w hw => held w (List.mem_cons_of_mem v hw)
    exact congrArg₂ List.cons (spelling_of_binding hbinding) hrest

/-- **The items of a walk declare the locals of its statements.** -/
theorem Of.declares_items (hb : b.Of p t result) {clean : Prop} (hclean : clean)
    {body : List Stmt} {env env' : Env} {opened : List BlockScope}
    (h : Follows b (Held t clean) body env env' opened) :
    DeclaresLike b.table (b.items body env) body := by
  -- Only declarators declare something in the block itself; a statement with
  -- blocks adds a scope for each of them.
  induction h with
  | nil => exact ⟨rfl, rfl⟩
  | @declare type vars span rest env env' visible opened held hvars _ ih =>
    rw [items_cons (s := .declare type vars span) hvars]
    refine ih.cons (hb.namesIn_varItems hclean vars held) ?_
    show (blocksIn (b.varItems type vars env)).map _ = []
    rw [blocksIn_varItems]
    rfl
  | @ifThen cond body bodySpan span rest env e env' block blocks inner opened next inside _ ihIn
      ih =>
    rw [items_cons (inside.after_ifThen_eq next ..)]
    refine ih.cons rfl ?_
    rw [item_ifThen next, Stmt.blocks, ← ihIn.block]
    simp [blocksIn, Item.blocks]
  | @ifElse cond body other bodySpan otherSpan span rest env e e' env' block block' blocks inner
      inner' opened next inside inside' _ ihIn ihIn' ih =>
    rw [items_cons (inside.after_ifElse_eq inside' next ..)]
    refine ih.cons rfl ?_
    rw [inside.item_ifElse next, Stmt.blocks, List.map_append, ← ihIn.block, ← ihIn'.block]
    simp [blocksIn, Item.blocks]
  | @loop cond body bodySpan span rest env e env' block blocks inner opened next inside _ ihIn ih =>
    rw [items_cons (inside.after_loop_eq next ..)]
    refine ih.cons rfl ?_
    rw [item_loop next, Stmt.blocks, ← ihIn.block]
    simp [blocksIn, Item.blocks]
  | @ret value span rest env env' opened _ ih =>
    rw [items_cons (s := .ret value span) rfl]
    cases value with
    | none => exact ih.cons rfl rfl
    | some e => exact ih.cons rfl rfl
  | @assign target value span rest env env' opened _ ih =>
    rw [items_cons (s := .assign target value span) rfl]
    exact ih.cons rfl rfl
  | @eval expr span rest env env' opened _ ih =>
    rw [items_cons (s := .eval expr span) rfl]
    exact ih.cons rfl rfl

/-- **The parameters of a function** are the receiver and, as C spells them, the
explicit parameters. -/
theorem Of.spelled_params (hb : b.Of p t result) {decl : MethodDecl}
    (hm : HoldsMethod p t b.method b.cls decl) (names : decl.NamesOk) (body : List Stmt) :
    (b.function body).params.map (fun q => spelling b.table q.2)
      = C.receiver :: (decl.params.tail.map (·.name.text)).map C.ident := by
  obtain ⟨v, vs, hparams, ⟨_, _, _, hreceiver⟩, hkind⟩ := hb.params_kinds hm
  obtain ⟨receiver, params, hdecl, -, hsymbols⟩ := hm.params
  have hspelled : (b.function body).params.map (fun q => spelling b.table q.2)
      = (v :: vs).map (spelling b.table) := by
    rw [← hparams]
    exact List.map_map
  have htyped : ∀ q ∈ params, q.type ≠ none := by
    obtain ⟨receiver', params', hdecl', -, htyped⟩ := names.params
    obtain ⟨-, rfl⟩ := List.cons.inj (hdecl.symm.trans hdecl')
    exact htyped
  have hvs : vs.map (fun w => (b.table.varAt w).name) = params.map (·.name.text) := by
    have hnames := congrArg (List.map (·.name)) hsymbols
    rw [List.map_map, List.map_cons, names_paramSymbols _ htyped,
      ← paramsOf_of_declared (resolve_declared t), ← hb.table, hparams, List.map_cons] at hnames
    rw [← (List.cons.inj hnames).2]
    -- Resolution gives a variable its type and leaves its name.
    refine List.map_congr_left fun w _ => ?_
    rw [hb.table, resolve_varAt]
    rfl
  rw [hspelled, List.map_cons, spelling_receiver (hreceiver ▸ rfl), hdecl, List.tail_cons, ← hvs,
    List.map_map]
  exact congrArg _ (List.map_congr_left fun w hw => spelling_of_ne (hkind w hw))

/-- **The scopes of a function** declare, as C spells them, the names of the
scopes of its method, and the outermost one its receiver. -/
theorem Of.scopeNames_function (hb : b.Of p t result) {decl : MethodDecl}
    (hm : HoldsMethod p t b.method b.cls decl) (names : decl.NamesOk) {clean : Prop}
    (hclean : clean) {env : Env} {opened : List BlockScope}
    (h : Follows b (Held t clean) decl.body b.start env opened) :
    (b.function decl.body).scopeNames b.table
      = (C.receiver :: (decl.params.tail.map (·.name.text) ++ localsOf decl.body).map C.ident)
        :: (blocksOf decl.body).map fun block => (localsOf block).map C.ident := by
  have hlike : DeclaresLike b.table (b.function decl.body).body decl.body :=
    hb.declares_items hclean h
  unfold Function.scopeNames
  rw [hb.spelled_params hm names, hlike.names, hlike.blocks, List.map_append, List.cons_append]

/-- **When the names of a scope of a function differ.** -/
theorem Of.scopeNames_nodup_iff (hb : b.Of p t result) {decl : MethodDecl}
    (hm : HoldsMethod p t b.method b.cls decl) (names : decl.NamesOk) {clean : Prop}
    (hclean : clean) {env : Env} {opened : List BlockScope}
    (h : Follows b (Held t clean) decl.body b.start env opened) :
    List.Forall₂ (fun spelled written => spelled.Nodup ↔ Apart (· ∈ written))
      ((b.function decl.body).scopeNames b.table) decl.scopes := by
  obtain ⟨houter, hinner⟩ := List.forall_mem_cons.mp names.scopes_nodup
  have happart {written : List String} (hnodup : written.Nodup) :
      (written.map C.ident).Nodup ↔ Apart (· ∈ written) :=
    nodup_map_iff_apart ident_eq_iff hnodup Iff.rfl
  rw [hb.scopeNames_function hm names hclean h]
  refine .cons ?_ ?_
  · -- No other name is spelled like the receiver.
    rw [List.nodup_cons, happart houter, and_iff_right]
    intro hmem
    obtain ⟨x, -, hx⟩ := List.mem_map.mp hmem
    exact ident_ne_receiver x hx
  · rw [List.forall₂_map_left_iff, List.forall₂_map_right_iff]
    exact List.forall₂_same.mpr fun block hblock =>
      happart (hinner _ (List.mem_map_of_mem hblock))

end Body

/-! ## Programs -/

/-- **When the names of a scope differ in C.** In an accepted program, the
members of a struct have different names exactly if its parents are told apart,
its fields are told apart, and no field has the name of a part; the names of a
scope of a function, exactly if the names of the scope of the method are told
apart. All of them differ where no name ends in `_` or `_part`. -/
theorem scope_names_distinct_iff {p : Program} (ok : ∃ out, compile p = .ok out) :
    let u := (Compilation.run {} p).resolved.table
    (∀ c < u.classes.length,
      let name := (u.classAt c).name
      (∀ m ∈ C.structMembers u c, C.DeclaresName (m.text u) (m.name u))
        ∧ ((C.memberNames u c).Nodup ↔
          C.Apart (p.Parent name) ∧ C.Apart (p.HasField · name)
            ∧ ∀ a, p.Parent name a → ¬ p.HasField (C.partName a) name)
        ∧ ((∀ x, p.Parent name x ∨ p.HasField x name → ¬ C.Suffixed x) →
          (C.memberNames u c).Nodup))
      ∧ ∀ m decl, (m, decl) ∈ C.heldMethods u p →
        let f := Body.function ⟨u, m⟩ decl.body
        f.steps u = C.definitionSteps u m decl.body
          ∧ List.Forall₂ (fun spelled written => spelled.Nodup ↔ C.Apart (· ∈ written))
            (f.scopeNames u) decl.scopes
          ∧ ((∀ written ∈ decl.scopes, ∀ x ∈ written, ¬ C.Suffixed x) →
            ∀ spelled ∈ f.scopeNames u, spelled.Nodup) := by
  obtain ⟨clean, settled, -⟩ := settled_of_issues ((exists_ok_iff {} p).mp ok)
  have hu := resolve_declared (collect p).table
  intro u
  refine ⟨fun c hc => ?_, fun m decl held => ?_⟩
  · intro name
    have hname : name = ((collect p).table.classAt c).name := classAt_name_of_declared hu c
    have hiff := settled.represents.memberNames_nodup_iff
      ((collect p).table.resolve_length ▸ hc) settled.ancestry
    rw [← hname] at hiff
    refine ⟨fun m _ => m.text_declares u, hiff, fun plain => hiff.mpr ⟨?_, ?_, ?_⟩⟩
    · exact C.apart_of_not_suffixed fun x hx => plain x (Or.inl hx)
    · exact C.apart_of_not_suffixed fun x hx => plain x (Or.inr hx)
    · exact fun a _ hfield => plain _ (Or.inr hfield) ⟨C.ident a, Or.inr rfl⟩
  · intro f
    obtain ⟨r, hr, hheld⟩ := List.mem_map.mp (heldMethods_registered p hu ▸ held :)
    obtain ⟨rfl, rfl⟩ := Prod.mk.inj hheld
    obtain ⟨τ, hb, -, hm⟩ := registered_body clean settled hr
    obtain ⟨env, hfollows⟩ := follows_registered hr hu
    obtain ⟨d, hd, hmember⟩ := hm.declared
    have names : r.decl.NamesOk :=
      ((collect_issues_eq_nil_iff p).mp clean).methods d (List.mem_of_getElem? hd) _ hmember
    have hiff := hb.scopeNames_nodup_iff hm names clean hfollows
    exact ⟨hb.steps_function hm clean hfollows, hiff, C.scopes_nodup_of_not_suffixed hiff⟩

/-- A method with a parameter, a local beside it, and two locals in a block that
are spelled alike. -/
def redeclaringMethod : MethodDecl where
  name := ⟨"f", {}⟩
  params :=
    [⟨⟨"self", {}⟩, none, {}⟩, ⟨⟨"if", {}⟩, some ⟨"int", {}⟩, {}⟩,
      ⟨⟨"x", {}⟩, some ⟨"int", {}⟩, {}⟩]
  returnType := none
  body :=
    [.declare ⟨"int", {}⟩ [⟨⟨"if_", {}⟩, none, {}⟩] {},
      .loop (.name ⟨"x", {}⟩)
        [.declare ⟨"int", {}⟩ [⟨⟨"do", {}⟩, none, {}⟩, ⟨⟨"do_", {}⟩, none, {}⟩] {}] {} {}]
  bodySpan := {}
  span := {}

/-- A program with this method in a class whose struct has each of its names
twice. -/
def redeclaring : Program where
  classes :=
    [⟨⟨"for", {}⟩, [], [], {}⟩, ⟨⟨"for_", {}⟩, [], [], {}⟩, ⟨⟨"A", {}⟩, [], [], {}⟩,
      ⟨⟨"B", {}⟩, [⟨"for", {}⟩, ⟨"for_", {}⟩, ⟨"A", {}⟩],
        [.field ⟨⟨"int", {}⟩, [⟨"int", {}⟩, ⟨"int_", {}⟩, ⟨"A_part", {}⟩], {}⟩,
          .method redeclaringMethod], {}⟩]
  span := {}

theorem redeclaring_scopes :
    let u := (Compilation.run {} redeclaring).resolved.table
    (∃ out, compile redeclaring = .ok out) ∧ 3 < u.classes.length
      ∧ (0, redeclaringMethod) ∈ C.heldMethods u redeclaring
      ∧ ((C.memberNames u 3).Nodup ↔
        C.Apart (redeclaring.Parent (u.classAt 3).name)
          ∧ C.Apart (redeclaring.HasField · (u.classAt 3).name)
          ∧ ∀ a, redeclaring.Parent (u.classAt 3).name a →
            ¬ redeclaring.HasField (C.partName a) (u.classAt 3).name)
      ∧ List.Forall₂ (fun spelled written => spelled.Nodup ↔ C.Apart (· ∈ written))
        ((Body.function ⟨u, 0⟩ redeclaringMethod.body).scopeNames u) redeclaringMethod.scopes := by
  intro u
  have ok : ∃ out, compile redeclaring = .ok out :=
    (exists_ok_iff {} redeclaring).mpr (by decide +kernel)
  have hc : 3 < u.classes.length := by decide +kernel
  have held : (0, redeclaringMethod) ∈ C.heldMethods u redeclaring :=
    List.mem_of_getElem? (i := 0) (by with_unfolding_all rfl)
  have hall := scope_names_distinct_iff ok
  exact ⟨ok, hc, held, (hall.1 3 hc).2.1, (hall.2 0 redeclaringMethod held).2.1⟩

/-- **Names are declared twice in accepted programs**: here a struct has two
members `for__part`, two members `int_` and two members `A_part`, a function has
a parameter and a local `if_`, and a block in it has two locals `do_`. -/
theorem redeclaring_redeclares :
    let u := (Compilation.run {} redeclaring).resolved.table
    let members := C.memberNames u 3
    let scopes := (Body.function ⟨u, 0⟩ redeclaringMethod.body).scopeNames u
    (∃ out, compile redeclaring = .ok out)
      ∧ (0, redeclaringMethod) ∈ C.heldMethods u redeclaring
      ∧ members = ["for__part", "for__part", "A_part", "int_", "int_", "A_part"]
      ∧ scopes = [["self", "if_", "x", "if_"], ["do_", "do_"]]
      ∧ ¬ members.Nodup ∧ ∀ spelled ∈ scopes, ¬ spelled.Nodup := by
  intro u members scopes
  have hmembers : members = ["for__part", "for__part", "A_part", "int_", "int_", "A_part"] := by
    decide +kernel
  have hscopes : scopes = [["self", "if_", "x", "if_"], ["do_", "do_"]] := by decide +kernel
  refine ⟨(exists_ok_iff {} redeclaring).mpr (by decide +kernel),
    List.mem_of_getElem? (i := 0) (by with_unfolding_all rfl), hmembers, hscopes, ?_, ?_⟩
  · rw [hmembers]
    decide
  · rw [hscopes]
    decide

end Heritage
