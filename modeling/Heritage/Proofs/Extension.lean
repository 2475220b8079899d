import Heritage.Proofs.Assembly
import Heritage.Proofs.Collisions
import Heritage.Proofs.Conversions
import Heritage.Proofs.RenamedBodies

/-!
# A class added behind a program

The symbols of a class that is written behind a program are attached behind
those of the program. What the program has keeps its position, and nothing that
is attached belongs to a class or a scope of the program.

If the program was accepted, then every word in it was found without the new
class, whose name no class had. So the words are read as before, and resolution
finds for each class of the program what it found without the new one. Only a
call that was no construction before could become one, and only if it has the
name of the new class.
-/

namespace Heritage

open SymbolTable

/-! ## Tables in front of others -/

/-- The positions of a table to which another is attached. -/
def Renaming.before (t u : SymbolTable) (ht : Closed t) : Renaming where
  cls := makeRoom t.classes.length u.classes.length
  method := makeRoom t.methods.length u.methods.length
  var := makeRoom t.vars.length u.vars.length
  scope := makeRoom t.scopes.length u.scopes.tail.length
  cls_injective := makeRoom_injective _ _
  method_injective := makeRoom_injective _ _
  var_injective := makeRoom_injective _ _
  scope_injective := makeRoom_injective _ _
  scope_root := makeRoom_of_lt ht.scopes_pos

namespace SymbolTable

section Before

variable {t u : SymbolTable} (ht : Closed t)

theorem before_agree : (Renaming.before t u ht).AgreeOn t Renaming.refl :=
  ⟨fun _ hc => makeRoom_of_lt hc, fun _ hs => makeRoom_of_lt hs⟩

/-- No class of a table goes where a class is attached. -/
theorem behind_cls_ne_before {c : ClassId} (hc : c < u.classes.length) (a : ClassId) :
    (Renaming.behind t).cls c ≠ (Renaming.before t u ht).cls a :=
  ne_makeRoom (Nat.le_add_right _ _) (Nat.add_lt_add_left hc _) a

/-- No scope of a table goes where a scope is attached. -/
theorem behind_scope_ne_before (hu : Closed u) {s : ScopeId} (hs : s ≠ rootScope)
    (hlt : s < u.scopes.length) (r : ScopeId) :
    (Renaming.behind t).scope s ≠ (Renaming.before t u ht).scope r :=
  ne_makeRoom (le_shiftBehind ht.scopes_pos hs)
    (shiftBehind_lt_add ht.scopes_pos (hu.tail_length ▸ hlt)) r

/-- **The symbols of a table stay in place when another is attached to it**, and what is
attached is apart from them. -/
theorem embedded_attach (hu : Closed u) (hfu : Formed u) (i : Nat) :
    Embedded (Renaming.before t u ht) t (t.attach i u) where
  classes := embeds_makeRoom
    (fun k hk => ⟨rfl, rfl, rfl, ((before_agree ht).class_scope ht hk).symm⟩) fun _ _ => trivial
  methods := by
    refine embeds_makeRoom (fun m hm => ?_) fun m hm => ?_
    · rw [(before_agree ht).methodSymbol ht hm, Renaming.refl_methodSymbol]
    · exact behind_cls_ne_before ht (hu.method m hm).1
  vars := by
    refine embeds_makeRoom (fun v hv => ?_) fun v hv => ?_
    · rw [(before_agree ht).varSymbol ht hv, Renaming.refl_varSymbol]
    · exact behind_scope_ne_before ht hu (hfu.var_scope_ne hv) (hu.var v hv).1
  scopes := by
    refine embeds_makeRoom (fun k hk => ?_) fun k hk s hs heq => ?_
    · rw [(before_agree ht).scopeRecord ht hk, Renaming.refl_scopeRecord]
    · obtain ⟨r, hr, hrs⟩ := Option.map_eq_some_iff.mp heq
      have hlt := (hu.scope k (List.mem_of_mem_tail hk)).1 r hr
      -- A scope may be attached to that of the program, which both tables share.
      by_cases hroot : r = rootScope
      · subst hroot
        exact hs ((Renaming.before t u ht).scope_injective
          (hrs.symm.trans (Renaming.before t u ht).scope_root.symm))
      · exact behind_scope_ne_before ht hu hroot hlt s hrs

end Before

end SymbolTable

/-! ## Programs with a class added -/

/-- The positions of the symbols of a program to which a class is added. -/
def Renaming.added (p : Program) (d : ClassDecl) : Renaming :=
  Renaming.before (collect p).table (collectAlone d).table (collect_closed p)

/-- **A program, and the same with a class added behind it.** Nothing is found in either. -/
structure Extended (p p' : Program) (d : ClassDecl) : Prop where
  /-- The class is the last one. -/
  classes : p'.classes = p.classes ++ [d]
  /-- Nothing is found without it. -/
  accepted : (Compilation.run {} p).issues = []
  /-- Nothing is found with it. -/
  accepted' : (Compilation.run {} p').issues = []

namespace Extended

variable {p p' : Program} {d : ClassDecl} (h : Extended p p' d)
include h

/-- The class is collected last. -/
theorem zipIdx_eq : p'.classes.zipIdx = p.classes.zipIdx ++ [(d, p.classes.length)] := by
  rw [h.classes, List.zipIdx_append, Nat.zero_add]
  rfl

theorem table_collectClass :
    (collect p').table = (collectClass (d, p.classes.length) (collect p).table).table :=
  (each_split h.zipIdx_eq empty).1

theorem clean : (collectClass (d, p.classes.length) (collect p).table).issues = [] :=
  (each_split h.zipIdx_eq empty).2 (settled_of_issues h.accepted').1

/-- Its name is new. -/
theorem free : (collect p).table.lookupClass d.name.text = none := by
  rcases collectClass_cases (d, p.classes.length) (collect p).table with ⟨-, -, hne⟩ | ⟨hfree, -⟩
  · exact absurd h.clean hne
  · exact hfree

/-- **The class is attached behind the program.** -/
theorem table_eq :
    (collect p').table = (collect p).table.attach p.classes.length (collectAlone d).table := by
  rw [h.table_collectClass, collectClass_eq (collect_closed p) (d, p.classes.length) h.free]
  rfl

/-- The methods of the class are registered last. -/
theorem registered_eq :
    registered p'
      = registered p ++ registeredClass (d, p.classes.length) (collect p).table := by
  unfold registered
  rw [h.zipIdx_eq, Collected.trace_append]
  exact congrArg _ (List.append_nil _)

/-! ## Words are read as before -/

/-- A name other than that of the new class. -/
theorem lookupClass {name : String} (hne : name ≠ d.name.text) :
    (collect p').table.lookupClass name
      = ((collect p).table.lookupClass name).map (Renaming.added p d).cls := by
  have hclasses : Embeds (Renaming.added p d).cls (fun k k' => k'.name = k.name)
      (fun _ _ => False) (fun k => k.name = d.name.text) (collect p).table.classes
      ((collect p).table.attach p.classes.length (collectAlone d).table).classes :=
    embeds_makeRoom (fun _ _ => rfl) fun k hk => collectAlone_name (k := k) hk
  rw [h.table_eq]
  exact hclasses.findIdx?_eq (fun hk => by rw [hk])
    (fun k hk => beq_eq_false_iff_ne.mpr (hk ▸ hne.symm)) fun hlt _ _ _ _ => makeRoom_lt hlt

/-- A word that was found to be a type. -/
theorem resolveType {word : String} {τ : Ty}
    (hτ : (collect p).table.resolveType word = some τ) :
    (collect p').table.resolveType word
      = ((collect p).table.resolveType word).map (Renaming.added p d).ty := by
  by_cases hne : word = d.name.text
  · -- The new class may have the name of a type that is no class, and then nothing changes.
    subst hne
    have hkeyword := (Renaming.added p d).ofKeyword?_map d.name.text
    unfold SymbolTable.resolveType at hτ ⊢
    rw [h.free, Option.map_none, Option.or_none] at hτ ⊢
    rw [hkeyword, hτ]
    rfl
  · exact resolveType_map (h.lookupClass hne)

/-- **The words of the program are read as before.** -/
theorem readAlike : ReadAlike (Renaming.added p d) (collect p).table (collect p').table := by
  obtain ⟨-, hsettled, -⟩ := settled_of_issues h.accepted
  have hsound := hsettled.represents.ancestryOk_iff.mp hsettled.ancestry
  obtain ⟨hwords, hreturns⟩ :=
    typeIssues_eq_nil_iff.mp (hsettled.represents.typesOk_iff.mp hsettled.types)
  have hembedded := embedded_attach (collect_closed p) (collectAlone_closed d)
    (collectAlone_formed d) p.classes.length
  rw [← h.table_eq] at hembedded
  refine ⟨hembedded, collect_fresh p, collect_fresh p', fun c q hq => ?_, ?_, ?_⟩
  · refine h.lookupClass fun hname => hsound c (Or.inl ⟨q, hq, ?_⟩)
    rw [hname, h.free]
  · intro v hv htype w hw
    obtain ⟨τ, hτ, -⟩ := hwords w (List.mem_filterMap.mpr ⟨v, hv, by rw [htype, hw]; rfl⟩)
    exact h.resolveType hτ
  · intro m hm w hw
    obtain ⟨τ, hτ⟩ := hreturns m hm w hw
    exact h.resolveType hτ

/-! ## Resolution finds the same -/

theorem length_eq : (collect p).table.classes.length = p.classes.length :=
  collect_classes_length (settled_of_issues h.accepted).1

theorem length_eq' : (collect p').table.classes.length = (collect p).table.classes.length + 1 := by
  rw [collect_classes_length (settled_of_issues h.accepted').1, h.length_eq, h.classes,
    List.length_append]
  rfl

/-- **Resolution finds for the program what it found before.** -/
theorem carried : Carried (Renaming.added p d) (· ≠ d.name.text) (collect p).table.resolve.table
    (collect p').table.resolve.table := by
  refine h.readAlike.carried (collect_formed p) h.lookupClass fun c a => ?_
  -- With one more class a path may have one more step, which no path of the program needs.
  rw [h.length_eq']
  exact (collect_fresh p).pathWithin_length_succ c a

/-- **The struct of the class stands behind the others**, which stand as before. -/
theorem structOrder_eq :
    (collect p').table.resolve.table.structOrder
      = (collect p).table.resolve.table.structOrder ++ [p.classes.length] := by
  obtain ⟨-, hsettled, -⟩ := settled_of_issues h.accepted'
  have hsound := hsettled.represents.ancestryOk_iff.mp hsettled.ancestry
  have hinside := (collect_fresh p).resolve_inside
  unfold structOrder
  rw [resolve_length, resolve_length, h.length_eq', ← h.length_eq]
  refine ParentsFirst.order_succ (fun c hc => ?_) (fun c _ a ha => ?_) fun a ha => ?_
  · have hparents := h.carried.parents c
    rw [show (Renaming.added p d).cls c = c from makeRoom_of_lt hc] at hparents
    rw [hparents]
    refine (List.map_congr_left fun a ha => ?_).trans (List.map_id _)
    exact makeRoom_of_lt (resolve_length _ ▸ hinside c a ha)
  · exact resolve_length (collect p).table ▸ hinside c a ha
  · -- The class is not its own parent, and there is no class behind it.
    have hlt := (collect_fresh p').resolve_inside _ a ha
    rw [resolve_length, h.length_eq'] at hlt
    refine Nat.lt_of_le_of_ne (Nat.lt_succ_iff.mp hlt) fun heq => ?_
    rw [heq] at ha
    exact (collect_fresh p').acyclic ((collect_fresh p').not_broken_of_sound hsound _) (.single ha)

end Extended

end Heritage
