import Heritage.Proofs.Registered
import Heritage.Proofs.Relocation

/-!
# A program is assembled from its classes

When no two classes of a program share a name, its table is assembled from
tables with one class each, attached one behind the other. Exchanging two of
them is a renaming, and so is every change of the order in which the classes
are written.
-/

namespace Heritage

open SymbolTable

/-! ## The table of one class -/

namespace SymbolTable

/-- **A class collected on its own.** -/
def collectAlone (d : ClassDecl) : Collected :=
  collectMembers 0 d (empty.addClass d.name.text d.parents 0 d.name.span)

theorem hasClass_alone (d : ClassDecl) :
    HasClass (empty.addClass d.name.text d.parents 0 d.name.span) 0 :=
  hasClass_addClass formed_empty d.parents 0 d.name.span rfl

theorem collectAlone_formed (d : ClassDecl) : Formed (collectAlone d).table :=
  (hasClass_alone d).1.grows (collectMembers_grows (hasClass_alone d) d)

theorem collectAlone_closed (d : ClassDecl) : Closed (collectAlone d).table :=
  (closed_empty.grows (addClass_grows (t := empty) d.parents 0 d.name.span rfl)).grows
    (collectMembers_grows (hasClass_alone d) d)

/-- The only class of the table has the name that was declared. -/
theorem collectAlone_name {d : ClassDecl} {k : ClassSymbol}
    (hk : k ∈ (collectAlone d).table.classes) : k.name = d.name.text := by
  rw [show (collectAlone d).table.classes = _ from collectMembers_classes formed_empty 0 rfl] at hk
  rw [List.mem_singleton.mp hk]

variable {t : SymbolTable}

theorem addClass_eq_attach (ht : Closed t) (name : String) (parents : List Ident) (index : Nat)
    (span : Span) :
    t.addClass name parents index span
      = t.attach index (empty.addClass name parents 0 span) := by
  have hscope : t.scopes.length = (Renaming.behind t).scope empty.scopes.length :=
    (Nat.sub_add_cancel ht.scopes_pos).symm
  unfold addClass attach
  rw [SymbolTable.mk.injEq]
  refine ⟨?_, (List.append_nil _).symm, (List.append_nil _).symm, rfl⟩
  rw [hscope]
  rfl

/-- **A class with a new name is collected as if it were alone**, and then
attached. -/
theorem collectClass_eq (ht : Closed t) (d : ClassDecl × Nat)
    (hfree : t.lookupClass d.1.name.text = none) :
    collectClass d t = (collectAlone d.1).behind t d.2 := by
  unfold collectClass declareClass
  rw [hfree]
  show collectMembers ((Renaming.behind t).cls 0) d.1 (t.addClass _ _ _ _) = _
  rw [addClass_eq_attach ht]
  exact collectMembers_behind ht (hasClass_alone d.1) d.1

/-! ## The tables of several classes -/

/-- **Classes attached to a table one behind the other**, of which the first
stands at the given place in the program. -/
def assemble : SymbolTable → Nat → List ClassDecl → SymbolTable
  | t, _, [] => t
  | t, k, d :: ds => assemble (t.attach k (collectAlone d).table) (k + 1) ds

theorem each_collectClass_eq (ds : List ClassDecl) (k : Nat) (hf : Formed t) (ht : Closed t)
    (distinct : (t.classes.map (·.name) ++ ds.map (·.name.text)).Nodup) :
    Collected.each collectClass (ds.zipIdx k) t
      = { table := assemble t k ds, issues := ds.flatMap fun d => (collectAlone d).issues } := by
  induction ds generalizing t k with
  | nil => rfl
  | cons d ds ih =>
    have hfree : t.lookupClass d.name.text = none := by
      rw [lookupClass_eq_none_iff]
      intro hmem
      exact (List.nodup_append.mp distinct).2.2 _ hmem _ List.mem_cons_self rfl
    have hgrows := collectClass_grows hf (d, k)
    have hclasses := collectClass_classes hf (d, k) hfree
    have heq := collectClass_eq ht (d, k) hfree
    rw [heq] at hgrows hclasses
    have hrest := ih (k + 1) (hf.grows hgrows) (ht.grows hgrows) (by
      rw [hclasses, List.map_append, List.append_assoc]
      exact distinct)
    show (collectClass (d, k) t).andThen (Collected.each collectClass (ds.zipIdx (k + 1))) = _
    rw [heq]
    exact congrArg (fun c : Collected => Collected.mk c.table ((collectAlone d).issues ++ c.issues))
      hrest

/-- **The symbols of a program with distinct classes** are those of its classes
alone, and so is what is found wrong. -/
theorem collect_eq (p : Program) (distinct : (p.classes.map (·.name.text)).Nodup) :
    collect p = { table := assemble empty 0 p.classes,
                  issues := p.classes.flatMap fun d => (collectAlone d).issues } :=
  each_collectClass_eq p.classes 0 formed_empty closed_empty distinct

/-! ## Attaching keeps renamed tables renamed -/

theorem Closed.attach {u : SymbolTable} (ht : Closed t) (hu : Closed u) (index : Nat) :
    Closed (t.attach index u) := by
  have hclasses : (t.attach index u).classes.length = t.classes.length + u.classes.length := by
    show (t.classes ++ u.classes.map _).length = _
    rw [List.length_append, List.length_map]
  have hcls : ∀ {c}, c < u.classes.length →
      (Renaming.behind t).cls c < (t.attach index u).classes.length := by
    intro c hc
    rw [hclasses]
    exact Nat.add_lt_add_left hc _
  have hscope : ∀ {s}, s < u.scopes.length →
      (Renaming.behind t).scope s < (t.attach index u).scopes.length := by
    intro s hs
    rw [attach_scopes_length ht hu.scopes_pos]
    exact shiftBehind_lt _ hs
  have hty : ∀ {ty : Option Ty}, (∀ c, ty = some (.cls c) → c < u.classes.length) →
      ∀ c, ty.map (Renaming.behind t).ty = some (.cls c) →
        c < (t.attach index u).classes.length := by
    intro ty h c hc
    obtain ⟨a, ha, hc⟩ := Option.map_eq_some_iff.mp hc
    cases a with
    | int => cases hc
    | void => cases hc
    | cls d => exact Ty.cls.inj hc ▸ hcls (h d ha)
  refine ht.extend _ _ _ _ rfl rfl rfl rfl ?_ ?_ ?_ ?_
  · refine List.forall_mem_map.mpr fun k hk => hscope (hu.cls k hk)
  · refine List.forall_mem_map.mpr fun m hm => ?_
    obtain ⟨howner, hs, htype⟩ := hu.method m hm
    exact ⟨hcls howner, hscope hs, hty htype⟩
  · refine List.forall_mem_map.mpr fun v hv => ?_
    obtain ⟨hs, htype⟩ := hu.var v hv
    exact ⟨hscope hs, hty htype⟩
  · refine List.forall_mem_map.mpr fun k hk => ?_
    obtain ⟨hparent, hc⟩ := hu.scope k (List.mem_of_mem_tail hk)
    refine ⟨fun s hs => ?_, fun c hk => ?_⟩
    · obtain ⟨p, hp, rfl⟩ := Option.map_eq_some_iff.mp hs
      exact hscope (hparent p hp)
    · obtain ⟨d, hd, rfl⟩ := Option.map_eq_some_iff.mp hk
      exact hcls (hc d hd)

end SymbolTable

/-- Renamings that do the same to the positions of a table. -/
structure Renaming.AgreeOn (t : SymbolTable) (σ τ : Renaming) : Prop where
  cls : ∀ c < t.classes.length, σ.cls c = τ.cls c
  scope : ∀ s < t.scopes.length, σ.scope s = τ.scope s

namespace Renaming.AgreeOn

variable {t : SymbolTable} {σ τ : Renaming} (h : AgreeOn t σ τ) (ht : Closed t)
include h ht

omit ht in
theorem ty_map {ty : Option Ty} (hty : ∀ c, ty = some (.cls c) → c < t.classes.length) :
    ty.map σ.ty = ty.map τ.ty := by
  cases ty with
  | none => rfl
  | some ty =>
    cases ty with
    | int => rfl
    | void => rfl
    | cls c => exact congrArg (some <| Ty.cls ·) (h.cls c (hty c rfl))

theorem methodSymbol {m : MethodSymbol} (hm : m ∈ t.methods) :
    σ.methodSymbol m = τ.methodSymbol m := by
  obtain ⟨howner, hscope, htype⟩ := ht.method m hm
  unfold Renaming.methodSymbol
  rw [h.cls _ howner, h.scope _ hscope, h.ty_map htype]

theorem varSymbol {v : VarSymbol} (hv : v ∈ t.vars) : σ.varSymbol v = τ.varSymbol v := by
  obtain ⟨hscope, htype⟩ := ht.var v hv
  unfold Renaming.varSymbol
  rw [h.scope _ hscope, h.ty_map htype]

theorem scopeRecord {k : Scope} (hk : k ∈ t.scopes) : σ.scopeRecord k = τ.scopeRecord k := by
  obtain ⟨hparent, hcls⟩ := ht.scope k hk
  unfold Renaming.scopeRecord
  rw [Option.map_congr fun s hs => h.scope s (hparent s hs),
    Option.map_congr fun c hc => h.cls c (hcls c hc)]

theorem class_scope {k : ClassSymbol} (hk : k ∈ t.classes) : σ.scope k.scope = τ.scope k.scope :=
  h.scope _ (ht.cls k hk)

end Renaming.AgreeOn

namespace SymbolTable

/-- Behind renamed tables the positions are the same. -/
theorem Renamed.behind_agree {σ : Renaming} {t t' : SymbolTable} (h : Renamed σ t t')
    (ht : Closed t) (u : SymbolTable) :
    ((Renaming.behind t).trans σ).AgreeOn u (Renaming.behind t') := by
  refine ⟨fun c _ => ?_, fun s _ => ?_⟩
  · show σ.cls (t.classes.length + c) = t'.classes.length + c
    rw [h.classes.fixed _ (Nat.le_add_right _ _), h.classes.length_eq]
  · show σ.scope (shiftBehind t.scopes.length s) = shiftBehind t'.scopes.length s
    rw [h.scopes.length_eq]
    by_cases hs : s = 0
    · subst hs
      exact σ.scope_root
    · exact h.scopes.fixed _ (le_shiftBehind ht.scopes_pos hs)

theorem forall₂_map {α β γ : Type} {R : β → γ → Prop} {f : α → β} {g : α → γ} {xs : List α}
    (h : ∀ a ∈ xs, R (f a) (g a)) : List.Forall₂ R (xs.map f) (xs.map g) :=
  List.forall₂_map_left_iff.mpr (List.forall₂_map_right_iff.mpr (List.forall₂_same.mpr h))

/-- **Renamed tables to which the same table is attached** are renamed in the
same way. -/
theorem Renamed.attach {σ : Renaming} {t t' u : SymbolTable} (h : Renamed σ t t') (ht : Closed t)
    (hu : Closed u) (i j : Nat) : Renamed σ (t.attach i u) (t'.attach j u) := by
  have agree := h.behind_agree ht u
  refine ⟨h.classes.append (forall₂_map fun k hk => ?_),
    h.methods.append (forall₂_map fun m hm => ?_), h.vars.append (forall₂_map fun v hv => ?_),
    h.scopes.append (forall₂_map fun k hk => ?_)⟩
  · exact ⟨rfl, rfl, rfl, (agree.class_scope hu hk).symm⟩
  · rw [← agree.methodSymbol hu hm, Renaming.trans_methodSymbol]
  · rw [← agree.varSymbol hu hv, Renaming.trans_varSymbol]
  · rw [← agree.scopeRecord hu (List.mem_of_mem_tail hk), Renaming.trans_scopeRecord]

theorem Renamed.assemble {σ : Renaming} {t t' : SymbolTable} (h : Renamed σ t t') (ht : Closed t)
    (ds : List ClassDecl) (k k' : Nat) : Renamed σ (assemble t k ds) (assemble t' k' ds) := by
  induction ds generalizing t t' k k' with
  | nil => exact h
  | cons d ds ih =>
    have hd := collectAlone_closed d
    exact ih (h.attach ht hd k k') (ht.attach hd k) (k + 1) (k' + 1)

/-! ## Exchanging two classes -/

section BlockSwap

variable {n m k i : Nat}

theorem blockSwap_zero (hn : 0 < n) (m k : Nat) : blockSwap n m k 0 = 0 :=
  if_pos hn

theorem blockSwap_first (hi : i < m) : blockSwap n m k (n + i) = n + k + i := by
  unfold blockSwap
  rw [if_neg (by omega), if_pos (by omega)]
  omega

theorem blockSwap_second (hi : i < k) : blockSwap n m k (n + m + i) = n + i := by
  unfold blockSwap
  rw [if_neg (by omega), if_neg (by omega), if_pos (by omega)]
  omega

theorem blockSwap_shiftBehind_first (hn : 0 < n) (hi : i < m + 1) :
    blockSwap n m k (shiftBehind n i) = shiftBehind (n + k) i := by
  unfold blockSwap shiftBehind
  split_ifs <;> omega

theorem blockSwap_shiftBehind_second (hn : 0 < n) (hi : i < k + 1) :
    blockSwap n m k (shiftBehind (n + m) i) = shiftBehind n i := by
  unfold blockSwap shiftBehind
  split_ifs <;> omega

end BlockSwap

theorem Closed.tail_length {t : SymbolTable} (h : Closed t) :
    t.scopes.tail.length + 1 = t.scopes.length := by
  rw [List.length_tail]
  exact Nat.sub_add_cancel h.scopes_pos

end SymbolTable

/-- Exchanging two tables that are attached behind another. -/
def Renaming.exchange (t u w : SymbolTable) (ht : Closed t) : Renaming where
  cls := blockSwap t.classes.length u.classes.length w.classes.length
  method := blockSwap t.methods.length u.methods.length w.methods.length
  var := blockSwap t.vars.length u.vars.length w.vars.length
  scope := blockSwap t.scopes.length u.scopes.tail.length w.scopes.tail.length
  cls_injective := blockSwap_injective _ _ _
  method_injective := blockSwap_injective _ _ _
  var_injective := blockSwap_injective _ _ _
  scope_injective := blockSwap_injective _ _ _
  scope_root := blockSwap_zero ht.scopes_pos _ _

namespace SymbolTable

variable {t u w : SymbolTable} (ht : Closed t)

theorem exchange_agree_front :
    (Renaming.exchange t u w ht).AgreeOn t Renaming.refl :=
  ⟨fun _ hc => if_pos hc, fun _ hs => if_pos hs⟩

theorem exchange_agree_first (hu : Closed u) (i : Nat) :
    ((Renaming.behind t).trans (Renaming.exchange t u w ht)).AgreeOn u
      (Renaming.behind (t.attach i w)) := by
  refine ⟨fun c hc => ?_, fun s hs => ?_⟩
  · refine (blockSwap_first hc).trans ?_
    show _ = (t.classes ++ w.classes.map _).length + c
    rw [List.length_append, List.length_map]
  · refine (blockSwap_shiftBehind_first ht.scopes_pos (hu.tail_length ▸ hs)).trans ?_
    show _ = shiftBehind (t.scopes ++ w.scopes.tail.map _).length s
    rw [List.length_append, List.length_map]

theorem exchange_agree_second (hw : Closed w) (i : Nat) :
    ((Renaming.behind (t.attach i u)).trans (Renaming.exchange t u w ht)).AgreeOn w
      (Renaming.behind t) := by
  refine ⟨fun c hc => ?_, fun s hs => ?_⟩
  · show blockSwap _ _ _ ((t.classes ++ u.classes.map _).length + c) = _
    rw [List.length_append, List.length_map]
    exact blockSwap_second hc
  · show blockSwap _ _ _ (shiftBehind (t.scopes ++ u.scopes.tail.map _).length s) = _
    rw [List.length_append, List.length_map]
    exact blockSwap_shiftBehind_second ht.scopes_pos (hw.tail_length ▸ hs)

omit ht in
/-- Two mapped lists behind another, exchanged. -/
theorem rearranged_exchange {α : Type} {R K : α → α → Prop} {xs us ws : List α}
    {f f' g g' : α → α} (hxs : ∀ x ∈ xs, R x x) (hus : ∀ a ∈ us, R (f a) (f' a))
    (hws : ∀ b ∈ ws, R (g b) (g' b)) (apart : ∀ a ∈ us, ∀ b ∈ ws, ¬ K (f a) (g b)) :
    Rearranged (blockSwap xs.length us.length ws.length) R K (xs ++ us.map f ++ ws.map g)
      (xs ++ ws.map g' ++ us.map f') := by
  have h := rearranged_blockSwap (List.forall₂_same.mpr hxs) (forall₂_map hus) (forall₂_map hws)
    (List.forall_mem_map.mpr fun a ha => List.forall_mem_map.mpr fun b hb => apart a ha b hb)
  rw [List.length_map, List.length_map] at h
  exact h

/-- **Exchanging two tables is a renaming**: nothing in one belongs to a class
or a scope of the other. -/
theorem renamed_exchange (hu : Closed u) (hw : Closed w) (hfw : Formed w) (i j i' j' : Nat) :
    Renamed (Renaming.exchange t u w ht) ((t.attach i u).attach j w)
      ((t.attach i' w).attach j' u) := by
  have front := exchange_agree_front (u := u) (w := w) ht
  have first := exchange_agree_first (w := w) ht hu i'
  have second := exchange_agree_second (u := u) ht hw i
  have htu := ht.attach hu i
  refine ⟨?_, ?_, ?_, ?_⟩
  · refine rearranged_exchange (fun k hk => ?_) (fun k hk => ?_) (fun k hk => ?_)
      fun _ _ _ _ => id
    · exact ⟨rfl, rfl, rfl, (front.class_scope ht hk).symm⟩
    · exact ⟨rfl, rfl, rfl, (first.class_scope hu hk).symm⟩
    · exact ⟨rfl, rfl, rfl, (second.class_scope hw hk).symm⟩
  · refine rearranged_exchange (fun m hm => ?_) (fun m hm => ?_) (fun m hm => ?_)
      fun a ha b hb hab => ?_
    · rw [front.methodSymbol ht hm, Renaming.refl_methodSymbol]
    · rw [← first.methodSymbol hu hm, Renaming.trans_methodSymbol]
    · rw [← second.methodSymbol hw hm, Renaming.trans_methodSymbol]
    · have hlt := (htu.method _ (List.mem_append_right _ (List.mem_map_of_mem ha))).1
      rw [hab] at hlt
      exact Nat.not_lt.mpr (Nat.le_add_right _ _) hlt
  · refine rearranged_exchange (fun v hv => ?_) (fun v hv => ?_) (fun v hv => ?_)
      fun a ha b hb hab => ?_
    · rw [front.varSymbol ht hv, Renaming.refl_varSymbol]
    · rw [← first.varSymbol hu hv, Renaming.trans_varSymbol]
    · rw [← second.varSymbol hw hv, Renaming.trans_varSymbol]
    · have hlt := (htu.var _ (List.mem_append_right _ (List.mem_map_of_mem ha))).1
      rw [hab] at hlt
      exact Nat.not_lt.mpr (le_shiftBehind htu.scopes_pos (hfw.var_scope_ne hb)) hlt
  · refine rearranged_exchange (fun k hk => ?_) (fun k hk => ?_) (fun k hk => ?_)
      fun a ha b hb => ?_
    · rw [front.scopeRecord ht hk, Renaming.refl_scopeRecord]
    · rw [← first.scopeRecord hu (List.mem_of_mem_tail hk), Renaming.trans_scopeRecord]
    · rw [← second.scopeRecord hw (List.mem_of_mem_tail hk), Renaming.trans_scopeRecord]
    · rintro ⟨s, hs, hsa, hsb⟩
      have hlt := (htu.scope _ (List.mem_append_right _ (List.mem_map_of_mem ha))).1 s hsa
      obtain ⟨r, -, rfl⟩ := Option.map_eq_some_iff.mp hsb
      have hr : r ≠ rootScope := by
        rintro rfl
        exact hs rfl
      exact Nat.not_lt.mpr (le_shiftBehind htu.scopes_pos hr) hlt

end SymbolTable

/-! ## Any order -/

namespace SymbolTable

/-- **Classes assembled in another order** are renamed. -/
theorem exists_renamed {ds ds' : List ClassDecl} (h : ds.Perm ds') {σ : Renaming}
    {t t' : SymbolTable} (hσ : Renamed σ t t') (ht : Closed t) (ht' : Closed t') (k k' : Nat) :
    ∃ τ, Renamed τ (assemble t k ds) (assemble t' k' ds') := by
  induction h generalizing t t' σ k k' with
  | nil => exact ⟨σ, hσ⟩
  | cons d _ ih =>
    have hd := collectAlone_closed d
    exact ih (hσ.attach ht hd k k') (ht.attach hd k) (ht'.attach hd k') _ _
  | swap d e ds =>
    have hd := collectAlone_closed d
    have he := collectAlone_closed e
    have hboth := (hσ.attach ht he k k').attach (ht.attach he k) hd (k + 1) (k' + 1)
    have hswap := hboth.trans
      (renamed_exchange ht' he hd (collectAlone_formed d) k' (k' + 1) k' (k' + 1))
    exact ⟨_, hswap.assemble ((ht.attach he k).attach hd (k + 1)) ds _ _⟩
  | trans _ _ ih ih' =>
    obtain ⟨τ, hτ⟩ := ih hσ ht ht' k k'
    obtain ⟨τ', hτ'⟩ := ih' (Renamed.refl t') ht' ht' k' k'
    exact ⟨_, hτ.trans hτ'⟩

/-- **The table of a program whose classes are written in another order** is
renamed. -/
theorem collect_renamed {p p' : Program} (distinct : (p.classes.map (·.name.text)).Nodup)
    (h : p.classes.Perm p'.classes) : ∃ σ, Renamed σ (collect p).table (collect p').table := by
  rw [collect_eq p distinct, collect_eq p' ((h.map _).nodup distinct)]
  exact exists_renamed h (Renamed.refl empty) closed_empty closed_empty 0 0

/-- The issues of a program whose classes are written in another order. -/
theorem collect_issues_perm {p p' : Program} (distinct : (p.classes.map (·.name.text)).Nodup)
    (h : p.classes.Perm p'.classes) : (collect p).issues.Perm (collect p').issues := by
  rw [collect_eq p distinct, collect_eq p' ((h.map _).nodup distinct)]
  exact h.flatMap_right _

end SymbolTable

end Heritage
