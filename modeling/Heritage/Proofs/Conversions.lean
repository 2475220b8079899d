import Heritage.Proofs.Binding
import Heritage.Proofs.FirstOccurrences
import Heritage.Proofs.Nesting
import Heritage.Proofs.Owners

/-!
# Conversions follow the parts of structs

An object is used as one of an ancestor by the address of a part inside it, and
an inherited field is read through such parts. Both follow the path to the
ancestor, and if there is none they leave the text as it is, which would be a
pointer to a struct of another type. There always is one: whatever a value may
be stored as, whichever class declares the method that is called or the field
that is read, the search for the path arrives, and each step of the path is a
member of the struct that the step before leads to (`C.Leads`). So a text is left
as it is only where the two classes are the same.
-/

namespace Heritage

open SymbolTable

/-! ## Paths -/

namespace C

/-- **Parts that lead from one class to another**: the struct of the first holds the first of
them, the struct of that one holds the next, and so on. -/
inductive Leads (t : SymbolTable) : ClassId → List ClassId → ClassId → Prop where
  | here {c : ClassId} : Leads t c [] c
  | step {c p a : ClassId} {path : List ClassId} (part : StructMember.part p ∈ structMembers t c)
      (rest : Leads t p path a) : Leads t c (p :: path) a

theorem part_mem_structMembers {t : SymbolTable} {c p : ClassId} (h : t.Parent c p) :
    StructMember.part p ∈ structMembers t c := by
  have hmem : StructMember.part p ∈ partsAndFields t c :=
    List.mem_append_left _ (List.mem_map_of_mem h)
  unfold structMembers
  rwa [if_neg]
  rw [List.isEmpty_iff]
  exact List.ne_nil_of_mem hmem

/-- **A pointer can be converted**: the path is found, it leads along parts, and it is empty only
if there is nothing to convert. -/
def Converts (t : SymbolTable) (c a : ClassId) : Prop :=
  ∃ path, t.basePath c a = some path ∧ Leads t c path a ∧ (path = [] ↔ c = a)

/-- The text of a pointer to an object of a class, as one of an ancestor. -/
inductive Converted (t : SymbolTable) (c a : ClassId) (code : String) : String → Prop where
  | same (eq : c = a) : Converted t c a code code
  | part {path : List ClassId} (nonempty : path ≠ []) (leads : Leads t c path a) :
      Converted t c a code ("&" ++ arrowOperand code ++ "->" ++ partChain t path)

/-- The text of a field of the receiver, which a class or one of its ancestors declares. -/
inductive Accessed (t : SymbolTable) (c a : ClassId) (name : String) : String → Prop where
  | own (eq : c = a) : Accessed t c a name (receiver ++ "->" ++ name)
  | inherited {path : List ClassId} (nonempty : path ≠ []) (leads : Leads t c path a) :
      Accessed t c a name (receiver ++ "->" ++ partChain t path ++ "." ++ name)

/-- The text of a call of a method on an object of a class, given the texts of its arguments. The
function is that of the class that declares the method, and the object is passed as one of it.
There is no text if it is not known what the method returns. -/
inductive Called (t : SymbolTable) (c : ClassId) (m : MethodId) (code : String)
    (args : List String) : String → Prop where
  | untyped (eq : (t.methodAt m).returnType = none) : Called t c m code args ""
  | function {object : String} (typed : (t.methodAt m).returnType ≠ none)
      (object_eq : Converted t c (t.methodAt m).owner code object) :
      Called t c m code args
        (functionName (t.classAt (t.methodAt m).owner).name (t.methodAt m).name
          ++ "(" ++ ", ".intercalate (object :: args) ++ ")")

section Texts

variable {t : SymbolTable} {c a : ClassId}

theorem Converts.upcast (h : Converts t c a) (code : String) :
    Converted t c a code (upcast t code c a) := by
  obtain ⟨path, hpath, hleads, hnil⟩ := h
  unfold C.upcast
  rw [hpath]
  cases path with
  | nil => exact .same (hnil.mp rfl)
  | cons p rest => exact .part (List.cons_ne_nil p rest) hleads

theorem Converts.fieldAccess {o : ClassId} {v : VarId} (hv : t.fieldOwner v = some o)
    (h : Converts t c o) :
    Accessed t c o (ident (t.varAt v).name) (fieldAccess t c v) := by
  obtain ⟨path, hpath, hleads, hnil⟩ := h
  have hfound : ((t.fieldOwner v).bind (t.basePath c)).getD [] = path := by
    rw [hv, Option.bind_some, hpath]
    rfl
  unfold C.fieldAccess
  dsimp only
  rw [hfound]
  cases path with
  | nil => exact .own (hnil.mp rfl)
  | cons p rest => exact .inherited (List.cons_ne_nil p rest) hleads

end Texts

end C

/-! ## The search for a path -/

namespace SymbolTable

open C

section Search

variable {t : SymbolTable} {c a : ClassId}

theorem parent_of_parentToward {p : ClassId} (h : t.parentToward c a = some p) : t.Parent c p :=
  List.mem_of_find?_eq_some h

theorem mem_of_parentToward {p : ClassId} (h : t.parentToward c a = some p) :
    a ∈ t.linearization p := by
  unfold parentToward at h
  have hfound := List.find?_some h
  exact List.contains_iff_mem.mp hfound

theorem pathWithin_of_parentToward (h : t.parentToward c a = none) (n : Nat) :
    t.pathWithin a n c = if c = a then some [] else none := by
  cases n with
  | zero => rfl
  | succ n => rw [pathWithin, h]

/-- **A route from a class to an ancestor**: the parents that are passed on the way. -/
inductive Route (t : SymbolTable) : ClassId → List ClassId → ClassId → Prop where
  | here {c : ClassId} : Route t c [] c
  | step {c p a : ClassId} {path : List ClassId} (parent : t.Parent c p) (rest : Route t p path a) :
      Route t c (p :: path) a

/-- The struct of each class on a route holds the next one as a part. -/
theorem Route.leads {path : List ClassId} (h : t.Route c path a) : Leads t c path a := by
  induction h with
  | here => exact .here
  | step parent _ ih => exact .step (part_mem_structMembers parent) ih

/-- What the search finds leads to the ancestor. -/
theorem pathWithin_route {n : Nat} {path : List ClassId} (h : t.pathWithin a n c = some path) :
    t.Route c path a ∧ (path = [] ↔ c = a) := by
  induction n generalizing c path with
  | zero =>
    unfold pathWithin at h
    split at h
    · rename_i heq
      obtain rfl := Option.some.inj h
      exact ⟨heq ▸ .here, iff_of_true rfl heq⟩
    · cases h
  | succ n ih =>
    unfold pathWithin at h
    split at h
    · rename_i heq
      obtain rfl := Option.some.inj h
      exact ⟨heq ▸ .here, iff_of_true rfl heq⟩
    · rename_i hne
      cases hp : t.parentToward c a with
      | none =>
        rw [hp] at h
        cases h
      | some p =>
        rw [hp] at h
        obtain ⟨rest, hrest, rfl⟩ := Option.map_eq_some_iff.mp h
        exact ⟨.step (parent_of_parentToward hp) (ih hrest).1,
          iff_of_false (List.cons_ne_nil p rest) hne⟩

theorem converts_of_basePath {path : List ClassId} (h : t.basePath c a = some path) :
    Converts t c a :=
  ⟨path, h, (pathWithin_route h).1.leads, (pathWithin_route h).2⟩

theorem basePath_self (t : SymbolTable) (c : ClassId) : t.basePath c c = some [] := by
  unfold basePath
  cases t.classes.length with
  | zero => exact if_pos rfl
  | succ n => exact if_pos rfl

theorem converts_self (t : SymbolTable) (c : ClassId) : Converts t c c :=
  converts_of_basePath (t.basePath_self c)

end Search

section Arrives

variable {t : SymbolTable} (h : t.Fresh) {c a : ClassId}
include h

theorem Fresh.resolvedParents_nodup : (t.resolve.table.classAt c).resolvedParents.Nodup := by
  rw [h.resolve_parents, parented_classAt]
  exact nodup_eraseDups _

/-- A linearization lists a class once. -/
theorem Fresh.linearization_nodup (hc : c < t.classes.length)
    (hb : ¬ t.resolve.table.Broken c) : (t.resolve.table.linearization c).Nodup := by
  rw [h.linearization_eq hc hb]
  exact nodup_eraseDups _

theorem Fresh.linearization_subset (hc : c < t.classes.length)
    (hb : ¬ t.resolve.table.Broken c) :
    t.resolve.table.linearization c ⊆ List.range t.classes.length := by
  intro a ha
  rcases (h.mem_linearization hc hb).mp ha with rfl | ha
  · exact List.mem_range.mpr hc
  · exact List.mem_range.mpr (t.resolve_length ▸ h.resolve_inside.ancestor_lt ha)

theorem Fresh.linearization_length_le (hc : c < t.classes.length)
    (hb : ¬ t.resolve.table.Broken c) :
    (t.resolve.table.linearization c).length ≤ t.classes.length := by
  have hle := ((h.linearization_nodup hc hb).subperm (h.linearization_subset hc hb)).length_le
  rwa [List.length_range] at hle

/-- The linearization of a parent is shorter. -/
theorem Fresh.linearization_length_lt {p : ClassId} (hc : c < t.classes.length)
    (hb : ¬ t.resolve.table.Broken c) (hp : t.resolve.table.Parent c p) :
    (t.resolve.table.linearization p).length < (t.resolve.table.linearization c).length := by
  have hplt : p < t.classes.length := t.resolve_length ▸ h.resolve_inside c p hp
  have hpb := h.not_broken_of_parent hb hp
  have hnot : c ∉ t.resolve.table.linearization p := by
    intro hmem
    rcases (h.mem_linearization hplt hpb).mp hmem with rfl | hac
    · exact h.acyclic hb (.single hp)
    · exact h.acyclic hb (.head hp hac)
  have hsub : c :: t.resolve.table.linearization p ⊆ t.resolve.table.linearization c := by
    refine List.cons_subset.mpr ⟨(h.mem_linearization hc hb).mpr (Or.inl rfl), fun a ha => ?_⟩
    refine (h.mem_linearization hc hb).mpr (Or.inr ?_)
    rcases (h.mem_linearization hplt hpb).mp ha with rfl | ha
    · exact .single hp
    · exact .head hp ha
  exact ((List.nodup_cons.mpr ⟨hnot, h.linearization_nodup hplt hpb⟩).subperm hsub).length_le

/-- The search goes on wherever there is an ancestor to find. -/
theorem Fresh.exists_parentToward (hc : c < t.classes.length) (hb : ¬ t.resolve.table.Broken c)
    (ha : a ∈ t.resolve.table.linearization c) (hne : c ≠ a) :
    ∃ p, t.resolve.table.parentToward c a = some p ∧ t.resolve.table.Parent c p
      ∧ a ∈ t.resolve.table.linearization p := by
  have hanc : t.resolve.table.Ancestor c a :=
    ((h.mem_linearization hc hb).mp ha).resolve_left (Ne.symm hne)
  obtain ⟨p, hp, hpa⟩ := Relation.TransGen.head'_iff.mp hanc
  have hplt : p < t.classes.length := t.resolve_length ▸ h.resolve_inside c p hp
  have hmem : a ∈ t.resolve.table.linearization p := by
    refine (h.mem_linearization hplt (h.not_broken_of_parent hb hp)).mpr ?_
    rcases Relation.reflTransGen_iff_eq_or_transGen.mp hpa with heq | hpa
    · exact Or.inl heq
    · exact Or.inr hpa
  cases hfound : t.resolve.table.parentToward c a with
  | none => exact absurd (List.contains_iff_mem.mpr hmem) (List.find?_eq_none.mp hfound p hp)
  | some q =>
    exact ⟨q, rfl, parent_of_parentToward hfound, mem_of_parentToward hfound⟩

/-- **The search arrives**: each step goes to a class with a shorter linearization. -/
theorem Fresh.exists_pathWithin {n : Nat} (hc : c < t.classes.length)
    (hb : ¬ t.resolve.table.Broken c) (ha : a ∈ t.resolve.table.linearization c)
    (hn : (t.resolve.table.linearization c).length ≤ n) :
    ∃ path, t.resolve.table.pathWithin a n c = some path := by
  -- What goes down with each step is the length of the linearization; the number of classes,
  -- with which the search starts, only has to be no less.
  induction n generalizing c with
  | zero => exact absurd (List.length_pos_of_mem ha) (Nat.not_lt.mpr hn)
  | succ n ih =>
    by_cases heq : c = a
    · exact ⟨[], if_pos heq⟩
    · obtain ⟨p, hfound, hp, hmem⟩ := h.exists_parentToward hc hb ha heq
      have hlt := h.linearization_length_lt hc hb hp
      obtain ⟨path, hpath⟩ := ih (t.resolve_length ▸ h.resolve_inside c p hp)
        (h.not_broken_of_parent hb hp) hmem (by omega)
      refine ⟨p :: path, ?_⟩
      unfold pathWithin
      rw [if_neg heq, hfound]
      exact congrArg (Option.map (p :: ·)) hpath

/-- A search that has enough steps finds no more with another one. -/
theorem Fresh.pathWithin_succ {n : Nat} (hc : c < t.classes.length)
    (hb : ¬ t.resolve.table.Broken c) (hn : (t.resolve.table.linearization c).length ≤ n) :
    t.resolve.table.pathWithin a (n + 1) c = t.resolve.table.pathWithin a n c := by
  induction n generalizing c with
  | zero =>
    have hself : c ∈ t.resolve.table.linearization c := (h.mem_linearization hc hb).mpr (Or.inl rfl)
    exact absurd (List.length_pos_of_mem hself) (Nat.not_lt.mpr hn)
  | succ n ih =>
    rw [pathWithin, pathWithin]
    cases hfound : t.resolve.table.parentToward c a with
    | none => rfl
    | some p =>
      have hp := parent_of_parentToward hfound
      have hlt := h.linearization_length_lt hc hb hp
      dsimp only
      rw [ih (t.resolve_length ▸ h.resolve_inside c p hp) (h.not_broken_of_parent hb hp) (by omega)]

/-- A broken class is in no linearization but its own. -/
theorem Fresh.linearization_length_lt_of_broken {p : ClassId} (hc : t.resolve.table.Broken c)
    (hp : p < t.classes.length) (hb : ¬ t.resolve.table.Broken p) :
    (t.resolve.table.linearization p).length < t.classes.length := by
  have hnot : c ∉ t.resolve.table.linearization p := by
    intro hmem
    rcases (h.mem_linearization hp hb).mp hmem with rfl | hpc
    · exact hb hc
    · exact h.not_broken_of_ancestor hb hpc hc
  have hsub : c :: t.resolve.table.linearization p ⊆ List.range t.classes.length := by
    refine List.cons_subset.mpr ⟨List.mem_range.mpr (t.resolve_length ▸ lt_of_broken hc), ?_⟩
    exact h.linearization_subset hp hb
  have hle := ((List.nodup_cons.mpr ⟨hnot, h.linearization_nodup hp hb⟩).subperm hsub).length_le
  rwa [List.length_range] at hle

/-- **The search has enough steps** wherever it starts, in a broken class too: from there it
arrives with the first step, or goes on in classes that are not broken. -/
theorem Fresh.pathWithin_length_succ (c a : ClassId) :
    t.resolve.table.pathWithin a (t.classes.length + 1) c
      = t.resolve.table.pathWithin a t.classes.length c := by
  cases hfound : t.resolve.table.parentToward c a with
  | none => rw [pathWithin_of_parentToward hfound, pathWithin_of_parentToward hfound]
  | some p =>
    have hp := parent_of_parentToward hfound
    have hc : c < t.classes.length := t.resolve_length ▸ lt_of_parent hp
    have hplt : p < t.classes.length := t.resolve_length ▸ h.resolve_inside c p hp
    by_cases hb : t.resolve.table.Broken c
    · obtain ⟨n, hn⟩ := Nat.exists_eq_succ_of_ne_zero (Nat.ne_zero_of_lt hc)
      have hrest : t.resolve.table.pathWithin a (n + 1) p = t.resolve.table.pathWithin a n p := by
        by_cases hpb : t.resolve.table.Broken p
        · have ha := mem_of_parentToward hfound
          rw [h.linearization_of_broken hpb, List.mem_singleton] at ha
          subst ha
          cases n with
          | zero => rw [pathWithin, pathWithin, if_pos rfl, if_pos rfl]
          | succ n => rw [pathWithin, pathWithin, if_pos rfl, if_pos rfl]
        · have hlt := h.linearization_length_lt_of_broken hb hplt hpb
          exact h.pathWithin_succ hplt hpb (Nat.le_of_lt_succ (hn ▸ hlt))
      rw [hn, pathWithin, pathWithin, hfound]
      dsimp only
      rw [hrest]
    · exact h.pathWithin_succ hc hb (h.linearization_length_le hc hb)

theorem Fresh.converts_of_mem_linearization (hc : c < t.classes.length)
    (ha : a ∈ t.resolve.table.linearization c) : Converts t.resolve.table c a := by
  by_cases hb : t.resolve.table.Broken c
  · rw [h.linearization_of_broken hb, List.mem_singleton] at ha
    subst ha
    exact converts_self _ a
  · obtain ⟨path, hpath⟩ := h.exists_pathWithin hc hb ha (h.linearization_length_le hc hb)
    have hbase : t.resolve.table.basePath c a = some path := by
      unfold basePath
      rw [t.resolve_length, hpath]
    exact converts_of_basePath hbase

/-- **A class at or above another is reached from it.** -/
theorem Fresh.converts_of_atOrAbove (hc : c < t.classes.length)
    (ha : t.resolve.table.AtOrAbove c a) : Converts t.resolve.table c a := by
  rcases ha with rfl | ⟨hb, ha⟩
  · exact converts_self _ a
  · exact h.converts_of_mem_linearization hc ((h.mem_linearization hc hb).mpr (Or.inr ha))

theorem Fresh.converts_of_isCompatible
    (hcompat : t.resolve.table.isCompatible (.cls c) (.cls a) = true) :
    Converts t.resolve.table c a := by
  rcases Bool.or_eq_true_iff.mp hcompat with heq | hmem
  · obtain rfl : c = a := Ty.cls.inj (beq_iff_eq.mp heq)
    exact converts_self _ c
  · have hmem : a ∈ t.resolve.table.linearization c := List.contains_iff_mem.mp hmem
    by_cases hc : c < t.classes.length
    · exact h.converts_of_mem_linearization hc hmem
    · rw [linearization, classAt_of_le (t.resolve_length ▸ Nat.le_of_not_lt hc)] at hmem
      exact (List.not_mem_nil hmem).elim

theorem Fresh.converts_of_findMethod {name : String} {m : MethodId}
    (hm : t.resolve.table.findMethod c name = some m) :
    m ∈ t.resolve.table.methodsOf (t.resolve.table.methodAt m).owner
      ∧ Converts t.resolve.table c (t.resolve.table.methodAt m).owner := by
  obtain ⟨o, ho, hdeclared⟩ := h.findMethod_declared hm
  have hmem := mem_methodsOf_of_declaredMethod hdeclared
  rw [(mem_methodsOf.mp hmem).2]
  exact ⟨hmem, h.converts_of_atOrAbove (t.resolve_length ▸ lt_of_findMethod hm) ho⟩

theorem Fresh.converts_of_findField (hf : Formed t) {name : String} {v : VarId}
    (hv : t.resolve.table.findField c name = some v) :
    ∃ o, t.resolve.table.fieldOwner v = some o ∧ Converts t.resolve.table c o := by
  have hc : c < t.classes.length := t.resolve_length ▸ lt_of_findField hv
  obtain ⟨o, ho, hdeclared⟩ := h.findField_declared hf hv
  have holt : o < t.resolve.table.classes.length := t.resolve_length ▸ h.atOrAbove_lt hc ho
  exact ⟨o, (hf.of_declared (resolve_declared t)).fieldOwner_eq holt hdeclared,
    h.converts_of_atOrAbove hc ho⟩

end Arrives

/-- **A table in which whatever is to be converted can be**: values to what they may be stored
as, and objects to the classes that declare their methods and fields. -/
structure Convertible (t : SymbolTable) : Prop where
  /-- Values. -/
  value : ∀ {c a}, t.isCompatible (.cls c) (.cls a) = true → Converts t c a
  /-- The receivers of methods, which belong to the classes that declare them. -/
  method : ∀ {c name m}, t.findMethod c name = some m →
    m ∈ t.methodsOf (t.methodAt m).owner ∧ Converts t c (t.methodAt m).owner
  /-- The objects that have a field. -/
  field : ∀ {c name v}, t.findField c name = some v →
    ∃ o, t.fieldOwner v = some o ∧ Converts t c o

theorem Fresh.convertible {t : SymbolTable} (h : t.Fresh) (hf : Formed t) :
    Convertible t.resolve.table where
  value := h.converts_of_isCompatible
  method := h.converts_of_findMethod
  field := h.converts_of_findField hf

end SymbolTable

/-! ## Points of a body -/

/-- The texts of the arguments of a call, each as a value that is stored where its parameter is. -/
def Site.argTexts (s : Site) (target : Target) (args : List Expr) : List String :=
  args.zipIdx.map fun a => s.checkCode a.1 (s.paramType? target a.2)

/-- **At a point of a body every conversion is one between the classes it is for**: of the
receiver of a call to the class that declares the method, of a value that may be stored where it
stands, and of the receiver to the class that declares a field. So it is with any text that would
be converted, and so with the texts that are written. -/
structure Site.Converting (s : Site) : Prop where
  call : ∀ {callee on m}, s.callTarget callee = .method on m → ∀ code,
    C.Converted s.table on (s.table.methodAt m).owner code
      (C.upcast s.table code on (s.table.methodAt m).owner)
  send : ∀ {type callee on m}, s.sendTarget type callee = .method on m → ∀ code,
    C.Converted s.table on (s.table.methodAt m).owner code
      (C.upcast s.table code on (s.table.methodAt m).owner)
  store : ∀ {e use c a}, s.valueType? e = some (.cls c) →
    s.storeIssues e (some (.cls a)) use = [] → ∀ code,
    C.Converted s.table c a code (C.convert s.table code (some (.cls c)) (.cls a))
  field : ∀ {name v}, s.var name = .ok v → (s.table.varAt v).kind = .field →
    ∃ o, s.table.fieldOwner v = some o
      ∧ C.Accessed s.table s.cls o (C.ident (s.table.varAt v).name) (s.varCode v)
  /-- A call without a receiver is written with that of the body. -/
  called : ∀ {callee on m}, s.callTarget callee = .method on m → ∀ args span,
    C.Called s.table on m C.receiver (s.argTexts (.method on m) args)
      (s.code (.call callee args span))
  /-- A call with a receiver is written with the text of its value. -/
  sent : ∀ {receiver callee on m},
    s.sendTarget (s.valueType? receiver) callee = .method on m → ∀ args span,
    C.Called s.table on m (s.valueCode receiver) (s.argTexts (.method on m) args)
      (s.code (.send receiver callee args span))
  /-- Arguments, initial values and what is assigned are written as values that are stored. -/
  stored : ∀ {e use c a}, s.valueType? e = some (.cls c) →
    s.storeIssues e (some (.cls a)) use = [] →
    C.Converted s.table c a (s.valueCode e) (s.checkCode e (some (.cls a)))

/-- What holds of the points of a body, and of the values that it returns. -/
structure Body.Converting (b : Body) (env : Env) : Prop extends (b.site env).Converting where
  ret : ∀ {span c a}, (b.table.methodAt b.method).returnType = some (.cls a) →
    b.table.returnIssue? b.method (.cls c) span = none → ∀ code,
    C.Converted b.table c a code (C.convert b.table code (some (.cls c)) (.cls a))
  returned : ∀ {e c a}, (b.site env).type? e = some (.cls c) →
    (b.table.methodAt b.method).returnType = some (.cls a) →
    b.table.returnIssue? b.method (.cls c) e.span = none →
    C.Converted b.table c a ((b.site env).code e) (b.returnCode env e)

section Points

variable {t : SymbolTable}

theorem isCompatible_of_storeIssue? {source target : Ty} {use : String} {span : Span}
    (h : t.storeIssue? source target use span = none) : t.isCompatible source target = true := by
  unfold storeIssue? at h
  split at h
  · assumption
  · cases h

theorem findMethod_of_methodTarget {s : Site} {c on : ClassId} {callee : Ident} {m : MethodId}
    (h : s.methodTarget c callee = .method on m) :
    on = c ∧ s.table.findMethod c callee.text = some m := by
  unfold Site.methodTarget methodNamed at h
  cases hm : s.table.findMethod c callee.text with
  | some m' =>
    rw [hm] at h
    obtain ⟨rfl, rfl⟩ := Target.method.inj h
    exact ⟨rfl, rfl⟩
  | none =>
    rw [hm] at h
    dsimp only at h
    split_ifs at h

theorem findMethod_of_callTarget {s : Site} {on : ClassId} {callee : Ident} {m : MethodId}
    (h : s.callTarget callee = .method on m) : s.table.findMethod on callee.text = some m := by
  unfold Site.callTarget at h
  cases hc : s.table.lookupClass callee.text with
  | some c =>
    rw [hc] at h
    cases h
  | none =>
    rw [hc] at h
    obtain ⟨rfl, hm⟩ := findMethod_of_methodTarget h
    exact hm

theorem findMethod_of_sendTarget {s : Site} {type : Option Ty} {on : ClassId} {callee : Ident}
    {m : MethodId} (h : s.sendTarget type callee = .method on m) :
    s.table.findMethod on callee.text = some m := by
  cases type with
  | none => cases h
  | some type =>
    cases type with
    | int => cases h
    | void => cases h
    | cls c =>
      obtain ⟨rfl, hm⟩ := findMethod_of_methodTarget h
      exact hm

/-- A field that a name denotes in a body is one of its class, since no scope around the point
holds fields. -/
theorem findField_of_var {s : Site} (hf : Formed s.table) (henv : s.env.Inside s.table)
    {name : Ident} {v : VarId} (h : s.var name = .ok v) (hkind : (s.table.varAt v).kind = .field) :
    s.table.findField s.cls name.text = some v := by
  unfold Site.var variableNamed at h
  cases hlook : s.env.lookup s.table name.text with
  | some w =>
    rw [hlook] at h
    obtain rfl := Except.ok.inj h
    exact absurd hkind (henv.kind_ne_field hf hlook)
  | none =>
    rw [hlook, Option.none_or] at h
    cases hfield : s.table.findField s.cls name.text with
    | some w =>
      rw [hfield] at h
      exact congrArg some (Except.ok.inj h)
    | none =>
      rw [hfield] at h
      dsimp only at h
      split_ifs at h

/-! ### What is written -/

theorem Site.argsCode_cons (s : Site) (target : Target) (i : Nat) (e : Expr) (rest : List Expr) :
    s.argsCode target i (e :: rest)
      = ", " ++ s.checkCode e (s.paramType? target i) ++ s.argsCode target (i + 1) rest := by
  rw [Site.argsCode]
  rfl

/-- The arguments of a call stand behind the object, each as a value that is stored. -/
theorem Site.append_argsCode (s : Site) (target : Target) (object : String) (i : Nat)
    (args : List Expr) :
    object ++ s.argsCode target i args
      = ", ".intercalate (object :: (args.zipIdx i).map fun a =>
          s.checkCode a.1 (s.paramType? target a.2)) := by
  induction args generalizing object i with
  | nil =>
    unfold Site.argsCode
    rw [String.append_empty]
    exact String.intercalate_singleton.symm
  | cons e rest ih =>
    rw [List.zipIdx_cons, List.map_cons, String.intercalate_cons_cons, ← ih, Site.argsCode_cons]
    simp only [String.append_assoc]

/-- **A call is written with its receiver converted**, if it can be. -/
theorem Site.called_callText (s : Site) {on : ClassId} {m : MethodId}
    (hconverts : C.Converts s.table on (s.table.methodAt m).owner) (receiver : String)
    (args : List Expr) :
    C.Called s.table on m receiver (s.argTexts (.method on m) args)
      (s.callText receiver (s.argsCode (.method on m) 0 args) (.method on m)) := by
  unfold Site.callText
  dsimp only
  split_ifs with hreturn
  · exact .untyped (Option.isNone_iff_eq_none.mp hreturn)
  · have htext : ∀ opened object : String,
        opened ++ object ++ s.argsCode (.method on m) 0 args
          = opened ++ ", ".intercalate (object :: s.argTexts (.method on m) args) := by
      intro opened object
      rw [String.append_assoc, s.append_argsCode]
      rfl
    rw [htext]
    exact .function (mt Option.isNone_iff_eq_none.mpr hreturn) (hconverts.upcast receiver)

theorem Site.type?_of_valueType? {s : Site} {e : Expr} {type : Ty}
    (h : s.valueType? e = some type) : s.type? e = some type :=
  (Option.filter_eq_some_iff.mp h).1

variable (h : Convertible t)
include h

theorem Site.converting (hf : Formed t) {env : Env} (henv : env.Inside t) (c : ClassId) :
    Site.Converting ⟨t, env, c⟩ where
  call htarget := (h.method (findMethod_of_callTarget htarget)).2.upcast
  send htarget := (h.method (findMethod_of_sendTarget htarget)).2.upcast
  store := by
    intro e use c a htype hissues
    unfold Site.storeIssues at hissues
    rw [htype] at hissues
    exact (h.value (isCompatible_of_storeIssue? (Option.toList_eq_nil_iff.mp hissues))).upcast
  field := by
    intro name v hvar hkind
    obtain ⟨o, ho, hconverts⟩ := h.field (findField_of_var hf henv hvar hkind)
    refine ⟨o, ho, ?_⟩
    unfold Site.varCode
    rw [hkind]
    exact hconverts.fieldAccess ho
  called := by
    intro callee on m htarget args span
    unfold Site.code
    rw [htarget]
    exact Site.called_callText _ (h.method (findMethod_of_callTarget htarget)).2 _ args
  sent := by
    intro receiver callee on m htarget args span
    unfold Site.code
    rw [htarget]
    exact Site.called_callText _ (h.method (findMethod_of_sendTarget htarget)).2 _ args
  stored := by
    intro e use c a htype hissues
    unfold Site.storeIssues at hissues
    rw [htype] at hissues
    have hcompat := isCompatible_of_storeIssue? (Option.toList_eq_nil_iff.mp hissues)
    unfold Site.checkCode Site.storeText
    rw [htype]
    dsimp only
    rw [if_pos hcompat, Site.standalone_of_object (Site.type?_of_valueType? htype)]
    exact (h.value hcompat).upcast _

theorem Body.converting (hf : Formed t) {env : Env} (henv : env.Inside t) (m : MethodId) :
    Body.Converting ⟨t, m⟩ env where
  toConverting := Site.converting h hf henv _
  ret := by
    intro span c a hreturn hissue
    unfold returnIssue? at hissue
    rw [hreturn] at hissue
    exact (h.value (isCompatible_of_storeIssue? (Option.or_eq_none_iff.mp hissue).2)).upcast
  returned := by
    intro e c a htype hreturn hissue
    have hcompat : t.isCompatible (.cls c) (.cls a) = true := by
      unfold returnIssue? at hissue
      rw [hreturn] at hissue
      exact isCompatible_of_storeIssue? (Option.or_eq_none_iff.mp hissue).2
    unfold Body.returnCode
    dsimp only
    rw [htype, hreturn]
    dsimp only
    rw [hissue, if_pos Option.isNone_none, Site.standalone_of_object htype]
    exact (h.value hcompat).upcast _

end Points

/-! ## Every point of a body is inside it -/

namespace Body

variable {b : Body}

theorem varPoints_inside (vars : List Declarator) {env : Env} (henv : env.Inside b.table) :
    ∀ pt ∈ b.varPoints vars env, pt.env.Inside b.table := by
  induction vars generalizing env with
  | nil => exact fun pt hpt => (List.not_mem_nil hpt).elim
  | cons v rest ih =>
    intro pt hpt
    unfold varPoints at hpt
    cases hlook : b.table.lookupIn env.scope v.name.text with
    | none =>
      rw [hlook] at hpt
      cases hpt
    | some id =>
      rw [hlook] at hpt
      rcases List.mem_append.mp hpt with hpt | hpt
      · obtain ⟨e, -, rfl⟩ := Option.map_eq_some_iff.mp (Option.mem_toList.mp hpt)
        exact henv
      · exact ih (henv.declare _) pt hpt

/-- The points inside a block, if they are inside where the block starts. -/
theorem blockPoints_inside {body : List Stmt} (hn : Nested b.table)
    (hbody : ∀ {env : Env}, env.Inside b.table →
      ∀ pt ∈ b.pointsAll body env, pt.env.Inside b.table)
    {span : Span} {env : Env} (henv : env.Inside b.table) {pt : Point}
    (hpt : pt ∈ (match env.enter b.table span with
      | .ok inside => b.pointsAll body inside
      | .error _ => [])) : pt.env.Inside b.table := by
  cases henter : env.enter b.table span with
  | error i =>
    rw [henter] at hpt
    cases hpt
  | ok inside =>
    rw [henter] at hpt
    exact hbody (henv.enter hn henter) pt hpt

mutual
theorem points_inside (hn : Nested b.table) : (s : Stmt) → {env : Env} → env.Inside b.table →
    ∀ pt ∈ b.points s env, pt.env.Inside b.table
  | .declare _ vars _, _, henv, pt, hpt => by
    unfold points at hpt
    exact varPoints_inside vars henv pt hpt
  | .ifThen cond body bodySpan span, _, henv, pt, hpt => by
    unfold points at hpt
    rcases List.mem_cons.mp hpt with rfl | hpt
    · exact henv
    · exact blockPoints_inside hn (pointsAll_inside hn body) henv hpt
  | .ifElse cond body bodySpan other otherSpan span, env, henv, pt, hpt => by
    unfold points at hpt
    rcases List.mem_append.mp hpt with hpt | hpt
    · rcases List.mem_cons.mp hpt with rfl | hpt
      · exact henv
      · exact blockPoints_inside hn (pointsAll_inside hn body) henv hpt
    · cases hblock : b.afterBlock body bodySpan env with
      | error i =>
        rw [hblock] at hpt
        cases hpt
      | ok env' =>
        rw [hblock] at hpt
        exact blockPoints_inside hn (pointsAll_inside hn other)
          (afterBlock_inside hn body henv hblock) hpt
  | .loop cond body bodySpan span, _, henv, pt, hpt => by
    unfold points at hpt
    rcases List.mem_cons.mp hpt with rfl | hpt
    · exact henv
    · exact blockPoints_inside hn (pointsAll_inside hn body) henv hpt
  | .ret value _, _, henv, pt, hpt => by
    unfold points at hpt
    obtain ⟨e, -, rfl⟩ := Option.map_eq_some_iff.mp (Option.mem_toList.mp hpt)
    exact henv
  | .assign _ _ _, _, henv, pt, hpt => by
    unfold points at hpt
    rcases List.mem_cons.mp hpt with rfl | hpt
    · exact henv
    · rw [List.mem_singleton.mp hpt]
      exact henv
  | .eval _ _, _, henv, pt, hpt => by
    unfold points at hpt
    rw [List.mem_singleton.mp hpt]
    exact henv
/-- **Every point of a body is inside it.** -/
theorem pointsAll_inside (hn : Nested b.table) : (body : List Stmt) → {env : Env} →
    env.Inside b.table → ∀ pt ∈ b.pointsAll body env, pt.env.Inside b.table
  | [], _, _, pt, hpt => by
    unfold pointsAll at hpt
    cases hpt
  | s :: rest, env, henv, pt, hpt => by
    unfold pointsAll at hpt
    rcases List.mem_append.mp hpt with hpt | hpt
    · exact points_inside hn s henv pt hpt
    · cases hs : b.after s env with
      | error i =>
        rw [hs] at hpt
        cases hpt
      | ok env' =>
        rw [hs] at hpt
        exact pointsAll_inside hn rest (after_inside hn s henv hs) pt hpt
end

end Body

/-! ## Programs -/

/-- **Every conversion follows the parts of structs.** In the resolved table of a program,
whatever is to be converted can be, and every method that a name denotes in a class has a
prototype and a definition. At every point of every body, what passes its check is written
converted between the classes it is for, and its text is left as it is only if they are the
same. -/
theorem conversions_follow_parts (p : Program) :
    let t := (collect p).table.resolve.table
    Convertible t
      ∧ (∀ c name m, t.findMethod c name = some m → ∃ decl, (m, decl) ∈ C.heldMethods t p)
      ∧ ∀ m decl, (m, decl) ∈ C.heldMethods t p →
        ∀ pt ∈ Body.pointsAll ⟨t, m⟩ decl.body (Body.start ⟨t, m⟩),
          Body.Converting ⟨t, m⟩ pt.env := by
  intro t
  have hu : t.declared = (collect p).table.declared := resolve_declared _
  have hf : Formed t := (collect_formed p).of_declared hu
  have hn : Nested t := (collect_nested p).of_scopes (scopes_of_declared hu)
  have hconvertible : Convertible t := (collect_fresh p).convertible (collect_formed p)
  refine ⟨hconvertible, fun c name m hm => ?_, fun m decl hheld pt hpt => ?_⟩
  · exact exists_mem_heldMethods hu ((collect_fresh p).findMethod_lt hm)
  · have hlt : m < t.methods.length := lt_of_mem_heldMethods hu hheld
    have hstart : Env.Inside t (Body.start ⟨t, m⟩) := Env.inside_ofMethod ⟨hf, hlt⟩
    have hinside : pt.env.Inside t :=
      Body.pointsAll_inside (b := ⟨t, m⟩) hn decl.body hstart pt hpt
    exact Body.converting hconvertible hf hinside m

end Heritage
