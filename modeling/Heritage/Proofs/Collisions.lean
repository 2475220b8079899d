import Heritage.Proofs.Acceptance
import Heritage.Proofs.Parts
import Heritage.Proofs.Scoping

/-!
# Names of the file that meet

Outside its functions a C file declares a type for each class and a function for
each method, and C keeps both in one space of names. The function for a method is
named after its class and itself, with an underscore between them. That would
tell the methods of a program apart if its names had no underscores; but they
may, and a reserved word even gets one. This module says which classes and
methods of a program meet under one name, and that none do if no class has an
underscore in its name.
-/

namespace Heritage

open SymbolTable

namespace C

/-! ## Words that are joined by an underscore -/

/-- If one word starts with another, its joint is that of the other or stands behind it. -/
theorem joined_of_append {a b m n : String} {xs : List Char} (hb : b.toList = a.toList ++ xs)
    (hm : '_' :: m.toList = xs ++ '_' :: n.toList) :
    a = b ∧ m = n ∨ ∃ x, b = a ++ "_" ++ x ∧ m = x ++ "_" ++ n := by
  cases xs with
  | nil =>
    refine Or.inl ⟨String.toList_inj.mp ?_, String.toList_inj.mp ?_⟩
    · simpa using hb.symm
    · simpa using hm
  | cons c xs =>
    obtain ⟨rfl, hm⟩ := List.cons.inj hm
    refine Or.inr ⟨String.ofList xs, String.toList_inj.mp ?_, String.toList_inj.mp ?_⟩
    · simpa using hb
    · simpa using hm

/-- **Joined words are equal** if they are joined at one place, or if one of them has a second
joint where the other has its first. -/
theorem joined_eq_iff {a b m n : String} :
    a ++ "_" ++ m = b ++ "_" ++ n
      ↔ a = b ∧ m = n
        ∨ (∃ x, b = a ++ "_" ++ x ∧ m = x ++ "_" ++ n)
        ∨ ∃ x, a = b ++ "_" ++ x ∧ n = x ++ "_" ++ m := by
  constructor
  · intro h
    have hchars : a.toList ++ '_' :: m.toList = b.toList ++ '_' :: n.toList := by
      simpa using congrArg String.toList h
    obtain ⟨xs, hb, hm⟩ | ⟨xs, ha, hn⟩ := List.append_eq_append_iff.mp hchars
    · exact (joined_of_append hb hm).imp_right Or.inl
    · exact (joined_of_append ha hn).imp (And.imp Eq.symm Eq.symm) Or.inr
  · rintro (⟨rfl, rfl⟩ | ⟨x, rfl, rfl⟩ | ⟨x, rfl, rfl⟩)
    · rfl
    · simp only [String.append_assoc]
    · simp only [String.append_assoc]

/-- The spelling of a word is not reserved. -/
theorem not_reserved_ident (name : String) : ¬ Reserved (ident name) := by
  show ¬ Reserved (if Reserved name then name ++ "_" else name)
  split
  · rename_i hreserved
    exact not_reserved_underscore hreserved
  · rename_i hreserved
    exact hreserved

/-- **A class goes on into a method of another**: behind the name of `cls` and an
underscore, the name of `other` goes on with a beginning of `method`, and what is
left of `method` is `rest`. -/
def GoesOn (cls method other rest : String) : Prop :=
  ∃ x, ident other = ident cls ++ "_" ++ x ∧ method = x ++ "_" ++ rest

/-- **Two methods have one function.** -/
def OneFunction (cls method cls' method' : String) : Prop :=
  Alike cls cls' ∧ method = method'
    ∨ GoesOn cls method cls' method'
    ∨ GoesOn cls' method' cls method

/-- **Methods get the same function exactly if their names differ in no more
than in where the class ends.** -/
theorem functionName_eq_iff {c m d n : String} :
    functionName c m = functionName d n ↔ OneFunction c m d n := by
  unfold functionName OneFunction GoesOn
  rw [joined_eq_iff, ident_eq_iff]

/-- **A class has the name of a function**: it is called like it, or it is a
reserved word that its underscore completes to it. -/
def HasFunctionName (cls owner method : String) : Prop :=
  ¬ Reserved cls ∧ cls = functionName owner method
    ∨ Reserved cls ∧ ∃ x, method = x ++ "_" ∧ cls = functionName owner x

theorem ident_eq_functionName_iff {e c m : String} :
    ident e = functionName c m ↔ HasFunctionName e c m := by
  show (if Reserved e then e ++ "_" else e) = functionName c m ↔ _
  unfold HasFunctionName
  by_cases he : Reserved e
  · rw [if_pos he]
    have hjoined : e ++ "_" = functionName c m ↔ e ++ "_" ++ "" = ident c ++ "_" ++ m := by
      rw [String.append_empty]
      rfl
    rw [hjoined, joined_eq_iff]
    -- The underscore of the reserved word is a joint with nothing behind it.
    constructor
    · rintro (⟨hident, -⟩ | ⟨x, -, hempty⟩ | ⟨x, hname, hm⟩)
      · exact absurd (hident ▸ he) (not_reserved_ident c)
      · exact absurd (congrArg String.toList hempty) (by simp)
      · exact Or.inr ⟨he, x, by rw [hm, String.append_empty], hname⟩
    · rintro (⟨hne, -⟩ | ⟨-, x, hm, hname⟩)
      · exact absurd he hne
      · exact Or.inr (Or.inr ⟨x, hname, by rw [hm, String.append_empty]⟩)
  · rw [if_neg he]
    constructor
    · exact fun h => Or.inl ⟨he, h⟩
    · rintro (⟨-, h⟩ | ⟨hreserved, -⟩)
      · exact h
      · exact absurd hreserved he

/-! ## Names without underscores -/

/-- A name without underscores. -/
def Plain (name : String) : Prop :=
  '_' ∉ name.toList

theorem not_plain_joined (a b : String) : ¬ Plain (a ++ "_" ++ b) := by
  unfold Plain
  simp

/-- **The name of a plain class does not go on behind that of another class.**
The only underscore it can have is that of a reserved word, and what stands before
that is no name in C. -/
theorem ident_ne_joined {c d x : String} (hc : Plain c) : ident c ≠ ident d ++ "_" ++ x := by
  intro h
  obtain ⟨-, hname⟩ | ⟨-, y, -, hname⟩ := ident_eq_functionName_iff.mp h
  · exact not_plain_joined _ _ (hname ▸ hc)
  · exact not_plain_joined _ _ (hname ▸ hc)

theorem Alike.eq_of_plain {c d : String} (h : Alike c d) (hc : Plain c) (hd : Plain d) : c = d := by
  obtain heq | ⟨-, rfl⟩ | ⟨-, rfl⟩ := h
  · exact heq
  · exact absurd (String.append_empty ▸ hd) (not_plain_joined c "")
  · exact absurd (String.append_empty ▸ hc) (not_plain_joined d "")

theorem OneFunction.eq_of_plain {c m d n : String} (h : OneFunction c m d n) (hc : Plain c)
    (hd : Plain d) : c = d ∧ m = n := by
  obtain ⟨halike, hname⟩ | ⟨x, hident, -⟩ | ⟨x, hident, -⟩ := h
  · exact ⟨halike.eq_of_plain hc hd, hname⟩
  · exact absurd hident (ident_ne_joined hd)
  · exact absurd hident (ident_ne_joined hc)

/-! ## The names of a file -/

/-- The types that a file declares, one for each class. -/
def typeNames (t : SymbolTable) : List String :=
  t.classNames.map ident

/-- The functions that a file declares, one for each method. -/
def functionNames (t : SymbolTable) : List String :=
  t.methodsByName.map fun m => functionName m.1 m.2

/-- **The names of a file**: each of its forward declarations has the name of a
type, and each of its prototypes that of a function. -/
structure File.Declares (f : File) (types functions : List String) : Prop where
  types : f.typedefs
    = types.map fun name => { depth := 0, text := "typedef struct " ++ name ++ " " ++ name ++ ";" }
  functions : List.Forall₂ (fun name line => ∃ type params,
    line = { depth := 0, text := declaration type (name ++ "(" ++ params ++ ")") ++ ";" })
    functions f.prototypes

section Names

variable {p : Program} {u : SymbolTable} (hu : u.declared = (collect p).table.declared)
include hu

theorem File.declares_names : (File.ofTable u p).Declares (typeNames u) (functionNames u) where
  types := by
    unfold typeNames classNames
    rw [List.map_map, List.map_map]
    exact linesOf_map_line
      (fun c : ClassSymbol => "typedef struct " ++ ident c.name ++ " " ++ ident c.name ++ ";") _
  functions := by
    rw [(File.madeOf_parts p hu).prototypes]
    unfold functionNames Parts.ofTable
    rw [← functions_names hu]
    unfold Parts.ofTable
    rw [List.map_map, List.map_map, List.map_map, List.forall₂_map_left_iff,
      List.forall₂_map_right_iff]
    exact List.forall₂_same.mpr fun m _ => ⟨_, _, rfl⟩

variable (clean : (collect p).issues = [])
include clean

/-- **Two types meet exactly if two classes are spelled alike.** -/
theorem typeNames_nodup_iff :
    (typeNames u).Nodup ↔ ∀ c d, p.HasClass c → p.HasClass d → Alike c d → c = d := by
  have hrep := represents_collect clean
  have hnodup : (collect p).table.classNames.Nodup := hrep.formed.class_names
  unfold typeNames
  rw [classNames_of_declared hu, List.nodup_map_iff_inj_on hnodup]
  constructor
  · intro h c d hc hd halike
    exact h c (hrep.mem_classNames_iff.mpr hc) d (hrep.mem_classNames_iff.mpr hd)
      (ident_eq_iff.mpr halike)
  · intro h c hc d hd hident
    exact h c d (hrep.mem_classNames_iff.mp hc) (hrep.mem_classNames_iff.mp hd)
      (ident_eq_iff.mp hident)

/-- **Two functions meet exactly if the names of their methods only differ in
where the class ends.** -/
theorem functionNames_nodup_iff :
    (functionNames u).Nodup ↔ ∀ c m d n, p.HasMethod m c → p.HasMethod n d →
      OneFunction c m d n → c = d ∧ m = n := by
  have hrep := represents_collect clean
  unfold functionNames
  rw [methodsByName_of_declared hu, List.nodup_map_iff_inj_on hrep.formed.methodsByName_nodup]
  constructor
  · intro h c m d n hm hn hone
    exact Prod.mk.inj (h (c, m) (hrep.mem_methodsByName_iff.mpr hm)
      (d, n) (hrep.mem_methodsByName_iff.mpr hn) (functionName_eq_iff.mpr hone))
  · rintro h ⟨c, m⟩ hm ⟨d, n⟩ hn hname
    obtain ⟨hcls, hmethod⟩ := h c m d n (hrep.mem_methodsByName_iff.mp hm)
      (hrep.mem_methodsByName_iff.mp hn) (functionName_eq_iff.mp hname)
    exact Prod.ext hcls hmethod

/-- **A type and a function meet exactly if a class has the name of a function.** -/
theorem disjoint_names_iff :
    (typeNames u).Disjoint (functionNames u)
      ↔ ∀ e c m, p.HasClass e → p.HasMethod m c → ¬ HasFunctionName e c m := by
  have hrep := represents_collect clean
  unfold typeNames functionNames
  rw [classNames_of_declared hu, methodsByName_of_declared hu]
  constructor
  · intro h e c m he hm hname
    have htype := List.mem_map_of_mem (f := ident) (hrep.mem_classNames_iff.mpr he)
    rw [ident_eq_functionName_iff.mpr hname] at htype
    exact h htype (List.mem_map.mpr ⟨(c, m), hrep.mem_methodsByName_iff.mpr hm, rfl⟩)
  · intro h name htype hfunction
    obtain ⟨e, he, rfl⟩ := List.mem_map.mp htype
    obtain ⟨⟨c, m⟩, hm, heq⟩ := List.mem_map.mp hfunction
    exact h e c m (hrep.mem_classNames_iff.mp he) (hrep.mem_methodsByName_iff.mp hm)
      (ident_eq_functionName_iff.mp heq.symm)

/-- **Nothing meets if no class has an underscore in its name.** -/
theorem names_nodup_of_plain (plain : ∀ c, p.HasClass c → Plain c) :
    (typeNames u ++ functionNames u).Nodup := by
  have hcls : ∀ {m c}, p.HasMethod m c → p.HasClass c :=
    fun ⟨_, ⟨d, hd, hname, _⟩, _⟩ => ⟨d, hd, hname⟩
  refine List.Nodup.append ?_ ?_ ?_
  · exact (typeNames_nodup_iff hu clean).mpr fun c d hc hd halike =>
      halike.eq_of_plain (plain c hc) (plain d hd)
  · exact (functionNames_nodup_iff hu clean).mpr fun c m d n hm hn hone =>
      hone.eq_of_plain (plain c (hcls hm)) (plain d (hcls hn))
  · exact (disjoint_names_iff hu clean).mpr fun e c m he hm hname =>
      ident_ne_joined (plain e he) (ident_eq_functionName_iff.mpr hname)

end Names

end C

/-- **Which names of a file meet.** C knows the types and functions of a file by
their names alone. For an accepted program, two types have one name exactly if
two classes are spelled alike; two functions, if the names of two methods only
differ in where the class ends; and a type and a function, if a class is called
like a function. None of this happens where no class has an underscore in its
name. -/
theorem file_names_distinct_iff {p : Program} (ok : ∃ out, compile p = .ok out) :
    let c := Compilation.run {} p
    let types := C.typeNames c.resolved.table
    let functions := C.functionNames c.resolved.table
    c.file.Declares types functions
      ∧ (types.Nodup ↔ ∀ a b, p.HasClass a → p.HasClass b → C.Alike a b → a = b)
      ∧ (functions.Nodup ↔ ∀ a m b n, p.HasMethod m a → p.HasMethod n b →
        C.OneFunction a m b n → a = b ∧ m = n)
      ∧ (types.Disjoint functions ↔ ∀ e a m, p.HasClass e → p.HasMethod m a →
        ¬ C.HasFunctionName e a m)
      ∧ ((∀ a, p.HasClass a → C.Plain a) → (types ++ functions).Nodup) := by
  have hu := resolve_declared (collect p).table
  have clean : (collect p).issues = [] := by
    have hnone := (exists_ok_iff {} p).mp ok
    exact (List.append_eq_nil_iff.mp (List.append_eq_nil_iff.mp hnone).1).1
  exact ⟨C.File.declares_names hu, C.typeNames_nodup_iff hu clean,
    C.functionNames_nodup_iff hu clean, C.disjoint_names_iff hu clean,
    C.names_nodup_of_plain hu clean⟩

/-- A method that takes nothing and does nothing. -/
def idleMethod (name : String) : MethodDecl where
  name := ⟨name, {}⟩
  params := [⟨⟨"self", {}⟩, none, {}⟩]
  returnType := none
  body := []
  bodySpan := {}
  span := {}

/-- A program whose names meet in each of the three ways. -/
def colliding : Program where
  classes :=
    [⟨⟨"A", {}⟩, [], [.method (idleMethod "b"), .method (idleMethod "b_c")], {}⟩,
      ⟨⟨"A_b", {}⟩, [], [.method (idleMethod "c")], {}⟩,
      ⟨⟨"for", {}⟩, [], [], {}⟩, ⟨⟨"for_", {}⟩, [], [], {}⟩]
  span := {}

theorem colliding_names :
    (∃ out, compile colliding = .ok out)
      ∧ ((C.functionNames (Compilation.run {} colliding).resolved.table).Nodup
        ↔ ∀ a m b n, colliding.HasMethod m a → colliding.HasMethod n b →
          C.OneFunction a m b n → a = b ∧ m = n) := by
  have ok : ∃ out, compile colliding = .ok out :=
    (exists_ok_iff {} colliding).mpr (by decide +kernel)
  exact ⟨ok, (file_names_distinct_iff ok).2.2.1⟩

/-- **Names do meet in accepted programs**: here the file declares two types `for_`,
two functions `A_b_c`, and a function with the name of the type `A_b`. -/
theorem colliding_meets :
    let types := C.typeNames (Compilation.run {} colliding).resolved.table
    let functions := C.functionNames (Compilation.run {} colliding).resolved.table
    (∃ out, compile colliding = .ok out)
      ∧ ¬ types.Nodup ∧ ¬ functions.Nodup ∧ ¬ types.Disjoint functions := by
  have htypes : C.typeNames (Compilation.run {} colliding).resolved.table
      = ["A", "A_b", "for_", "for_"] := by decide +kernel
  have hfunctions : C.functionNames (Compilation.run {} colliding).resolved.table
      = ["A_b", "A_b_c", "A_b_c"] := by decide +kernel
  rw [htypes, hfunctions]
  exact ⟨(exists_ok_iff {} colliding).mpr (by decide +kernel), by decide, by decide,
    fun h => h (List.mem_cons_of_mem _ List.mem_cons_self) List.mem_cons_self⟩

end Heritage
