import Heritage.Symbols.Table
import Mathlib.Data.List.Basic
import Mathlib.Data.List.GetD

/-!
# Changing a list in place

A loop over the positions of a list changes one entry after the other. When it comes to
position `k`, the entries below `k` have been changed and those from `k` on have not
(`mapBelow`); at the end it has changed all of them.
-/

namespace Heritage

variable {α : Type} {f : Nat → α → α} {k : Nat} {xs : List α}

/-- **A list of which the entries below a position have been changed.** -/
def mapBelow (f : Nat → α → α) (k : Nat) (xs : List α) : List α :=
  xs.mapIdx fun i x => if i < k then f i x else x

theorem getElem?_eq_getD {i : Nat} (hi : i < xs.length) (d : α) : xs[i]? = some (xs.getD i d) := by
  rw [List.getD_eq_getElem?_getD, List.getElem?_eq_getElem hi]
  rfl

theorem getD_of_eq_some {i : Nat} {a : α} (h : xs[i]? = some a) (d : α) : xs.getD i d = a := by
  rw [List.getD_eq_getElem?_getD, h]
  rfl

/-- Reading every position of a list gives the list. -/
theorem map_getD_range (xs : List α) (d : α) : (List.range xs.length).map (xs.getD · d) = xs := by
  refine List.ext_getElem (by simp) fun i _ hi => ?_
  rw [List.getElem_map, List.getElem_range]
  exact List.getD_eq_getElem _ _ hi

theorem length_mapBelow : (mapBelow f k xs).length = xs.length :=
  List.length_mapIdx

theorem getElem?_mapBelow (i : Nat) :
    (mapBelow f k xs)[i]? = xs[i]?.map fun x => if i < k then f i x else x :=
  List.getElem?_mapIdx

theorem mapBelow_zero (f : Nat → α → α) (xs : List α) : mapBelow f 0 xs = xs := by
  refine List.ext_getElem? fun i => ?_
  rw [getElem?_mapBelow]
  simp only [Nat.not_lt_zero, if_false, Option.map_id']

theorem mapBelow_all (f : Nat → α → α) (xs : List α) : mapBelow f xs.length xs = xs.mapIdx f :=
  List.mapIdx_eq_mapIdx_iff.mpr fun _ hi => if_pos hi

/-- The next entry is as it was. -/
theorem getD_mapBelow (d : α) : (mapBelow f k xs).getD k d = xs.getD k d := by
  rw [List.getD_eq_getElem?_getD, getElem?_mapBelow, List.getD_eq_getElem?_getD]
  simp only [Nat.lt_irrefl, if_false, Option.map_id']

/-- What the loop does not touch is the same throughout. -/
theorem map_mapBelow {β : Type} {g : α → β} (h : ∀ i x, g (f i x) = g x) :
    (mapBelow f k xs).map g = xs.map g := by
  refine List.ext_getElem? fun i => ?_
  rw [List.getElem?_map, getElem?_mapBelow, List.getElem?_map, Option.map_map]
  refine Option.map_congr fun x _ => ?_
  show g (if i < k then f i x else x) = g x
  rw [apply_ite g, h, ite_self]

/-- Putting an entry back where it was. -/
theorem set_getD (xs : List α) (k : Nat) (d : α) : xs.set k (xs.getD k d) = xs := by
  refine List.ext_getElem? fun i => ?_
  rw [List.getElem?_set]
  split_ifs with hki hk
  · rw [← hki, List.getD_eq_getElem _ _ hk, List.getElem?_eq_getElem hk]
  · rw [← hki, List.getElem?_eq_none (Nat.le_of_not_lt hk)]
  · rfl

/-- **A turn of the loop**: the next entry is changed. -/
theorem set_mapBelow {x : α} (h : xs[k]? = some x) :
    (mapBelow f k xs).set k (f k x) = mapBelow f (k + 1) xs := by
  refine List.ext_getElem? fun i => ?_
  rw [List.getElem?_set, length_mapBelow, getElem?_mapBelow, getElem?_mapBelow]
  by_cases hki : k = i
  · subst hki
    rw [if_pos rfl, if_pos (List.getElem?_eq_some_iff.mp h).1, h, Option.map_some,
      if_pos (Nat.lt_succ_self k)]
  · rw [if_neg hki]
    exact Option.map_congr fun x _ => if_congr (by omega) rfl rfl

namespace SymbolTable

theorem modifyClass_eq_set (t : SymbolTable) (c : ClassId) (f : ClassSymbol → ClassSymbol) :
    t.modifyClass c f = { t with classes := t.classes.set c (f (t.classAt c)) } := by
  unfold modifyClass classAt
  rw [List.modify_eq_set, List.getD_eq_getElem?_getD]

theorem modifyMethod_eq_set (t : SymbolTable) (m : MethodId) (f : MethodSymbol → MethodSymbol) :
    t.modifyMethod m f = { t with methods := t.methods.set m (f (t.methodAt m)) } := by
  unfold modifyMethod methodAt
  rw [List.modify_eq_set, List.getD_eq_getElem?_getD]

theorem modifyVar_eq_set (t : SymbolTable) (v : VarId) (f : VarSymbol → VarSymbol) :
    t.modifyVar v f = { t with vars := t.vars.set v (f (t.varAt v)) } := by
  unfold modifyVar varAt
  rw [List.modify_eq_set, List.getD_eq_getElem?_getD]

theorem set_classAt (t : SymbolTable) (c : ClassId) :
    ({ t with classes := t.classes.set c (t.classAt c) } : SymbolTable) = t :=
  congrArg (fun cs => ({ t with classes := cs } : SymbolTable)) (set_getD _ _ _)

theorem set_methodAt (t : SymbolTable) (m : MethodId) :
    ({ t with methods := t.methods.set m (t.methodAt m) } : SymbolTable) = t :=
  congrArg (fun ms => ({ t with methods := ms } : SymbolTable)) (set_getD _ _ _)

theorem set_varAt (t : SymbolTable) (v : VarId) :
    ({ t with vars := t.vars.set v (t.varAt v) } : SymbolTable) = t :=
  congrArg (fun vs => ({ t with vars := vs } : SymbolTable)) (set_getD _ _ _)

end SymbolTable

end Heritage
