import Mathlib.Data.List.Nodup

/-!
# First occurrences

`List.eraseDups` keeps the first occurrence of each element of a list: the head,
and then those of the tail without the head. That the tail is filtered before it
goes on is what facts about it are proved along (`eraseDups_induction`).

Lists that are merged one behind the other may be freed of repetitions before or
after (`eraseDups_flatMap`).
-/

namespace Heritage

variable {α β : Type} [DecidableEq α]

/-- **Induction along the first occurrences of a list.** -/
theorem eraseDups_induction {P : List α → Prop} (nil : P [])
    (cons : ∀ a rest, P (rest.filter fun b => !b == a) → P (a :: rest)) (l : List α) : P l := by
  induction hn : l.length using Nat.strongRecOn generalizing l with
  | ind n ih =>
    cases l with
    | nil => exact nil
    | cons a rest =>
      have hlen : (rest.filter fun b => !b == a).length < n := by
        rw [← hn]
        exact Nat.lt_succ_of_le (List.length_filter_le _ _)
      exact cons a rest (ih _ hlen _ rfl)

theorem nodup_eraseDups (l : List α) : l.eraseDups.Nodup := by
  induction l using eraseDups_induction with
  | nil => exact List.nodup_nil
  | cons a rest ih =>
    rw [List.eraseDups_cons]
    refine List.nodup_cons.mpr ⟨fun hmem => ?_, ih⟩
    have htest := (List.mem_filter.mp (List.mem_eraseDups.mp hmem)).2
    rw [beq_self_eq_true] at htest
    cases htest

omit [DecidableEq α] in
theorem findSome?_filter_of_none {f : α → Option β} {p : α → Bool} {l : List α}
    (h : ∀ a, p a = false → f a = none) : (l.filter p).findSome? f = l.findSome? f := by
  induction l with
  | nil => rfl
  | cons a rest ih =>
    rw [List.findSome?_cons, List.filter_cons]
    split
    · rw [List.findSome?_cons, ih]
    · rename_i hp
      rw [h a (Bool.eq_false_iff.mpr hp), ih]

/-- **Keeping first occurrences keeps what is found first.** -/
theorem findSome?_eraseDups (f : α → Option β) (l : List α) :
    l.eraseDups.findSome? f = l.findSome? f := by
  induction l using eraseDups_induction with
  | nil => rfl
  | cons a rest ih =>
    rw [List.eraseDups_cons, List.findSome?_cons, List.findSome?_cons]
    cases hf : f a with
    | some b => rfl
    | none =>
      refine ih.trans (findSome?_filter_of_none fun b hb => ?_)
      rw [Bool.not_eq_false', beq_iff_eq] at hb
      rw [hb, hf]

theorem find?_eraseDups (q : α → Bool) (l : List α) : l.eraseDups.find? q = l.find? q := by
  rw [List.find?_eq_findSome?_guard, List.find?_eq_findSome?_guard, findSome?_eraseDups]

/-- First occurrences stay first under an injective map. -/
theorem eraseDups_map [DecidableEq β] {f : α → β} (hf : Function.Injective f) (l : List α) :
    (l.map f).eraseDups = l.eraseDups.map f := by
  induction l using eraseDups_induction with
  | nil => rfl
  | cons a rest ih =>
    have hfilter : (rest.map f).filter (fun b => !b == f a)
        = (rest.filter fun b => !b == a).map f := by
      rw [List.filter_map]
      refine congrArg (List.map f) (List.filter_congr fun b _ => congrArg (!·) ?_)
      exact Bool.eq_iff_iff.mpr (beq_iff_eq.trans (hf.eq_iff.trans beq_iff_eq.symm))
    rw [List.map_cons, List.eraseDups_cons, List.eraseDups_cons, hfilter, ih, List.map_cons]

/-- **Some elements can be left out before or after.** -/
theorem eraseDups_filter (q : α → Bool) (l : List α) :
    (l.filter q).eraseDups = l.eraseDups.filter q := by
  induction l using eraseDups_induction with
  | nil => rfl
  | cons a rest ih =>
    rw [List.eraseDups_cons, List.filter_cons, List.filter_cons, ← ih, List.filter_filter]
    split
    · rw [List.eraseDups_cons, List.filter_filter]
      simp only [Bool.and_comm]
    · rename_i hq
      -- the head does not pass, so what passes is not the head
      refine congrArg List.eraseDups (List.filter_congr fun b _ => ?_)
      by_cases hb : b = a
      · rw [hb, Bool.eq_false_iff.mpr hq, Bool.false_and]
      · rw [beq_eq_false_iff_ne.mpr hb, Bool.not_false, Bool.and_true]

theorem eraseDups_eq_self {l : List α} (h : l.Nodup) : l.eraseDups = l := by
  induction l with
  | nil => rfl
  | cons a rest ih =>
    obtain ⟨hnot, hrest⟩ := List.nodup_cons.mp h
    rw [List.eraseDups_cons, eraseDups_filter, ih hrest]
    refine congrArg (a :: ·) (List.filter_eq_self.mpr fun b hb => ?_)
    rw [Bool.not_eq_true', beq_eq_false_iff_ne]
    exact ne_of_mem_of_not_mem hb hnot

theorem eraseDups_append_eraseDups (xs ys : List α) :
    (xs ++ ys.eraseDups).eraseDups = (xs ++ ys).eraseDups := by
  rw [List.eraseDups_append, List.eraseDups_append]
  refine congrArg (xs.eraseDups ++ ·) ?_
  unfold List.removeAll
  rw [← eraseDups_filter, eraseDups_eq_self (nodup_eraseDups _)]

/-- **Lists that are merged can be freed of repetitions before or after.** -/
theorem eraseDups_flatMap (xs : List α) (f : β → List α) (bs : List β) :
    (xs ++ bs.flatMap fun b => (f b).eraseDups).eraseDups = (xs ++ bs.flatMap f).eraseDups := by
  induction bs generalizing xs with
  | nil => rfl
  | cons b rest ih =>
    have hseen : ∀ ys : List α,
        ys.removeAll (xs ++ (f b).eraseDups) = ys.removeAll (xs ++ f b) := by
      intro ys
      refine List.filter_congr fun y _ => congrArg (!·) ?_
      rw [Bool.eq_iff_iff, List.elem_iff, List.elem_iff, List.mem_append, List.mem_append,
        List.mem_eraseDups]
    rw [List.flatMap_cons, List.flatMap_cons, ← List.append_assoc, ih, ← List.append_assoc,
      List.eraseDups_append, hseen, eraseDups_append_eraseDups, ← List.eraseDups_append]

end Heritage
