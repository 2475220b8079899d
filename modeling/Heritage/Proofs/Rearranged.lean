import Heritage.Proofs.Positions
import Mathlib.Data.List.Perm.Subperm
import Mathlib.Data.List.Sort
import Mathlib.Logic.Function.Basic

/-!
# Rearranged lists

A list is rearranged into another by saying where each position goes. What is
read off a list through the positions of what passes a test goes along, in
order, if no two positions that pass change their order.

Everything behind the list stays where it is. So a list and the one it is
rearranged into can grow at their ends together, and the same map of positions
goes on serving.

A list may also go into a larger one. What is read off goes along as before if
nothing else in the larger list passes the test.
-/

namespace Heritage

variable {α β γ : Type}

theorem map_getElem?_range (p : α → γ) (xs : List α) :
    (List.range xs.length).map (fun i => xs[i]?.map p) = (xs.map p).map some := by
  refine List.ext_getElem? fun i => ?_
  rw [List.getElem?_map, List.getElem?_map, List.getElem?_map]
  by_cases hi : i < xs.length
  · rw [List.getElem?_range hi, Option.map_some, List.getElem?_eq_getElem hi]
    rfl
  · have hle := Nat.le_of_not_lt hi
    rw [List.getElem?_eq_none hle, List.getElem?_eq_none (List.length_range ▸ hle)]
    rfl

theorem getElem?_of_forall₂ {R : α → β → Prop} {xs : List α} {ys : List β}
    (h : List.Forall₂ R xs ys) {i : Nat} {a : α} (ha : xs[i]? = some a) :
    ∃ b, ys[i]? = some b ∧ R a b := by
  obtain ⟨hi, rfl⟩ := List.getElem?_eq_some_iff.mp ha
  have hi' : i < ys.length := h.length_eq ▸ hi
  exact ⟨ys[i], List.getElem?_eq_getElem hi', h.get hi hi'⟩

/-- **A list rearranged into another**: position `i` goes to `f i`, where what
stands there is related by `R`. Elements that are kin by `K` keep their order. -/
structure Rearranged (f : Nat → Nat) (R : α → β → Prop) (K : α → α → Prop) (xs : List α)
    (ys : List β) : Prop where
  /-- Nothing is lost or added. -/
  length_eq : ys.length = xs.length
  /-- Behind the list nothing moves. -/
  fixed : ∀ i, xs.length ≤ i → f i = i
  /-- What goes to a position is related to what stands there. -/
  related : ∀ {i a}, xs[i]? = some a → ∃ b, ys[f i]? = some b ∧ R a b
  /-- Kin keep their order. -/
  mono : ∀ {i j a b}, i < j → xs[i]? = some a → xs[j]? = some b → K a b → f i < f j

namespace Rearranged

variable {f : Nat → Nat} {R : α → β → Prop} {K : α → α → Prop} {xs : List α} {ys : List β}

theorem lt_iff (h : Rearranged f R K xs ys) {i : Nat} : f i < ys.length ↔ i < xs.length := by
  constructor
  · intro hlt
    by_contra hle
    rw [h.fixed i (Nat.le_of_not_lt hle), h.length_eq] at hlt
    exact hle hlt
  · intro hlt
    obtain ⟨b, hb, -⟩ := h.related (List.getElem?_eq_getElem hlt)
    exact (List.getElem?_eq_some_iff.mp hb).1

/-- **The positions are permuted.** -/
theorem range_perm (h : Rearranged f R K xs ys) (hf : Function.Injective f) :
    ((List.range xs.length).map f).Perm (List.range ys.length) := by
  refine List.Subperm.perm_of_length_le (List.subperm_of_subset ?_ ?_) ?_
  · exact List.nodup_range.map hf
  · intro k hk
    obtain ⟨i, hi, rfl⟩ := List.mem_map.mp hk
    exact List.mem_range.mpr (h.lt_iff.mpr (List.mem_range.mp hi))
  · rw [List.length_map, List.length_range, List.length_range, h.length_eq]

/-- Every position is gone to. -/
theorem exists_of_lt (h : Rearranged f R K xs ys) (hf : Function.Injective f) {j : Nat}
    (hj : j < ys.length) : ∃ i < xs.length, f i = j := by
  obtain ⟨i, hi, heq⟩ := List.mem_map.mp ((h.range_perm hf).mem_iff.mpr (List.mem_range.mpr hj))
  exact ⟨i, List.mem_range.mp hi, heq⟩

/-- **What is read off the elements is permuted.** -/
theorem map_perm (h : Rearranged f R K xs ys) (hf : Function.Injective f) {p : α → γ} {q : β → γ}
    (hR : ∀ {a b}, R a b → q b = p a) : (xs.map p).Perm (ys.map q) := by
  have hread : (List.range xs.length).map (fun i => ys[f i]?.map q)
      = (List.range xs.length).map fun i => xs[i]?.map p := by
    refine List.map_congr_left fun i hi => ?_
    have ha := List.getElem?_eq_getElem (List.mem_range.mp hi)
    obtain ⟨b, hb, hab⟩ := h.related ha
    rw [hb, ha, Option.map_some, Option.map_some, hR hab]
  have hperm := (h.range_perm hf).map fun j => ys[j]?.map q
  rw [List.map_map] at hperm
  have hsome : ((xs.map p).map some).Perm ((ys.map q).map some) := by
    rw [← map_getElem?_range, ← map_getElem?_range]
    exact hread ▸ hperm
  simpa using hsome.filterMap id

theorem filterMap_perm (h : Rearranged f R K xs ys) (hf : Function.Injective f)
    {p : α → Option γ} {q : β → Option γ} (hR : ∀ {a b}, R a b → q b = p a) :
    (xs.filterMap p).Perm (ys.filterMap q) := by
  have hperm := (h.map_perm hf hR).filterMap id
  rwa [List.filterMap_map, List.filterMap_map] at hperm

theorem flatMap_perm (h : Rearranged f R K xs ys) (hf : Function.Injective f)
    {p : α → List γ} {q : β → List γ} (hR : ∀ {a b}, R a b → q b = p a) :
    (xs.flatMap p).Perm (ys.flatMap q) := by
  rw [List.flatMap_def, List.flatMap_def]
  exact (h.map_perm hf hR).flatten

/-! ## Making rearrangements -/

theorem refl {R : α → α → Prop} (hR : ∀ a ∈ xs, R a a) : Rearranged id R K xs xs where
  length_eq := rfl
  fixed _ _ := rfl
  related ha := ⟨_, ha, hR _ (List.mem_of_getElem? ha)⟩
  mono hlt _ _ _ := hlt

/-- **One rearrangement after another.** -/
theorem trans {g : Nat → Nat} {S : β → γ → Prop} {T : α → γ → Prop} {L : β → β → Prop}
    {zs : List γ} (h : Rearranged f R K xs ys) (h' : Rearranged g S L ys zs)
    (hRS : ∀ {a b c}, R a b → S b c → T a c)
    (hKL : ∀ {a a' b b'}, R a a' → R b b' → K a b → L a' b') :
    Rearranged (g ∘ f) T K xs zs where
  length_eq := h'.length_eq.trans h.length_eq
  fixed i hi := by
    show g (f i) = i
    rw [h.fixed i hi, h'.fixed i (h.length_eq ▸ hi)]
  related ha := by
    obtain ⟨b, hb, hab⟩ := h.related ha
    obtain ⟨c, hc, hbc⟩ := h'.related hb
    exact ⟨c, hc, hRS hab hbc⟩
  mono hlt ha hb hK := by
    obtain ⟨a', ha', haa⟩ := h.related ha
    obtain ⟨b', hb', hbb⟩ := h.related hb
    exact h'.mono (h.mono hlt ha hb hK) ha' hb' (hKL haa hbb hK)

/-- **Lists that grow at their ends together** stay rearranged as they are. -/
theorem append (h : Rearranged f R K xs ys) {as : List α} {bs : List β}
    (hab : List.Forall₂ R as bs) : Rearranged f R K (xs ++ as) (ys ++ bs) where
  length_eq := by
    rw [List.length_append, List.length_append, h.length_eq, hab.length_eq]
  fixed i hi := by
    rw [List.length_append] at hi
    exact h.fixed i (Nat.le_trans (Nat.le_add_right _ _) hi)
  related {i a} ha := by
    by_cases hi : i < xs.length
    · rw [List.getElem?_append_left hi] at ha
      obtain ⟨b, hb, hR⟩ := h.related ha
      exact ⟨b, (List.getElem?_append_left (h.lt_iff.mpr hi)).trans hb, hR⟩
    · have hle := Nat.le_of_not_lt hi
      rw [List.getElem?_append_right hle] at ha
      obtain ⟨b, hb, hR⟩ := getElem?_of_forall₂ hab ha
      refine ⟨b, ?_, hR⟩
      rw [h.fixed i hle, List.getElem?_append_right (h.length_eq ▸ hle), h.length_eq, hb]
  mono {i j a b} hlt ha hb hK := by
    by_cases hj : j < xs.length
    · rw [List.getElem?_append_left hj] at hb
      rw [List.getElem?_append_left (Nat.lt_trans hlt hj)] at ha
      exact h.mono hlt ha hb hK
    · rw [h.fixed j (Nat.le_of_not_lt hj)]
      by_cases hi : i < xs.length
      · have hfi := h.lt_iff.mpr hi
        rw [h.length_eq] at hfi
        exact Nat.lt_of_lt_of_le hfi (Nat.le_of_not_lt hj)
      · rw [h.fixed i (Nat.le_of_not_lt hi)]
        exact hlt

end Rearranged

/-! ## Lists in larger ones -/

/-- **A list that goes into another**, which may hold more: position `i` goes to `f i`, where
what stands there is related by `R`, and a position behind the list goes behind the other.
Elements that are kin by `K` keep their order, and what nothing goes to is foreign by `A`. -/
structure Embeds (f : Nat → Nat) (R : α → β → Prop) (K : α → α → Prop) (A : β → Prop)
    (xs : List α) (ys : List β) : Prop where
  /-- What is behind stays behind. -/
  behind : ∀ i, xs.length ≤ i → ys.length ≤ f i
  /-- What goes to a position is related to what stands there. -/
  related : ∀ {i a}, xs[i]? = some a → ∃ b, ys[f i]? = some b ∧ R a b
  /-- Kin keep their order. -/
  mono : ∀ {i j a b}, i < j → xs[i]? = some a → xs[j]? = some b → K a b → f i < f j
  /-- What nothing goes to is foreign. -/
  foreign : ∀ {j b}, ys[j]? = some b → (∃ i, f i = j) ∨ A b

/-- A list goes into the one that it is rearranged into, where nothing is foreign. -/
theorem Rearranged.embeds {f : Nat → Nat} {R : α → β → Prop} {K : α → α → Prop} {xs : List α}
    {ys : List β} (h : Rearranged f R K xs ys) (hf : Function.Injective f) (A : β → Prop) :
    Embeds f R K A xs ys where
  behind i hi := by rwa [h.fixed i hi, h.length_eq]
  related := h.related
  mono := h.mono
  foreign hb := by
    obtain ⟨i, -, hi⟩ := h.exists_of_lt hf (List.getElem?_eq_some_iff.mp hb).1
    exact Or.inl ⟨i, hi⟩

namespace Embeds

variable {f : Nat → Nat} {R : α → β → Prop} {K : α → α → Prop} {A : β → Prop} {xs : List α}
  {ys : List β}

theorem lt_iff (h : Embeds f R K A xs ys) {i : Nat} : f i < ys.length ↔ i < xs.length := by
  constructor
  · intro hlt
    by_contra hle
    exact Nat.not_lt.mpr (h.behind i (Nat.le_of_not_lt hle)) hlt
  · intro hlt
    obtain ⟨b, hb, -⟩ := h.related (List.getElem?_eq_getElem hlt)
    exact (List.getElem?_eq_some_iff.mp hb).1

/-- What stands at a position, if something does. -/
theorem getD (h : Embeds f R K A xs ys) {a : α} {b : β} (hab : R a b) (i : Nat) :
    R (xs.getD i a) (ys.getD (f i) b) := by
  rw [List.getD_eq_getElem?_getD, List.getD_eq_getElem?_getD]
  cases hi : xs[i]? with
  | none =>
    rw [List.getElem?_eq_none (h.behind i (List.getElem?_eq_none_iff.mp hi))]
    exact hab
  | some x =>
    obtain ⟨y, hy, hxy⟩ := h.related hi
    rw [hy]
    exact hxy

/-- **The positions of what passes a test** go along in order, if nothing foreign passes. -/
theorem positions_eq (h : Embeds f R K A xs ys) {p : α → Bool} {q : β → Bool}
    (hR : ∀ {a b}, R a b → q b = p a) (hA : ∀ b, A b → q b = false)
    (mono : ∀ {i j a b}, i < j → xs[i]? = some a → xs[j]? = some b → p a = true → p b = true →
      f i < f j) :
    positions q ys = (positions p xs).map f := by
  -- Both lists ascend, so they are equal if they hold the same positions.
  refine List.Pairwise.eq_of_mem_iff (positions_pairwise q ys) ?_ fun k => ?_
  · refine List.pairwise_map.mpr ((positions_pairwise p xs).imp_of_mem fun {i j} hi hj hlt => ?_)
    obtain ⟨a, ha, hpa⟩ := mem_positions.mp hi
    obtain ⟨b, hb, hpb⟩ := mem_positions.mp hj
    exact mono hlt ha hb hpa hpb
  · rw [mem_positions, List.mem_map]
    constructor
    · rintro ⟨b, hb, hq⟩
      rcases h.foreign hb with ⟨i, rfl⟩ | hforeign
      · have hi := h.lt_iff.mp (List.getElem?_eq_some_iff.mp hb).1
        obtain ⟨b', hb', hab⟩ := h.related (List.getElem?_eq_getElem hi)
        obtain rfl := Option.some.inj (hb.symm.trans hb')
        exact ⟨i, mem_positions.mpr ⟨_, List.getElem?_eq_getElem hi, hR hab ▸ hq⟩, rfl⟩
      · rw [hA b hforeign] at hq
        cases hq
    · rintro ⟨i, hi, rfl⟩
      obtain ⟨a, ha, hpa⟩ := mem_positions.mp hi
      obtain ⟨b, hb, hab⟩ := h.related ha
      exact ⟨b, hb, (hR hab).trans hpa⟩

/-- The first position that passes goes along. -/
theorem findIdx?_eq (h : Embeds f R K A xs ys) {p : α → Bool} {q : β → Bool}
    (hR : ∀ {a b}, R a b → q b = p a) (hA : ∀ b, A b → q b = false)
    (mono : ∀ {i j a b}, i < j → xs[i]? = some a → xs[j]? = some b → p a = true → p b = true →
      f i < f j) :
    ys.findIdx? q = (xs.findIdx? p).map f := by
  rw [findIdx?_eq_head?, findIdx?_eq_head?, h.positions_eq hR hA mono, List.head?_map]

/-- Changing the elements of both lists. -/
theorem map {α' β' : Type} {R' : α' → β' → Prop} {K' : α' → α' → Prop} {A' : β' → Prop}
    (h : Embeds f R K A xs ys) {p : α → α'} {q : β → β'}
    (hR : ∀ {a b}, a ∈ xs → R a b → R' (p a) (q b)) (hK : ∀ {a b}, K' (p a) (p b) → K a b)
    (hA : ∀ {b}, A b → A' (q b)) : Embeds f R' K' A' (xs.map p) (ys.map q) where
  behind i hi := by
    rw [List.length_map] at hi ⊢
    exact h.behind i hi
  related {i a} ha := by
    rw [List.getElem?_map] at ha ⊢
    obtain ⟨x, hx, rfl⟩ := Option.map_eq_some_iff.mp ha
    obtain ⟨y, hy, hxy⟩ := h.related hx
    exact ⟨q y, by rw [hy]; rfl, hR (List.mem_of_getElem? hx) hxy⟩
  mono {i j a b} hlt ha hb hK' := by
    rw [List.getElem?_map] at ha hb
    obtain ⟨x, hx, rfl⟩ := Option.map_eq_some_iff.mp ha
    obtain ⟨y, hy, rfl⟩ := Option.map_eq_some_iff.mp hb
    exact h.mono hlt hx hy (hK hK')
  foreign {j b} hb := by
    rw [List.getElem?_map] at hb
    obtain ⟨y, hy, rfl⟩ := Option.map_eq_some_iff.mp hb
    exact (h.foreign hy).imp_right hA

/-- What holds of changed lists, if the change keeps what is compared. -/
theorem of_map {α' β' : Type} {R' : α' → β' → Prop} {K' : α' → α' → Prop} {A' : β' → Prop}
    {p : α → α'} {q : β → β'} (h : Embeds f R' K' A' (xs.map p) (ys.map q))
    (hR : ∀ {a b}, R' (p a) (q b) → R a b) (hK : ∀ {a b}, K a b → K' (p a) (p b))
    (hA : ∀ {b}, A' (q b) → A b) : Embeds f R K A xs ys where
  behind i hi := by
    have hle := h.behind i (by rwa [List.length_map])
    rwa [List.length_map] at hle
  related {i a} ha := by
    obtain ⟨y, hy, hay⟩ := h.related (i := i) (a := p a) (by rw [List.getElem?_map, ha]; rfl)
    rw [List.getElem?_map] at hy
    obtain ⟨b, hb, rfl⟩ := Option.map_eq_some_iff.mp hy
    exact ⟨b, hb, hR hay⟩
  mono {i j a b} hlt ha hb hab := by
    refine h.mono hlt (a := p a) (b := p b) ?_ ?_ (hK hab)
    · rw [List.getElem?_map, ha]
      rfl
    · rw [List.getElem?_map, hb]
      rfl
  foreign {j b} hb := by
    refine (h.foreign (j := j) (b := q b) ?_).imp_right hA
    rw [List.getElem?_map, hb]
    rfl

end Embeds

/-! ## Exchanging two blocks -/

/-- The map of positions that exchanges two blocks, of lengths `m` and `k`,
behind the first `n` positions. -/
def blockSwap (n m k i : Nat) : Nat :=
  if i < n then i else if i < n + m then i + k else if i < n + m + k then i - m else i

theorem blockSwap_injective (n m k : Nat) : Function.Injective (blockSwap n m k) := by
  intro i j h
  unfold blockSwap at h
  split_ifs at h <;> omega

/-- Where an element of three lists in a row stands. -/
theorem getElem?_append_three {as bs cs : List α} {i : Nat} {x : α}
    (h : (as ++ bs ++ cs)[i]? = some x) :
    (i < as.length ∧ as[i]? = some x)
      ∨ (as.length ≤ i ∧ i < as.length + bs.length ∧ bs[i - as.length]? = some x)
      ∨ (as.length + bs.length ≤ i ∧ i < as.length + bs.length + cs.length
        ∧ cs[i - (as.length + bs.length)]? = some x) := by
  have hlt := (List.getElem?_eq_some_iff.mp h).1
  rw [List.length_append, List.length_append] at hlt
  rw [List.append_assoc, List.getElem?_append, List.getElem?_append] at h
  split_ifs at h with has hbs
  · exact Or.inl ⟨has, h⟩
  · exact Or.inr (Or.inl ⟨by omega, by omega, h⟩)
  · rw [Nat.sub_sub] at h
    exact Or.inr (Or.inr ⟨by omega, hlt, h⟩)

/-- **Exchanging two blocks** rearranges a list, if nothing in one is kin to
something in the other. -/
theorem rearranged_blockSwap {R : α → β → Prop} {K : α → α → Prop} {as bs cs : List α}
    {as' bs' cs' : List β} (ha : List.Forall₂ R as as') (hb : List.Forall₂ R bs bs')
    (hc : List.Forall₂ R cs cs') (apart : ∀ b ∈ bs, ∀ c ∈ cs, ¬ K b c) :
    Rearranged (blockSwap as.length bs.length cs.length) R K (as ++ bs ++ cs)
      (as' ++ cs' ++ bs') where
  length_eq := by
    simp only [List.length_append, ha.length_eq, hb.length_eq, hc.length_eq]
    omega
  fixed i hi := by
    rw [List.length_append, List.length_append] at hi
    unfold blockSwap
    rw [if_neg (by omega), if_neg (by omega), if_neg (by omega)]
  related {i x} hx := by
    have hla := ha.length_eq
    have hlb := hb.length_eq
    have hlc := hc.length_eq
    unfold blockSwap
    rw [List.append_assoc]
    rcases getElem?_append_three hx with ⟨hi, hx⟩ | ⟨hle, hi, hx⟩ | ⟨hle, hi, hx⟩
    · obtain ⟨y, hy, hR⟩ := getElem?_of_forall₂ ha hx
      refine ⟨y, ?_, hR⟩
      rw [if_pos hi, List.getElem?_append_left (hla ▸ hi), hy]
    · obtain ⟨y, hy, hR⟩ := getElem?_of_forall₂ hb hx
      refine ⟨y, ?_, hR⟩
      have hsub : i + cs.length - as'.length - cs'.length = i - as.length := by omega
      rw [if_neg (Nat.not_lt.mpr hle), if_pos hi, List.getElem?_append_right (by omega),
        List.getElem?_append_right (by omega), hsub, hy]
    · obtain ⟨y, hy, hR⟩ := getElem?_of_forall₂ hc hx
      refine ⟨y, ?_, hR⟩
      have hsub : i - bs.length - as'.length = i - (as.length + bs.length) := by omega
      rw [if_neg (by omega), if_neg (Nat.not_lt.mpr hle), if_pos hi,
        List.getElem?_append_right (by omega), List.getElem?_append_left (by omega), hsub, hy]
  mono {i j x y} hlt hx hy hK := by
    unfold blockSwap
    rcases getElem?_append_three hx with ⟨hi, -⟩ | ⟨hle, hi, hx⟩ | ⟨hle, hi, -⟩
    · split_ifs <;> omega
    · rcases getElem?_append_three hy with ⟨hj, -⟩ | ⟨-, hj, -⟩ | ⟨-, -, hy⟩
      · split_ifs <;> omega
      · split_ifs <;> omega
      · exact absurd hK (apart x (List.mem_of_getElem? hx) y (List.mem_of_getElem? hy))
    · split_ifs <;> omega

/-! ## Making room -/

/-- The map of positions that makes room for `k` more behind the first `n`. -/
def makeRoom (n k i : Nat) : Nat :=
  if i < n then i else i + k

section MakeRoom

variable {n k i j : Nat}

theorem makeRoom_of_lt (h : i < n) : makeRoom n k i = i :=
  if_pos h

theorem makeRoom_lt (h : i < j) : makeRoom n k i < makeRoom n k j := by
  unfold makeRoom
  split_ifs <;> omega

theorem makeRoom_injective (n k : Nat) : Function.Injective (makeRoom n k) := by
  intro i j h
  unfold makeRoom at h
  split_ifs at h <;> omega

/-- Nothing goes where room was made. -/
theorem ne_makeRoom (h : n ≤ j) (h' : j < n + k) (i : Nat) : j ≠ makeRoom n k i := by
  unfold makeRoom
  split_ifs <;> omega

end MakeRoom

/-- **A list goes into itself with more behind it**, and room is made for what is behind. -/
theorem embeds_makeRoom {R K : α → α → Prop} {A : α → Prop} {xs : List α} {us : List β}
    {f : β → α} (hxs : ∀ x ∈ xs, R x x) (hus : ∀ a ∈ us, A (f a)) :
    Embeds (makeRoom xs.length us.length) R K A xs (xs ++ us.map f) where
  behind i hi := by
    unfold makeRoom
    rw [if_neg (Nat.not_lt.mpr hi), List.length_append, List.length_map]
    omega
  related {i a} ha := by
    have hi := (List.getElem?_eq_some_iff.mp ha).1
    refine ⟨a, ?_, hxs a (List.mem_of_getElem? ha)⟩
    rw [makeRoom_of_lt hi, List.getElem?_append_left hi, ha]
  mono hlt _ _ _ := makeRoom_lt hlt
  foreign {j b} hb := by
    by_cases hj : j < xs.length
    · exact Or.inl ⟨j, makeRoom_of_lt hj⟩
    · rw [List.getElem?_append_right (Nat.le_of_not_lt hj)] at hb
      obtain ⟨a, ha, rfl⟩ := List.mem_map.mp (List.mem_of_getElem? hb)
      exact Or.inr (hus a ha)

end Heritage
