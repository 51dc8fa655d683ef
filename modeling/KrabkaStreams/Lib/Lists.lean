import Mathlib.Algebra.BigOperators.Group.List.Basic
import Mathlib.Data.List.Basic
import Mathlib.Data.List.Sort
import Mathlib.Order.Basic

/-!
# Scans of lists

A pass that fails on no element is a pure one, and a scan that keeps or drops each element is a filter.
-/

namespace Lists

variable {α β ε : Type} {l : List α}

theorem forall₂_of_mapM {f : α → Except ε β} : ∀ {l : List α} {out : List β}, l.mapM f = .ok out →
    List.Forall₂ (fun a b => f a = .ok b) l out
  | [], out, h => by
    cases h
    exact .nil
  | a :: l, out, h => by
    rw [List.mapM_cons] at h
    rcases hb : f a with e | b
    · rw [hb] at h
      cases h
    · rcases hrest : l.mapM f with e | rest
      · rw [hb, hrest] at h
        cases h
      · rw [hb, hrest] at h
        cases h
        exact .cons hb (forall₂_of_mapM hrest)

theorem exists_split_of_count_map [DecidableEq β] {f : α → β} {b : β} : ∀ {l : List α}, (l.map f).count b = 1 →
    ∃ before a after, l = before ++ a :: after ∧ f a = b ∧ (∀ x ∈ before, f x ≠ b) ∧ ∀ x ∈ after, f x ≠ b
  | [], h => by simp at h
  | a :: l, h => by
    rw [List.map_cons, List.count_cons] at h
    by_cases ha : f a = b
    · have hzero : (l.map f).count b = 0 := by
        rw [if_pos (beq_iff_eq.mpr ha)] at h
        omega
      refine ⟨[], a, l, rfl, ha, fun x hx => absurd hx List.not_mem_nil, fun x hx hfx => ?_⟩
      exact List.count_eq_zero.mp hzero (List.mem_map.mpr ⟨x, hx, hfx⟩)
    · rw [if_neg (by simpa using ha), Nat.add_zero] at h
      obtain ⟨before, a', after, rfl, ha', hbefore, hafter⟩ := exists_split_of_count_map h
      refine ⟨a :: before, a', after, rfl, ha', fun x hx => ?_, hafter⟩
      rcases List.mem_cons.mp hx with rfl | hx
      · exact ha
      · exact hbefore x hx

theorem mapM_eq_map {f : α → Except ε β} {g : α → β} :
    ∀ {l : List α}, (∀ a ∈ l, f a = .ok (g a)) → l.mapM f = .ok (l.map g)
  | [], _ => rfl
  | a :: l, h => by
    rw [List.mapM_cons, h a (by simp), mapM_eq_map fun b hb => h b (List.mem_cons_of_mem _ hb)]
    rfl

theorem filterAuxM_eq_filter {f : α → Except ε Bool} {p : α → Bool} :
    ∀ {l : List α} (acc : List α), (∀ a ∈ l, f a = .ok (p a)) →
      l.filterAuxM f acc = .ok ((l.filter p).reverse ++ acc)
  | [], _, _ => rfl
  | a :: l, acc, h => by
    rw [List.filterAuxM, h a (by simp)]
    show l.filterAuxM f (cond (p a) (a :: acc) acc) = _
    rw [filterAuxM_eq_filter _ fun b hb => h b (List.mem_cons_of_mem a hb)]
    rcases hp : p a with _ | _ <;> simp [hp]

theorem filterM_eq_filter {f : α → Except ε Bool} {p : α → Bool} (h : ∀ a ∈ l, f a = .ok (p a)) :
    l.filterM f = .ok (l.filter p) := by
  unfold List.filterM
  rw [filterAuxM_eq_filter [] h]
  simp

theorem filterM_map_eq {f : β → Except ε Bool} {g : α → β} {p : α → Bool} (h : ∀ a ∈ l, f (g a) = .ok (p a)) :
    (l.map g).filterM f = .ok ((l.filter p).map g) := by
  let q : β → Bool := fun b => match f b with
    | .ok c => c
    | .error _ => false
  have hq : ∀ a ∈ l, q (g a) = p a := fun a ha => by
    show (match f (g a) with
      | .ok c => c
      | .error _ => false) = p a
    rw [h a ha]
  rw [filterM_eq_filter (p := q), List.filter_map]
  · exact congrArg (fun l' => Except.ok (List.map g l')) (List.filter_congr hq)
  · intro b hb
    obtain ⟨a, ha, rfl⟩ := List.mem_map.mp hb
    rw [h a ha, hq a ha]

theorem flatten_map_ite (p : α → Prop) [DecidablePred p] (g : α → β) :
    ∀ l : List α, (l.map fun a => if p a then [] else [g a]).flatten = (l.filter fun a => ¬ p a).map g
  | [] => rfl
  | a :: l => by
    rw [List.map_cons, List.flatten_cons, flatten_map_ite p g l]
    by_cases h : p a <;> simp [h]

/-- A scan that reads each entry of a map and leaves some out. -/
theorem mapM_flatten {γ : Type} {p : α → Prop} [DecidablePred p] {g : α → β} {entry : α → γ}
    {f : γ → Except ε (List β)} (h : ∀ a ∈ l, f (entry a) = .ok (if p a then [] else [g a])) :
    (do return (← (l.map entry).mapM f).flatten) = Except.ok ((l.filter fun a => ¬ p a).map g) := by
  rw [List.mapM_map, mapM_eq_map (f := f ∘ entry) h]
  exact congrArg Except.ok (flatten_map_ite p g l)

theorem pairwise_insertionSort {γ : Type} [LinearOrder γ] (g : α → γ) (l : List α) :
    (l.insertionSort fun a b => g a ≤ g b).Pairwise fun a b => g a ≤ g b := by
  exact List.pairwise_insertionSort _ l

theorem map_filter_filterMap {γ : Type} {proj : α → Option β} {p : β → Bool} {f : β → γ}
    {h : α → Option γ} (hh : ∀ a, h a = (proj a).bind fun b => if p b then some (f b) else none) :
    ∀ l : List α, ((l.filterMap proj).filter p).map f = l.filterMap h
  | [] => rfl
  | a :: l => by
    have ih := map_filter_filterMap hh l
    rw [List.filterMap_cons, List.filterMap_cons, hh]
    rcases proj a with _ | b
    · exact ih
    · rcases hb : p b with _ | _
      · simp [hb, ih]
      · simp [hb, ih]

theorem filterMap_split_perm (c : α → Prop) [DecidablePred c] (f : α → Option β) :
    ∀ l : List α, (l.filterMap (fun a => if c a then none else f a)
      ++ l.filterMap (fun a => if c a then f a else none)).Perm (l.filterMap f)
  | [] => .nil
  | a :: l => by
    have ih := filterMap_split_perm c f l
    by_cases hc : c a
    · rcases hf : f a with _ | b
      · simpa [hc, hf] using ih
      · simp only [List.filterMap_cons, if_pos hc, hf]
        exact List.perm_middle.trans (ih.cons b)
    · rcases hf : f a with _ | b
      · simpa [hc, hf] using ih
      · simpa [hc, hf] using ih

theorem length_filter_eq_iff {p q : α → Bool} (h : ∀ a ∈ l, p a = true → q a = true) :
    (l.filter p).length = (l.filter q).length ↔ ∀ a ∈ l, q a = true → p a = true := by
  have hsub : (l.filter p).Sublist (l.filter q) := by
    have heq : l.filter p = (l.filter q).filter p := by
      rw [List.filter_filter]
      refine List.filter_congr fun a ha => ?_
      rcases hp : p a with _ | _
      · rfl
      · simp [h a ha hp]
    rw [heq]
    exact List.filter_sublist
  constructor
  · intro hlen a ha hq
    have heq := hsub.eq_of_length hlen
    have hmem : a ∈ l.filter p := heq ▸ List.mem_filter.mpr ⟨ha, hq⟩
    exact (List.mem_filter.mp hmem).2
  · intro hback
    refine congrArg _ (List.filter_congr fun a ha => ?_)
    rw [Bool.eq_iff_iff]
    exact ⟨h a ha, hback a ha⟩

theorem filter_map_of_nodup [DecidableEq α] (g : α → β) {p : β → Bool} {a : α} :
    ∀ {l : List α}, l.Nodup → (∀ x ∈ l, p (g x) = true ↔ x = a) →
      (l.map g).filter p = if a ∈ l then [g a] else []
  | [], _, _ => rfl
  | x :: l, hn, hp => by
    obtain ⟨hfresh, hn⟩ := List.nodup_cons.mp hn
    have ih := filter_map_of_nodup g hn fun y hy => hp y (List.mem_cons_of_mem x hy)
    have hx := hp x (by simp)
    rw [List.map_cons]
    by_cases hxa : x = a
    · subst hxa
      rw [List.filter_cons_of_pos (hx.mpr rfl), ih, if_neg hfresh, if_pos (by simp)]
    · rw [List.filter_cons_of_neg fun h => hxa (hx.mp h), ih]
      simp [Ne.symm hxa]

section Sum

variable {M ι : Type} [AddCommMonoid M] (h : α → M)

theorem sum_filter_or (p q : α → Bool) :
    ∀ {l : List α}, (∀ x ∈ l, p x = true → q x = false) →
      ((l.filter fun x => p x || q x).map h).sum = ((l.filter p).map h).sum + ((l.filter q).map h).sum
  | [], _ => by simp
  | x :: l, hd => by
    have ih := sum_filter_or p q fun y hy => hd y (List.mem_cons_of_mem x hy)
    rcases hp : p x with _ | _
    · rcases hq : q x with _ | _
      · simpa [hp, hq] using ih
      · simp only [List.filter_cons, hp, hq, Bool.false_or, if_true, List.map_cons, List.sum_cons, ih]
        exact add_left_comm _ _ _
    · have hq := hd x (by simp) hp
      simp only [List.filter_cons, hp, hq, Bool.true_or, if_true, List.map_cons, List.sum_cons, ih]
      exact (add_assoc _ _ _).symm

theorem sum_filter_any (mem : ι → α → Bool) :
    ∀ {cs : List ι}, (cs.Pairwise fun c d => ∀ x ∈ l, mem c x = true → mem d x = false) →
      ((l.filter fun x => cs.any (mem · x)).map h).sum
        = (cs.map fun c => ((l.filter (mem c)).map h).sum).sum
  | [], _ => by simp
  | c :: cs, hd => by
    obtain ⟨hc, hd⟩ := List.pairwise_cons.mp hd
    have hor := sum_filter_or h (mem c) (fun x => cs.any (mem · x)) (l := l) fun x hx hcx => by
      rw [List.any_eq_false]
      intro d hdm
      simp [hc d hdm x hx hcx]
    simp only [List.any_cons, List.map_cons, List.sum_cons]
    rw [hor, sum_filter_any mem hd]

end Sum

end Lists
