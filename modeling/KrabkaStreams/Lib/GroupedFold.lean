import Mathlib.Data.List.Perm.Basic
import Mathlib.Data.List.Nodup
import Mathlib.Logic.Function.Basic
import Mathlib.Tactic.Common

/-!
# Folds over the rows of a table

A fold with a commutative step is a fold over a table. The folds over the groups follow its changes: a
row that leaves is taken out by the inverse of the step, and one that comes is added (`Folds.update`).
-/

namespace GroupedFold

variable {κ α β γ τ : Type}

structure Lists (l : List (κ × α)) (f : κ → Option α) : Prop where
  nodup : (l.map Prod.fst).Nodup
  mem : ∀ {k a}, (k, a) ∈ l ↔ f k = some a

namespace Lists

variable {l l' : List (κ × α)} {f : κ → Option α}

theorem nil : Lists ([] : List (κ × α)) fun _ => none := ⟨List.nodup_nil, by simp⟩

theorem perm (h : Lists l f) (h' : Lists l' f) : l.Perm l' :=
  (List.perm_ext_iff_of_nodup h.nodup.of_map h'.nodup.of_map).mpr fun e => by
    obtain ⟨k, a⟩ := e
    rw [h.mem, h'.mem]

theorem of_perm (h : Lists l f) (hp : l.Perm l') : Lists l' f where
  nodup := (hp.map Prod.fst).nodup_iff.mp h.nodup
  mem := hp.mem_iff.symm.trans h.mem

theorem cons [DecidableEq κ] (h : Lists l f) {k : κ} (hk : f k = none) (a : α) :
    Lists ((k, a) :: l) (Function.update f k (some a)) where
  nodup := by
    refine List.nodup_cons.mpr ⟨fun hmem => ?_, h.nodup⟩
    obtain ⟨⟨k', b⟩, hb, rfl⟩ := List.mem_map.mp hmem
    rw [h.mem.mp hb] at hk
    cases hk
  mem := by
    intro k' b
    rw [List.mem_cons, h.mem]
    by_cases he : k' = k
    · subst he
      rw [Function.update_self, hk]
      simp [eq_comm]
    · rw [Function.update_of_ne he]
      simp [he]

theorem split [DecidableEq κ] (h : Lists l f) {k : κ} {a : α} (hk : f k = some a) :
    ∃ m, l.Perm ((k, a) :: m) ∧ Lists m (Function.update f k none) := by
  obtain ⟨l₁, l₂, hl⟩ := List.append_of_mem (h.mem.mpr hk)
  have hp : l.Perm ((k, a) :: (l₁ ++ l₂)) := hl ▸ List.perm_middle
  have hrest := h.of_perm hp
  have hnodup := hrest.nodup
  rw [List.map_cons, List.nodup_cons] at hnodup
  refine ⟨l₁ ++ l₂, hp, hnodup.2, fun {k' b} => ?_⟩
  by_cases he : k' = k
  · subst he
    rw [Function.update_self]
    simp only [reduceCtorEq, iff_false]
    exact fun hb => hnodup.1 (List.mem_map.mpr ⟨_, hb, rfl⟩)
  · rw [Function.update_of_ne he, ← hrest.mem, List.mem_cons]
    simp [he]

theorem without [DecidableEq κ] (h : Lists l f) (k : κ) : ∃ m, Lists m (Function.update f k none) := by
  rcases hk : f k with _ | a
  · exact ⟨l, by rwa [← hk, Function.update_eq_self]⟩
  · obtain ⟨m, -, hm⟩ := h.split hk
    exact ⟨m, hm⟩

theorem update [DecidableEq κ] (h : Lists l f) (k : κ) (o : Option α) :
    ∃ m, Lists m (Function.update f k o) := by
  obtain ⟨m, hm⟩ := h.without k
  rcases o with _ | a
  · exact ⟨m, hm⟩
  · have hc := hm.cons (k := k) (Function.update_self ..) a
    rw [Function.update_idem] at hc
    exact ⟨_, hc⟩

end Lists

/-- A grouping of rows, and the step that adds a row to the fold of its group. -/
structure Grouping (κ α γ τ : Type) where
  group : κ → α → γ
  init : τ
  add : γ → κ → α → τ → τ
  sub : γ → κ → α → τ → τ
  comm : ∀ g k a k' a' t, add g k a (add g k' a' t) = add g k' a' (add g k a t)
  inverse : ∀ g k a t, sub g k a (add g k a t) = t

namespace Grouping

variable [DecidableEq γ] (G : Grouping κ α γ τ)

def fold (g : γ) (l : List (κ × α)) : τ :=
  (l.filter fun e => G.group e.1 e.2 = g).foldr (fun e t => G.add g e.1 e.2 t) G.init

variable {G}

theorem fold_perm {l l' : List (κ × α)} (h : l.Perm l') (g : γ) : G.fold g l = G.fold g l' :=
  (h.filter _).foldr_eq' (fun e _ e' _ t => G.comm g e'.1 e'.2 e.1 e.2 t) _

theorem fold_cons (g : γ) (k : κ) (a : α) (l : List (κ × α)) :
    G.fold g ((k, a) :: l) = if G.group k a = g then G.add g k a (G.fold g l) else G.fold g l := by
  unfold fold
  by_cases h : G.group k a = g
  · rw [if_pos h, List.filter_cons_of_pos (by simpa using h), List.foldr_cons]
  · rw [if_neg h, List.filter_cons_of_neg (by simpa using h)]

/-- The folds of the groups, over the rows of the table. -/
structure Folds (G : Grouping κ α γ τ) (S : γ → τ) (f : κ → Option α) : Prop where
  finite : ∃ l, Lists l f
  eq : ∀ {l}, Lists l f → ∀ g, S g = G.fold g l

theorem Folds.empty (G : Grouping κ α γ τ) : Folds G (fun _ => G.init) fun _ => none where
  finite := ⟨[], .nil⟩
  eq := by
    intro l hl g
    rw [fold_perm (hl.perm .nil)]
    rfl

def taken (G : Grouping κ α γ τ) (k : κ) (o : Option α) (S : γ → τ) (g : γ) : τ :=
  match o with
  | none => S g
  | some a => if G.group k a = g then G.sub g k a (S g) else S g

def added (G : Grouping κ α γ τ) (k : κ) (o : Option α) (S : γ → τ) (g : γ) : τ :=
  match o with
  | none => S g
  | some a => if G.group k a = g then G.add g k a (S g) else S g

theorem Folds.update [DecidableEq κ] {S : γ → τ} {f : κ → Option α} (h : Folds G S f) (k : κ)
    (o : Option α) : Folds G (G.added k o (G.taken k (f k) S)) (Function.update f k o) := by
  obtain ⟨l, hl⟩ := h.finite
  refine ⟨hl.update k o, fun {l'} hl' g => ?_⟩
  obtain ⟨m, hm⟩ := hl.without k
  have htaken : G.taken k (f k) S g = G.fold g m := by
    rcases hk : f k with _ | a
    · rw [← hk, Function.update_eq_self] at hm
      exact h.eq hm g
    · obtain ⟨m', hp, hm'⟩ := hl.split hk
      have hS : S g = G.fold g ((k, a) :: m) := by
        rw [h.eq hl, fold_perm hp, fold_cons, fold_cons, fold_perm (hm'.perm hm)]
      show (if G.group k a = g then G.sub g k a (S g) else S g) = _
      rw [hS, fold_cons]
      by_cases hg : G.group k a = g
      · rw [if_pos hg, if_pos hg, G.inverse]
      · rw [if_neg hg, if_neg hg]
  rcases o with _ | a
  · show G.taken k (f k) S g = _
    rw [htaken, fold_perm (hm.perm hl')]
  · have hc := hm.cons (k := k) (Function.update_self ..) a
    rw [Function.update_idem] at hc
    show (if G.group k a = g then G.add g k a (G.taken k (f k) S g) else G.taken k (f k) S g) = _
    rw [htaken, fold_perm (hl'.perm hc), fold_cons]

end Grouping

end GroupedFold
