import Mathlib.Algebra.GroupWithZero.Nat
import Mathlib.Data.List.Lex
import Mathlib.Data.List.Sort
import Mathlib.Order.Basic
import Mathlib.Tactic.Common

/-!
# Sorted maps

A finite map over a linear order as the list of its entries in strictly ascending key order. Two maps
with the same lookups are equal (`SortedMap.ext_get?`), and a scan of the entries is in key order.
-/

/-- Bytes compare as unsigned numbers, so lists of bytes compare as `memcmp` does. -/
instance linearOrderUInt8 : LinearOrder UInt8 where
  le_refl a := UInt8.le_refl a
  le_trans _ _ _ := UInt8.le_trans
  le_antisymm _ _ := UInt8.le_antisymm
  le_total a b := UInt8.le_total a b
  lt_iff_le_not_ge a b := by simp [UInt8.lt_iff_toNat_lt, UInt8.le_iff_toNat_le]; omega
  toDecidableLE := inferInstance
  toDecidableEq := inferInstance
  toDecidableLT := inferInstance

/-- A finite map with its entries in strictly ascending key order. -/
structure SortedMap (κ α : Type) [LinearOrder κ] where
  entries : List (κ × α)
  sorted : entries.Pairwise fun a b => a.1 < b.1

namespace SortedMap

variable {κ α : Type} [LinearOrder κ] (m : SortedMap κ α) (k : κ) {l : List (κ × α)} (a : α) {β : Type}
  (w : κ → α → Nat)

instance [DecidableEq α] : DecidableEq (SortedMap κ α) := fun m n =>
  decidable_of_iff (m.entries = n.entries) (by cases m; cases n; simp)

def empty : SortedMap κ α := ⟨[], List.Pairwise.nil⟩

def lookupList : List (κ × α) → κ → Option α
  | [], _ => none
  | (k', a) :: l, k => if k' = k then some a else lookupList l k

def get? : Option α := lookupList m.entries k

def insertList : List (κ × α) → κ → α → List (κ × α)
  | [], k, a => [(k, a)]
  | (k', a') :: l, k, a =>
    if k < k' then (k, a) :: (k', a') :: l
    else if k = k' then (k, a) :: l
    else (k', a') :: insertList l k a

theorem mem_insertList {k : κ} {a : α} {e : κ × α} (h : e ∈ insertList l k a) : e = (k, a) ∨ e ∈ l := by
  induction l with
  | nil => simpa [insertList] using h
  | cons e' l ih =>
    obtain ⟨k', a'⟩ := e'
    unfold insertList at h
    split_ifs at h
    · simpa using h
    · rcases List.mem_cons.mp h with h | h
      · exact .inl h
      · exact .inr (List.mem_cons_of_mem _ h)
    · rcases List.mem_cons.mp h with h | h
      · exact .inr (h ▸ List.mem_cons_self)
      · exact (ih h).imp id (List.mem_cons_of_mem _)

theorem insertList_sorted (k : κ) (a : α) (h : l.Pairwise fun a b => a.1 < b.1) :
    (insertList l k a).Pairwise fun a b => a.1 < b.1 := by
  induction l with
  | nil => simp [insertList]
  | cons e l ih =>
    obtain ⟨k', a'⟩ := e
    obtain ⟨hhead, htail⟩ := List.pairwise_cons.mp h
    unfold insertList
    split_ifs with h1 h2
    · refine List.pairwise_cons.mpr ⟨fun e he => ?_, h⟩
      rcases List.mem_cons.mp he with he | he
      · rw [he]; exact h1
      · exact lt_trans h1 (hhead e he)
    · subst h2
      exact List.pairwise_cons.mpr ⟨hhead, htail⟩
    · refine List.pairwise_cons.mpr ⟨fun e he => ?_, ih htail⟩
      rcases mem_insertList he with he | he
      · rw [he]; exact lt_of_le_of_ne (not_lt.mp h1) (Ne.symm h2)
      · exact hhead e he

def insert : SortedMap κ α :=
  ⟨insertList m.entries k a, insertList_sorted k a m.sorted⟩

def erase : SortedMap κ α :=
  ⟨m.entries.filter fun e => e.1 ≠ k, m.sorted.filter _⟩

def range (lo hi : κ) : List (κ × α) :=
  m.entries.filter fun e => lo ≤ e.1 ∧ e.1 < hi

@[simp] theorem get?_empty : (empty : SortedMap κ α).get? k = none := rfl

theorem lookupList_insertList (l : List (κ × α)) (k k' : κ) (a : α) :
    lookupList (insertList l k a) k' = if k = k' then some a else lookupList l k' := by
  induction l with
  | nil => rfl
  | cons e l ih =>
    obtain ⟨k₀, a₀⟩ := e
    by_cases h1 : k < k₀
    · simp only [insertList, if_pos h1, lookupList]
    · by_cases h2 : k = k₀
      · subst h2
        by_cases h : k = k' <;> simp [insertList, lookupList, h]
      · by_cases h : k = k'
        · subst h
          simp [insertList, lookupList, h1, h2, Ne.symm h2, ih]
        · simp [insertList, lookupList, h1, h2, h, ih]

theorem get?_insert (k k' : κ) (a : α) : (m.insert k a).get? k' = if k = k' then some a else m.get? k' :=
  lookupList_insertList m.entries k k' a

@[simp] theorem get?_insert_self : (m.insert k a).get? k = some a := by
  rw [get?_insert, if_pos rfl]

theorem get?_insert_of_ne {m : SortedMap κ α} {k k' : κ} {a : α} (h : k ≠ k') :
    (m.insert k a).get? k' = m.get? k' := by
  rw [get?_insert, if_neg h]

theorem lookupList_filter (p : κ → Prop) [DecidablePred p] (l : List (κ × α)) (k : κ) :
    lookupList (l.filter fun e => p e.1) k = if p k then lookupList l k else none := by
  induction l with
  | nil => simp [lookupList]
  | cons e l ih =>
    obtain ⟨k₀, a₀⟩ := e
    by_cases h0 : p k₀
    · rw [List.filter_cons_of_pos (by simpa using h0)]
      simp only [lookupList, ih]
      by_cases h : k₀ = k
      · subst h
        simp [h0]
      · simp [h]
    · rw [List.filter_cons_of_neg (by simpa using h0), ih]
      by_cases h : k₀ = k
      · subst h
        simp [h0]
      · simp [lookupList, h]

theorem get?_erase (k k' : κ) : (m.erase k).get? k' = if k = k' then none else m.get? k' := by
  refine (lookupList_filter (· ≠ k) m.entries k').trans ?_
  by_cases h : k = k'
  · simp [h]
  · simp [h, Ne.symm h, get?]

theorem entries_erase_head {m : SortedMap κ α} {k : κ} {a : α} {l : List (κ × α)}
    (h : m.entries = (k, a) :: l) : (m.erase k).entries = l := by
  have hs := m.sorted
  rw [h] at hs
  obtain ⟨hhead, -⟩ := List.pairwise_cons.mp hs
  unfold erase
  simp only [h]
  rw [List.filter_cons_of_neg (by simp), List.filter_eq_self]
  intro e he
  simpa using (hhead e he).ne'

theorem lookupList_eq_some_iff (hs : l.Pairwise fun a b => a.1 < b.1) (k : κ) (a : α) :
    lookupList l k = some a ↔ (k, a) ∈ l := by
  induction l with
  | nil => simp [lookupList]
  | cons e l ih =>
    obtain ⟨k₀, a₀⟩ := e
    obtain ⟨hhead, htail⟩ := List.pairwise_cons.mp hs
    by_cases h : k₀ = k
    · subst h
      have hk : (k₀, a) ∉ l := fun hm => lt_irrefl k₀ (hhead (k₀, a) hm)
      simp [lookupList, hk, eq_comm]
    · have hne : (k, a) ≠ (k₀, a₀) := fun he => h (congrArg Prod.fst he).symm
      simp [lookupList, h, ih htail, hne]

theorem get?_eq_some_iff : m.get? k = some a ↔ (k, a) ∈ m.entries :=
  lookupList_eq_some_iff m.sorted k a

def mapValues (f : κ → α → β) (m : SortedMap κ α) : SortedMap κ β :=
  ⟨m.entries.map fun e => (e.1, f e.1 e.2), by simpa [List.pairwise_map] using m.sorted⟩

theorem get?_mapValues (f : κ → α → β) (m : SortedMap κ α) (k : κ) :
    (m.mapValues f).get? k = (m.get? k).map (f k) := by
  obtain ⟨l, hs⟩ := m
  unfold get? mapValues
  induction l with
  | nil => rfl
  | cons e l ih =>
    obtain ⟨k₀, a₀⟩ := e
    simp only [List.map_cons, lookupList]
    split
    · rename_i h
      rw [h]
      rfl
    · exact ih (List.pairwise_cons.mp hs).2

theorem ext_get? {m n : SortedMap κ α} (h : ∀ k, m.get? k = n.get? k) : m = n := by
  have hmem : ∀ e, e ∈ m.entries ↔ e ∈ n.entries := fun e => by
    rw [← get?_eq_some_iff, ← get?_eq_some_iff, h]
  have hnd : ∀ p : SortedMap κ α, p.entries.Nodup := fun p =>
    p.sorted.imp fun {a b} hab (he : a = b) => (he ▸ hab).ne rfl
  have hperm : m.entries.Perm n.entries := (List.perm_ext_iff_of_nodup (hnd m) (hnd n)).mpr hmem
  have heq : m.entries = n.entries :=
    hperm.eq_of_pairwise (fun a b _ _ hab hba => absurd hab (lt_asymm hba)) m.sorted n.sorted
  cases m
  cases n
  simpa using heq

def between (lo hi : κ) : SortedMap κ α := ⟨m.range lo hi, m.sorted.filter _⟩

theorem get?_between {m : SortedMap κ α} {lo hi k : κ} (h : lo ≤ k ∧ k < hi) :
    (m.between lo hi).get? k = m.get? k :=
  (lookupList_filter (fun k => lo ≤ k ∧ k < hi) m.entries k).trans (if_pos h)

theorem get?_between_eq_none {m : SortedMap κ α} {lo hi k : κ} (h : ¬ (lo ≤ k ∧ k < hi)) :
    (m.between lo hi).get? k = none :=
  (lookupList_filter (fun k => lo ≤ k ∧ k < hi) m.entries k).trans (if_neg h)

theorem nodup_keys : (m.entries.map Prod.fst).Nodup := by
  refine List.pairwise_map.mpr (m.sorted.imp fun h => ?_)
  exact h.ne

theorem mem_of_lookupList {k : κ} {a : α} (h : lookupList l k = some a) : (k, a) ∈ l := by
  induction l with
  | nil => cases h
  | cons e l ih =>
    obtain ⟨k', a'⟩ := e
    unfold lookupList at h
    split_ifs at h with hk
    · cases h
      exact hk ▸ List.mem_cons_self
    · exact List.mem_cons_of_mem _ (ih h)

theorem lookupList_eq_none_iff {k : κ} : lookupList l k = none ↔ k ∉ l.map Prod.fst := by
  induction l with
  | nil => simp [lookupList]
  | cons e l ih =>
    by_cases h : e.1 = k
    · simp [lookupList, h]
    · simp [lookupList, h, ih, Ne.symm h]

/-- Writing a list of entries with different keys into a map: an entry of the list counts, where there
is one. -/
theorem get?_foldl {step : SortedMap κ α → κ × β → SortedMap κ α} (val : β → Option α)
    (hat : ∀ m e, (step m e).get? e.1 = val e.2) (hoff : ∀ m e k, e.1 ≠ k → (step m e).get? k = m.get? k) :
    ∀ (l : List (κ × β)) (m : SortedMap κ α) (k : κ), (l.map Prod.fst).Nodup →
      (l.foldl step m).get? k = (lookupList l k).elim (m.get? k) val
  | [], _, _, _ => rfl
  | e :: l, m, k, hn => by
    obtain ⟨hfresh, htail⟩ := List.nodup_cons.mp hn
    rw [List.foldl_cons, get?_foldl val hat hoff l _ k htail]
    by_cases h : e.1 = k
    · subst h
      have hnone : lookupList l e.1 = none := lookupList_eq_none_iff.mpr hfresh
      simp [lookupList, hnone, hat]
    · simp [lookupList, h, hoff _ _ _ h]

theorem foldl_insert_eq {m : SortedMap κ α} (hn : (l.map Prod.fst).Nodup)
    (h : ∀ k a, m.get? k = some a ↔ (k, a) ∈ l) : l.foldl (fun m e => m.insert e.1 e.2) empty = m := by
  refine ext_get? fun k => ?_
  rw [get?_foldl some (fun m e => m.get?_insert_self e.1 e.2) (fun m e k => get?_insert_of_ne) l _ k hn]
  rcases hl : lookupList l k with _ | a
  · rcases hm : m.get? k with _ | a
    · rfl
    · have hmem : k ∈ l.map Prod.fst := List.mem_map.mpr ⟨_, (h k a).mp hm, rfl⟩
      exact absurd hmem (lookupList_eq_none_iff.mp hl)
  · exact ((h k a).mpr (mem_of_lookupList hl)).symm

def adjust (f : α → α) : SortedMap κ α :=
  match m.get? k with
  | some a => m.insert k (f a)
  | none => m

theorem get?_adjust (k k' : κ) (f : α → α) :
    (m.adjust k f).get? k' = if k = k' then (m.get? k').map f else m.get? k' := by
  unfold adjust
  by_cases h : k = k'
  · subst h
    rcases hk : m.get? k with _ | a
    · simp [hk]
    · simp
  · rcases m.get? k with _ | a
    · simp [h]
    · simp [h, get?_insert_of_ne h]

theorem entries_insert_last {k : κ} (h : ∀ e ∈ m.entries, e.1 < k) (a : α) :
    (m.insert k a).entries = m.entries ++ [(k, a)] := by
  show insertList m.entries k a = _
  revert h
  induction m.entries with
  | nil => exact fun _ => rfl
  | cons e l ih =>
    intro h
    have he := h e List.mem_cons_self
    unfold insertList
    rw [if_neg (not_lt.mpr he.le), if_neg he.ne', ih fun e' he' => h e' (List.mem_cons_of_mem _ he')]
    rfl

def weight (m : SortedMap κ α) : Nat := (m.entries.map fun e => w e.1 e.2).sum

theorem weight_insert (m : SortedMap κ α) (k : κ) (a : α) :
    (m.insert k a).weight w + (m.get? k).elim 0 (w k) = m.weight w + w k a := by
  show ((insertList m.entries k a).map fun e => w e.1 e.2).sum + (lookupList m.entries k).elim 0 (w k)
    = (m.entries.map fun e => w e.1 e.2).sum + w k a
  have hs := m.sorted
  revert hs
  induction m.entries with
  | nil => simp [insertList, lookupList]
  | cons e l ih =>
    intro hs
    obtain ⟨hlt, hrest⟩ := List.pairwise_cons.mp hs
    have ih := ih hrest
    rcases lt_trichotomy k e.1 with h | h | h
    · have hnone : lookupList l k = none := lookupList_eq_none_iff.mpr fun hmem => by
        obtain ⟨e', he', rfl⟩ := List.mem_map.mp hmem
        exact absurd (hlt e' he') h.not_gt
      simp only [insertList, lookupList, if_pos h, if_neg h.ne', hnone, List.map_cons, List.sum_cons, Option.elim_none]
      omega
    · subst h
      simp only [insertList, lookupList, if_neg (lt_irrefl _), if_true, List.map_cons, List.sum_cons, Option.elim_some]
      omega
    · simp only [insertList, lookupList, if_neg h.not_gt, if_neg h.ne', if_neg h.ne, List.map_cons, List.sum_cons]
      omega

theorem le_weight {m : SortedMap κ α} {k : κ} {a : α} (h : m.get? k = some a) : w k a ≤ m.weight w := by
  obtain ⟨l₁, l₂, hl⟩ := List.append_of_mem ((get?_eq_some_iff m k a).mp h)
  unfold weight
  rw [hl, List.map_append, List.sum_append, List.map_cons, List.sum_cons]
  dsimp only
  omega

theorem mapValues_insert (f : κ → α → β) (m : SortedMap κ α) (k : κ) (a : α) :
    (m.insert k a).mapValues f = (m.mapValues f).insert k (f k a) := by
  refine ext_get? fun k' => ?_
  rw [get?_mapValues, get?_insert, get?_insert, get?_mapValues]
  by_cases h : k = k'
  · subst h
    simp
  · simp [h]

theorem mapValues_adjust {f : κ → α → β} {k : κ} {g : α → α} (h : ∀ a, f k (g a) = f k a) (m : SortedMap κ α) :
    (m.adjust k g).mapValues f = m.mapValues f := by
  refine ext_get? fun k' => ?_
  rw [get?_mapValues, get?_mapValues, get?_adjust]
  by_cases hk : k = k'
  · subst hk
    rw [if_pos rfl, Option.map_map]
    exact congrArg (fun g => (m.get? k).map g) (funext h)
  · rw [if_neg hk]

theorem get?_foldl_adjust {f : α → α} (hf : ∀ a, f (f a) = f a) : ∀ (l : List κ) (m : SortedMap κ α) (k : κ),
    (k ∈ l → (l.foldl (fun m k => m.adjust k f) m).get? k = (m.get? k).map f) ∧
      (k ∉ l → (l.foldl (fun m k => m.adjust k f) m).get? k = m.get? k)
  | [], _, _ => ⟨fun h => absurd h List.not_mem_nil, fun _ => rfl⟩
  | x :: l, m, k => by
    obtain ⟨hin, hout⟩ := get?_foldl_adjust hf l (m.adjust x f) k
    rw [get?_adjust] at hin hout
    by_cases hx : x = k
    · subst hx
      rw [if_pos rfl] at hin hout
      refine ⟨fun _ => ?_, fun h => absurd List.mem_cons_self h⟩
      by_cases hl : x ∈ l
      · rw [List.foldl_cons, hin hl, Option.map_map]
        exact congrArg (fun g => (m.get? x).map g) (funext hf)
      · exact hout hl
    · rw [if_neg hx] at hin hout
      refine ⟨fun h => hin ?_, fun h => hout fun hl => h (List.mem_cons_of_mem _ hl)⟩
      exact (List.mem_cons.mp h).resolve_left (Ne.symm hx)

theorem range_mapValues (f : κ → α → β) (m : SortedMap κ α) (lo hi : κ) :
    (m.mapValues f).range lo hi = (m.range lo hi).map fun e => (e.1, f e.1 e.2) := List.filter_map ..

theorem weight_mapValues (w : κ → β → Nat) (f : κ → α → β) (m : SortedMap κ α) :
    (m.mapValues f).weight w = m.weight fun k a => w k (f k a) :=
  congrArg List.sum (List.map_map ..)

theorem getLast?_entries_iff (e : κ × α) :
    m.entries.getLast? = some e ↔ e ∈ m.entries ∧ ∀ e' ∈ m.entries, e'.1 ≤ e.1 := by
  constructor
  · intro h
    obtain ⟨l, hl⟩ := List.getLast?_eq_some_iff.mp h
    have hs := m.sorted
    rw [hl] at hs ⊢
    refine ⟨List.mem_concat_self, fun e' he' => ?_⟩
    rcases List.mem_append.mp he' with h' | h'
    · exact ((List.pairwise_append.mp hs).2.2 e' h' e (List.mem_singleton_self e)).le
    · rw [List.mem_singleton.mp h']
  · rintro ⟨he, hmax⟩
    rcases hlast : m.entries.getLast? with _ | e'
    · rw [List.getLast?_eq_none_iff.mp hlast] at he
      exact absurd he List.not_mem_nil
    · obtain ⟨l, hl⟩ := List.getLast?_eq_some_iff.mp hlast
      have hs := m.sorted
      rw [hl] at hs he
      rcases List.mem_append.mp he with h' | h'
      · have hlt := (List.pairwise_append.mp hs).2.2 e h' e' (List.mem_singleton_self e')
        exact absurd (hmax e' (hl ▸ List.mem_concat_self)) hlt.not_ge
      · rw [List.mem_singleton.mp h']

end SortedMap
