import Mathlib.Data.List.Basic
import Mathlib.Data.List.Nodup
import Mathlib.Tactic.Common

/-!
# Maps that iterate in insertion order

The hash maps of the source are read in an unspecified order that in-place updates leave alone. Any such
order is the order of some insertions into an `OrdMap`.
-/

/-- A finite map as the list of its entries; an earlier entry hides a later one. -/
abbrev OrdMap (κ α : Type) := List (κ × α)

namespace OrdMap

variable {κ α : Type} [DecidableEq κ] (m : OrdMap κ α) (k : κ) (a : α)

def get? : OrdMap κ α → κ → Option α
  | [], _ => none
  | (k', a) :: m, k => if k' = k then some a else get? m k

def insert : OrdMap κ α → κ → α → OrdMap κ α
  | [], k, a => [(k, a)]
  | (k', a') :: m, k, a => if k' = k then (k', a) :: m else (k', a') :: insert m k a

def erase : OrdMap κ α := m.filter fun e => e.1 ≠ k

def keys : List κ := m.map Prod.fst

def values : List α := m.map Prod.snd

def contains : Bool := (m.get? k).isSome

def modify : OrdMap κ α → κ → (α → α) → OrdMap κ α
  | [], _, _ => []
  | (k', a) :: m, k, f => if k' = k then (k', f a) :: m else (k', a) :: modify m k f

@[simp] theorem get?_nil : get? ([] : OrdMap κ α) k = none := rfl

theorem get?_cons (k' k : κ) (a : α) (m : OrdMap κ α) :
    get? ((k', a) :: m) k = if k' = k then some a else get? m k := rfl

theorem get?_insert (k k' : κ) (a : α) : (m.insert k a).get? k' = if k = k' then some a else m.get? k' := by
  induction m with
  | nil => rfl
  | cons e m ih =>
    obtain ⟨k₀, a₀⟩ := e
    by_cases h : k₀ = k
    · subst h
      by_cases hk : k₀ = k' <;> simp [insert, get?, hk]
    · simp only [insert, if_neg h, get?, ih]
      by_cases hk : k = k'
      · subst hk
        simp [h]
      · simp [hk]

@[simp] theorem get?_insert_self : (m.insert k a).get? k = some a := by
  simp [get?_insert]

theorem get?_insert_of_ne {m : OrdMap κ α} {k k' : κ} {a : α} (h : k ≠ k') :
    (m.insert k a).get? k' = m.get? k' := by
  simp [get?_insert, h]

theorem get?_modify (k k' : κ) (f : α → α) :
    (m.modify k f).get? k' = if k = k' then (m.get? k').map f else m.get? k' := by
  induction m with
  | nil => simp [modify]
  | cons e m ih =>
    obtain ⟨k₀, a₀⟩ := e
    by_cases h : k₀ = k
    · subst h
      by_cases hk : k₀ = k' <;> simp [modify, get?, hk]
    · simp only [modify, if_neg h, get?, ih]
      by_cases hk : k = k'
      · subst hk
        simp [h]
      · simp [hk]

theorem mem_keys_iff : k ∈ m.keys ↔ ∃ a, m.get? k = some a := by
  induction m with
  | nil => simp [keys]
  | cons e m ih =>
    obtain ⟨k₀, a₀⟩ := e
    by_cases h : k₀ = k
    · simp [keys, get?, h]
    · simp only [keys, List.map_cons, List.mem_cons, get?, if_neg h] at ih ⊢
      rw [← ih]
      exact ⟨fun hk => hk.resolve_left fun he => h he.symm, Or.inr⟩

theorem get?_eq_none_iff : m.get? k = none ↔ k ∉ m.keys := by
  rw [mem_keys_iff]
  rcases m.get? k with _ | a <;> simp

theorem mem_of_get?_eq_some {m : OrdMap κ α} {k : κ} {a : α} (h : m.get? k = some a) :
    (k, a) ∈ m := by
  induction m with
  | nil => simp at h
  | cons e m ih =>
    obtain ⟨k₀, a₀⟩ := e
    rw [get?_cons] at h
    split at h
    · rename_i hk
      simp_all
    · exact List.mem_cons_of_mem _ (ih h)

theorem keys_insert_of_mem {m : OrdMap κ α} {k : κ} (h : k ∈ m.keys) : (m.insert k a).keys = m.keys := by
  induction m with
  | nil => simp [keys] at h
  | cons e m ih =>
    obtain ⟨k₀, a₀⟩ := e
    unfold insert
    split
    · rfl
    · rename_i hk
      have h' : k ∈ OrdMap.keys m := by
        rcases List.mem_cons.mp h with h | h
        · exact absurd h.symm hk
        · exact h
      exact congrArg (k₀ :: ·) (ih h')

theorem keys_insert_of_notMem {m : OrdMap κ α} {k : κ} (h : k ∉ m.keys) :
    (m.insert k a).keys = m.keys ++ [k] := by
  induction m with
  | nil => rfl
  | cons e m ih =>
    obtain ⟨k₀, a₀⟩ := e
    have hk : k₀ ≠ k := fun hk => h (List.mem_cons.mpr (.inl hk.symm))
    simp only [insert, if_neg hk]
    exact congrArg (k₀ :: ·) (ih fun h' => h (List.mem_cons_of_mem _ h'))

theorem nodup_keys_insert {m : OrdMap κ α} (h : m.keys.Nodup) (k : κ) (a : α) :
    (m.insert k a).keys.Nodup := by
  by_cases hk : k ∈ m.keys
  · rwa [keys_insert_of_mem a hk]
  · rw [keys_insert_of_notMem a hk]
    exact List.nodup_append.mpr ⟨h, List.nodup_singleton k, fun x hx y hy =>
      fun hxy => hk (List.mem_singleton.mp hy ▸ hxy ▸ hx)⟩

theorem get?_of_mem {m : OrdMap κ α} (h : m.keys.Nodup) {e : κ × α} (he : e ∈ m) :
    m.get? e.1 = some e.2 := by
  induction m with
  | nil => simp at he
  | cons e' m ih =>
    obtain ⟨k₀, a₀⟩ := e'
    obtain ⟨hk, hnodup⟩ := List.nodup_cons.mp h
    rw [get?_cons]
    rcases List.mem_cons.mp he with rfl | he
    · rw [if_pos rfl]
    · have hmem : e.1 ∈ OrdMap.keys m := List.mem_map_of_mem he
      have hne : k₀ ≠ e.1 := by
        rintro rfl
        exact hk hmem
      rw [if_neg hne, ih hnodup he]

theorem mem_insert {m : OrdMap κ α} {k : κ} {a : α} {e : κ × α} (h : e ∈ m.insert k a) :
    e = (k, a) ∨ e ∈ m := by
  induction m with
  | nil => simpa [insert] using h
  | cons e' m ih =>
    obtain ⟨k₀, a₀⟩ := e'
    unfold insert at h
    split at h
    · rename_i hk
      subst hk
      rcases List.mem_cons.mp h with h | h
      · exact .inl h
      · exact .inr (List.mem_cons_of_mem _ h)
    · rcases List.mem_cons.mp h with h | h
      · exact .inr (h ▸ List.mem_cons_self)
      · exact (ih h).imp id (List.mem_cons_of_mem _)

theorem insert_of_get? {m : OrdMap κ α} {k : κ} {a : α} (h : m.get? k = some a) :
    m.insert k a = m := by
  induction m with
  | nil => simp at h
  | cons e m ih =>
    obtain ⟨k', a'⟩ := e
    rw [get?_cons] at h
    unfold insert
    split
    · rename_i hk
      rw [if_pos hk] at h
      cases h
      rfl
    · rename_i hk
      rw [if_neg hk] at h
      rw [ih h]

@[simp] theorem insert_insert (a b : α) : (m.insert k a).insert k b = m.insert k b := by
  induction m with
  | nil => simp [insert]
  | cons e m ih =>
    obtain ⟨k₀, a₀⟩ := e
    by_cases h : k₀ = k
    · simp [insert, h]
    · simp [insert, h, ih]

theorem get?_append_cons {m n : OrdMap κ α} {k : κ} {a : α} (h : k ∉ m.keys) :
    OrdMap.get? (m ++ (k, a) :: n) k = some a := by
  induction m with
  | nil => simp [get?]
  | cons e m ih =>
    obtain ⟨k₀, a₀⟩ := e
    obtain ⟨hk, hm⟩ : k ≠ k₀ ∧ k ∉ OrdMap.keys m := not_or.mp fun h' => h (List.mem_cons.mpr h')
    simp only [List.cons_append, get?, if_neg (Ne.symm hk)]
    exact ih hm

theorem modify_append_cons {m n : OrdMap κ α} {k : κ} {a : α} (f : α → α) (h : k ∉ m.keys) :
    OrdMap.modify (m ++ (k, a) :: n) k f = m ++ (k, f a) :: n := by
  induction m with
  | nil => simp [modify]
  | cons e m ih =>
    obtain ⟨k₀, a₀⟩ := e
    obtain ⟨hk, hm⟩ : k ≠ k₀ ∧ k ∉ OrdMap.keys m := not_or.mp fun h' => h (List.mem_cons.mpr h')
    simp only [List.cons_append, modify, if_neg (Ne.symm hk)]
    rw [ih hm]

end OrdMap
