import KrabkaStreams.Lib.SortedMap
import Mathlib.Logic.Function.Basic

/-!
# Tables in a sorted map

A sorted map holds a table when its entries are the encoded entries of the table. With an injective
encoding a lookup, a write and a scan are those of the table (`Holds`); `HoldsList` is the same for a
table given as a list.
-/

namespace SortedMap

variable {κ α ι β : Type} [LinearOrder κ] {i : ι}

/-- An encoding of the entries of a table: `key` is injective on the indices it is made for. -/
structure Encoding (κ α ι β : Type) where
  index : ι → Prop
  value : β → Prop
  key : ι → κ
  val : β → α
  inj : ∀ {i j}, index i → index j → key i = key j → i = j

def Encoding.entry (enc : Encoding κ α ι β) (e : ι × β) : κ × α := (enc.key e.1, enc.val e.2)

theorem exists_eq_map {γ δ : Type} {g : γ → δ} {P : γ → Prop} :
    ∀ l : List δ, (∀ x ∈ l, ∃ e, P e ∧ g e = x) → ∃ es : List γ, l = es.map g ∧ ∀ e ∈ es, P e
  | [], _ => ⟨[], rfl, by simp⟩
  | x :: l, h => by
    obtain ⟨e, he, rfl⟩ := h x (by simp)
    obtain ⟨es, rfl, hes⟩ := exists_eq_map l fun y hy => h y (List.mem_cons_of_mem _ hy)
    refine ⟨e :: es, rfl, fun e' he' => ?_⟩
    rcases List.mem_cons.mp he' with rfl | he'
    · exact he
    · exact hes e' he'

/-- The entries of the map are the encoded entries of the table. -/
structure Holds (enc : Encoding κ α ι β) (m : SortedMap κ α) (f : ι → Option β) : Prop where
  valid : ∀ {i b}, f i = some b → enc.index i ∧ enc.value b
  at_key : ∀ {i}, enc.index i → m.get? (enc.key i) = (f i).map enc.val
  covered : ∀ {k a}, m.get? k = some a → ∃ i, enc.index i ∧ enc.key i = k

namespace Holds

variable {enc : Encoding κ α ι β} {m : SortedMap κ α} {f : ι → Option β}

theorem empty (enc : Encoding κ α ι β) : Holds enc (.empty : SortedMap κ α) fun _ => none where
  valid h := by cases h
  at_key _ := rfl
  covered h := by cases h

theorem get? (h : Holds enc m f) {k : κ} {a : α} (hk : m.get? k = some a) :
    ∃ i b, f i = some b ∧ enc.key i = k ∧ enc.val b = a := by
  obtain ⟨i, hi, rfl⟩ := h.covered hk
  rw [h.at_key hi] at hk
  obtain ⟨b, hb, rfl⟩ := Option.map_eq_some_iff.mp hk
  exact ⟨i, b, hb, rfl, rfl⟩

theorem off [DecidableEq ι] (h : Holds enc m f) (hi : enc.index i) {m' : SortedMap κ α} (o : Option β)
    (ho : ∀ b, o = some b → enc.value b) (hat : m'.get? (enc.key i) = o.map enc.val)
    (hoff : ∀ k, enc.key i ≠ k → m'.get? k = m.get? k) : Holds enc m' (Function.update f i o) where
  valid := by
    intro j b hj
    by_cases hij : j = i
    · subst hij
      rw [Function.update_self] at hj
      exact ⟨hi, ho b hj⟩
    · rw [Function.update_of_ne hij] at hj
      exact h.valid hj
  at_key := by
    intro j hj
    by_cases hij : j = i
    · subst hij
      rw [Function.update_self, hat]
    · have hne : enc.key i ≠ enc.key j := fun he => hij (enc.inj hj hi he.symm)
      rw [Function.update_of_ne hij, hoff _ hne, h.at_key hj]
  covered := by
    intro k a hk
    by_cases he : enc.key i = k
    · exact ⟨i, hi, he⟩
    · rw [hoff k he] at hk
      exact h.covered hk

theorem insert [DecidableEq ι] (h : Holds enc m f) (hi : enc.index i) {b : β} (hb : enc.value b) :
    Holds enc (m.insert (enc.key i) (enc.val b)) (Function.update f i (some b)) := by
  refine h.off hi (some b) (fun b' hb' => ?_) ?_ fun k hk => ?_
  · cases hb'
    exact hb
  · simp
  · simp [get?_insert, hk]

theorem erase [DecidableEq ι] (h : Holds enc m f) (hi : enc.index i) :
    Holds enc (m.erase (enc.key i)) (Function.update f i none) := by
  refine h.off hi none (fun b hb => by cases hb) ?_ fun k hk => ?_
  · simp [get?_erase]
  · simp [get?_erase, hk]

theorem mem_entries (h : Holds enc m f) {b : β} (hf : f i = some b) : enc.entry (i, b) ∈ m.entries := by
  rw [Encoding.entry, ← get?_eq_some_iff, h.at_key (h.valid hf).1, hf]
  rfl

theorem entries (h : Holds enc m f) :
    ∃ es : List (ι × β), m.entries = es.map enc.entry ∧ (∀ e, e ∈ es ↔ f e.1 = some e.2) ∧
      es.Pairwise fun a b => enc.key a.1 < enc.key b.1 := by
  obtain ⟨es, hes, hmem⟩ := exists_eq_map (g := enc.entry) (P := fun e => f e.1 = some e.2) m.entries
    fun x hx => by
      obtain ⟨i, b, hf, hk, hv⟩ := h.get? ((get?_eq_some_iff m x.1 x.2).mpr hx)
      exact ⟨(i, b), hf, Prod.ext hk hv⟩
  refine ⟨es, hes, fun e => ⟨hmem e, fun hf => ?_⟩, ?_⟩
  · obtain ⟨e', he', heq⟩ := List.mem_map.mp (hes ▸ h.mem_entries hf)
    have hi : e'.1 = e.1 :=
      enc.inj (h.valid (hmem e' he')).1 (h.valid hf).1 (congrArg Prod.fst heq)
    have hb : e'.2 = e.2 := Option.some.inj ((hmem e' he').symm.trans ((congrArg f hi).trans hf))
    rwa [← Prod.ext hi hb]
  · have hs := m.sorted
    rw [hes, List.pairwise_map] at hs
    exact hs

theorem range (h : Holds enc m f) (lo hi : κ) :
    ∃ es : List (ι × β), m.range lo hi = es.map enc.entry ∧
      (∀ e, e ∈ es ↔ f e.1 = some e.2 ∧ lo ≤ enc.key e.1 ∧ enc.key e.1 < hi) ∧
      es.Pairwise fun a b => enc.key a.1 < enc.key b.1 := by
  obtain ⟨es, hes, hmem, hsorted⟩ := h.entries
  refine ⟨es.filter fun e => lo ≤ enc.key e.1 ∧ enc.key e.1 < hi, ?_, fun e => ?_, hsorted.filter _⟩
  · unfold SortedMap.range
    rw [hes, List.filter_map]
    rfl
  · rw [List.mem_filter, hmem, decide_eq_true_eq]

end Holds

/-- The entries of the map are the encoded entries of a list with one entry for an index. -/
structure HoldsList (enc : Encoding κ α ι β) (m : SortedMap κ α) (l : List (ι × β)) : Prop where
  nodup : (l.map Prod.fst).Nodup
  table : ∃ f, Holds enc m f ∧ ∀ i b, f i = some b ↔ (i, b) ∈ l

namespace HoldsList

variable {enc : Encoding κ α ι β} {m : SortedMap κ α} {l : List (ι × β)}

theorem empty (enc : Encoding κ α ι β) : HoldsList enc (.empty : SortedMap κ α) [] :=
  ⟨List.nodup_nil, _, .empty enc, by simp⟩

theorem insert [DecidableEq ι] (h : HoldsList enc m l) (hi : enc.index i) {b : β} (hb : enc.value b) :
    HoldsList enc (m.insert (enc.key i) (enc.val b)) ((l.filter fun e => e.1 ≠ i) ++ [(i, b)]) := by
  obtain ⟨hn, f, hf, hl⟩ := h
  refine ⟨?_, _, hf.insert hi hb, fun j c => ?_⟩
  · rw [List.map_append, List.nodup_append]
    refine ⟨(List.filter_sublist.map _).nodup hn, by simp, fun j hj k hk => ?_⟩
    obtain ⟨e, he, rfl⟩ := List.mem_map.mp hj
    have hne := (List.mem_filter.mp he).2
    rw [decide_eq_true_eq] at hne
    simp only [List.map_cons, List.map_nil, List.mem_singleton] at hk
    rw [hk]
    exact hne
  · by_cases hj : j = i
    · subst hj
      rw [Function.update_self]
      simp [eq_comm]
    · rw [Function.update_of_ne hj, hl]
      simp [hj]

theorem insert_fresh [DecidableEq ι] (h : HoldsList enc m l) (hi : enc.index i) {b : β} (hb : enc.value b)
    (hfresh : i ∉ l.map Prod.fst) : HoldsList enc (m.insert (enc.key i) (enc.val b)) (l ++ [(i, b)]) := by
  have hkeep : (l.filter fun e => e.1 ≠ i) = l := by
    refine List.filter_eq_self.mpr fun e he => ?_
    rw [decide_eq_true_eq]
    exact fun heq => hfresh (heq ▸ List.mem_map_of_mem he)
  rw [← hkeep]
  exact h.insert hi hb

theorem range (h : HoldsList enc m l) (lo hi : κ) :
    ∃ es : List (ι × β), m.range lo hi = es.map enc.entry ∧
      es.Perm (l.filter fun e => lo ≤ enc.key e.1 ∧ enc.key e.1 < hi) := by
  obtain ⟨hn, f, hf, hl⟩ := h
  obtain ⟨es, hes, hmem, hsorted⟩ := hf.range lo hi
  refine ⟨es, hes, (List.perm_ext_iff_of_nodup ?_ ((List.Nodup.of_map _ hn).filter _)).mpr fun e => ?_⟩
  · exact hsorted.imp fun {a b} hab (he : a = b) => (he ▸ hab).ne rfl
  · rw [hmem, hl, List.mem_filter, decide_eq_true_eq]

theorem valid (h : HoldsList enc m l) {e : ι × β} (he : e ∈ l) : enc.index e.1 ∧ enc.value e.2 := by
  obtain ⟨-, f, hf, hl⟩ := h
  exact hf.valid ((hl e.1 e.2).mpr he)

end HoldsList

end SortedMap
