import KrabkaStreams.Stores.Cache
import Mathlib.Data.List.Induction

/-!
# What a cached store reads as

A cache over a map reads as the one map `view`. The restore path writes below the cache: it reaches the
view where nothing is staged, and is hidden where an entry is (`get?_view_applyInner`).
-/

namespace KrabkaStreams

theorem get?_putOrDelete (m : SortedMap Bytes Bytes) (k k' : Bytes) (v : Option Bytes) :
    (putOrDelete m k v).get? k' = if k = k' then v else m.get? k' := by
  cases v <;> by_cases h : k = k' <;> simp [putOrDelete, SortedMap.get?_erase, SortedMap.get?_insert, h]

namespace NamedCache

theorem lookup_dirtyEntries (c : NamedCache) (k : Bytes) :
    SortedMap.lookupList c.dirtyEntries k = if k ∈ c.dirty then c.map.get? k else none := by
  unfold dirtyEntries
  induction c.dirty with
  | nil => rfl
  | cons d ds ih =>
    rcases hd : c.map.get? d with _ | e
    · rw [List.filterMap_cons_none (by simp [hd]), ih]
      by_cases h : k = d
      · subst h
        simp [hd]
      · simp [h]
    · rw [List.filterMap_cons_some (b := (d, e)) (by simp [hd])]
      by_cases h : k = d
      · subst h
        simp [SortedMap.lookupList, hd]
      · simp only [SortedMap.lookupList, if_neg (Ne.symm h), ih, List.mem_cons, h, false_or]

theorem nodup_dirtyEntries (c : NamedCache) : (c.dirtyEntries.map Prod.fst).Nodup := by
  have hsub : (c.dirtyEntries.map Prod.fst).Sublist c.dirty := by
    unfold dirtyEntries
    induction c.dirty with
    | nil => exact List.Sublist.slnil
    | cons d ds ih =>
      rcases hd : c.map.get? d with _ | e
      · rw [List.filterMap_cons_none (by simp [hd])]
        exact ih.cons d
      · rw [List.filterMap_cons_some (b := (d, e)) (by simp [hd])]
        exact ih.cons_cons d
  exact hsub.nodup c.nodup

end NamedCache

variable (c : CachingKeyValueStore) (k : Bytes)

namespace CachingKeyValueStore

theorem get?_overlay (inner : SortedMap Bytes Bytes) {staged : List (Bytes × LruCacheEntry)}
    (hn : (staged.map Prod.fst).Nodup) (k : Bytes) :
    (overlay inner staged).get? k
      = (SortedMap.lookupList staged k).elim (inner.get? k) LruCacheEntry.value := by
  refine SortedMap.get?_foldl LruCacheEntry.value (fun m e => ?_) (fun m e k h => ?_) staged inner k hn
  · rw [get?_putOrDelete, if_pos rfl]
  · rw [get?_putOrDelete, if_neg h]

def view : SortedMap Bytes Bytes := overlay c.inner c.cache.map.entries

theorem get?_view : c.view.get? k = (c.cache.map.get? k).elim (c.inner.get? k) LruCacheEntry.value :=
  get?_overlay c.inner c.cache.map.nodup_keys k

theorem get_eq_view : c.get k = c.view.get? k := by
  rw [get?_view]
  unfold get
  cases c.cache.map.get? k <;> rfl

theorem scanAll_eq_view : c.scanAll = c.view.entries := rfl

theorem seed_eq_between (m : SortedMap Bytes Bytes) (lo hi : Bytes) :
    (m.range lo hi).foldl (fun m e => m.insert e.1 e.2) SortedMap.empty = m.between lo hi := by
  refine SortedMap.ext_get? fun k => ?_
  refine (SortedMap.get?_foldl some (fun m e => ?_) (fun m e k h => ?_) _ _ k
    (m.between lo hi).nodup_keys).trans ?_
  · rw [SortedMap.get?_insert, if_pos rfl]
  · rw [SortedMap.get?_insert, if_neg h]
  · show ((m.between lo hi).get? k).elim none some = _
    cases (m.between lo hi).get? k <;> rfl

theorem range_eq_view {lo hi : Bytes} (h : lo ≤ hi) : c.range lo hi = .ok (c.view.range lo hi) := by
  have hcut : c.cache.range lo hi = .ok (c.cache.map.range lo hi) := by
    unfold NamedCache.range
    rw [if_neg (not_lt.mpr h)]
  have hmaps : overlay (c.inner.between lo hi) (c.cache.map.range lo hi) = c.view.between lo hi := by
    refine SortedMap.ext_get? fun k => ?_
    refine (get?_overlay _ (c.cache.map.between lo hi).nodup_keys k).trans ?_
    show ((c.cache.map.between lo hi).get? k).elim ((c.inner.between lo hi).get? k) _ = _
    by_cases hk : lo ≤ k ∧ k < hi
    · rw [SortedMap.get?_between hk, SortedMap.get?_between hk, SortedMap.get?_between hk, get?_view]
    · rw [SortedMap.get?_between_eq_none hk, SortedMap.get?_between_eq_none hk,
        SortedMap.get?_between_eq_none hk]
      rfl
  unfold range
  rw [seed_eq_between, hcut]
  exact congrArg (fun m => Except.ok m.entries) hmaps

theorem readsAs_iff (m : SortedMap Bytes Bytes) : c.ReadsAs m ↔ c.view = m := by
  constructor
  · intro h
    exact SortedMap.ext_get? fun k => (get_eq_view c k).symm.trans (h.get k)
  · rintro rfl
    exact ⟨get_eq_view c, fun lo hi h => range_eq_view c h, scanAll_eq_view c⟩

/-! The operations on the view -/

theorem view_put (k v : Bytes) (ctx : RecordContext) : (c.put k v ctx).view = c.view.insert k v := by
  refine SortedMap.ext_get? fun k' => ?_
  rw [get?_view, SortedMap.get?_insert, get?_view]
  simp only [put, NamedCache.put, SortedMap.get?_insert]
  by_cases h : k = k' <;> simp [h]

theorem view_delete (ctx : RecordContext) : (c.delete k ctx).view = c.view.erase k := by
  refine SortedMap.ext_get? fun k' => ?_
  rw [get?_view, SortedMap.get?_erase, get?_view]
  simp only [delete, NamedCache.delete, NamedCache.put, SortedMap.get?_insert]
  by_cases h : k = k' <;> simp [h]

theorem writeThrough_eq_overlay : ∀ (es : List (Bytes × LruCacheEntry)) (inner : SortedMap Bytes Bytes),
    (writeThrough es inner).2 = overlay inner es
  | [], _ => rfl
  | (k, e) :: es, inner => writeThrough_eq_overlay es (putOrDelete inner k e.value)

theorem view_flush : c.flushWithOld.2.view = c.view := by
  refine SortedMap.ext_get? fun k => ?_
  rw [get?_view, get?_view]
  have hcache : c.flushWithOld.2.cache.map.get? k = (c.cache.map.get? k).map fun e =>
      if k ∈ c.cache.dirty then { e with dirty := false } else e :=
    SortedMap.get?_mapValues _ c.cache.map k
  rw [hcache]
  rcases hk : c.cache.map.get? k with _ | e
  · have hdirty : k ∉ c.cache.dirty := fun hm => by
      obtain ⟨e, he, -⟩ := (c.cache.mem_dirty k).mp hm
      rw [hk] at he
      cases he
    show (writeThrough c.cache.dirtyEntries c.inner).2.get? k = c.inner.get? k
    rw [writeThrough_eq_overlay, get?_overlay _ c.cache.nodup_dirtyEntries,
      NamedCache.lookup_dirtyEntries, if_neg hdirty]
    rfl
  · simp only [Option.map_some]
    split <;> rfl

theorem get?_view_applyInner (v : Option Bytes) (k' : Bytes) :
    (c.applyInner k v).view.get? k' = (c.cache.map.get? k').elim
      (if k = k' then v else c.inner.get? k') LruCacheEntry.value := by
  rw [get?_view, ← get?_putOrDelete]
  rfl

theorem view_applyInner_iff (v : Option Bytes) :
    (c.applyInner k v).view = putOrDelete c.view k v ↔
      (c.cache.map.get? k).map LruCacheEntry.value = none ∨
        (c.cache.map.get? k).map LruCacheEntry.value = some v := by
  constructor
  · intro h
    have hk := congrArg (SortedMap.get? · k) h
    simp only [get?_view_applyInner, get?_putOrDelete, if_true] at hk
    rcases hc : c.cache.map.get? k with _ | e
    · exact .inl rfl
    · rw [hc] at hk
      exact .inr (congrArg some hk)
  · intro h
    refine SortedMap.ext_get? fun k' => ?_
    rw [get?_view_applyInner, get?_putOrDelete, get?_view]
    by_cases hkk : k = k'
    · subst hkk
      rcases hc : c.cache.map.get? k with _ | e
      · rfl
      · rw [hc] at h
        simpa using h
    · simp only [if_neg hkk]

end CachingKeyValueStore

/-! What a flush writes through -/

namespace CachingKeyValueStore

theorem writeThrough_fst : ∀ (es : List (Bytes × LruCacheEntry)) (inner : SortedMap Bytes Bytes),
    (es.map Prod.fst).Nodup →
      (writeThrough es inner).1 = es.map fun e => (e.1, inner.get? e.1, e.2.value, e.2.context)
  | [], _, _ => rfl
  | (k, e) :: es, inner, h => by
    obtain ⟨hfresh, htail⟩ := List.nodup_cons.mp h
    have hsame : ∀ e' ∈ es, (putOrDelete inner k e.value).get? e'.1 = inner.get? e'.1 := by
      intro e' he'
      have hne : k ≠ e'.1 := fun heq => hfresh (List.mem_map.mpr ⟨e', he', heq.symm⟩)
      rw [get?_putOrDelete, if_neg hne]
    show _ :: (writeThrough es (putOrDelete inner k e.value)).1 = _
    rw [writeThrough_fst es _ htail, List.map_cons]
    exact congrArg _ (List.map_congr_left fun e' he' => by rw [hsame e' he'])

end CachingKeyValueStore

namespace NamedCache

def contextOf (c : NamedCache) (k : Bytes) : RecordContext :=
  ((c.map.get? k).map LruCacheEntry.context).getD ⟨"", -1, -1, 0⟩

end NamedCache

namespace CachingKeyValueStore

theorem flushWithOld_fst :
    c.flushWithOld.1 = c.cache.dirty.map fun k =>
      (k, c.inner.get? k, c.view.get? k, c.cache.contextOf k) := by
  have hmem : ∀ k ∈ c.cache.dirty, ∃ e, c.cache.map.get? k = some e := fun k hk =>
    (((c.cache.mem_dirty k).mp hk).imp fun _ h => h.1)
  show (writeThrough c.cache.dirtyEntries c.inner).1 = _
  rw [writeThrough_fst _ _ c.cache.nodup_dirtyEntries]
  unfold NamedCache.dirtyEntries
  rw [List.map_filterMap]
  refine (List.filterMap_congr fun k hk => ?_).trans (congrFun List.filterMap_eq_map _)
  obtain ⟨e, he⟩ := hmem k hk
  have hview : c.view.get? k = e.value := by
    rw [get?_view, he]
    rfl
  simp only [Function.comp, NamedCache.contextOf, he, hview]
  rfl

theorem inner_flushWithOld (h : ∀ k, k ∉ c.cache.dirty → c.view.get? k = c.inner.get? k) :
    c.flushWithOld.2.inner = c.view := by
  refine SortedMap.ext_get? fun k => ?_
  show (writeThrough c.cache.dirtyEntries c.inner).2.get? k = _
  rw [writeThrough_eq_overlay, get?_overlay _ c.cache.nodup_dirtyEntries, c.cache.lookup_dirtyEntries]
  by_cases hk : k ∈ c.cache.dirty
  · rw [if_pos hk, get?_view]
  · rw [if_neg hk, h k hk]
    rfl

end CachingKeyValueStore

namespace CachingKeyValueStore

theorem flushWithOld_entries : c.flushWithOld.1 = c.cache.dirtyEntries.map fun e =>
    (e.1, c.inner.get? e.1, e.2.value, e.2.context) :=
  writeThrough_fst _ _ c.cache.nodup_dirtyEntries

theorem exists_of_mem_dirty {k : Bytes} (hk : k ∈ c.cache.dirty) :
    ∃ e, c.cache.map.get? k = some e ∧ c.view.get? k = e.value ∧ c.cache.contextOf k = e.context ∧
      c.flushWithOld.2.inner.get? k = e.value := by
  obtain ⟨e, he, -⟩ := (c.cache.mem_dirty k).mp hk
  refine ⟨e, he, ?_, ?_, ?_⟩
  · rw [get?_view, he]
    rfl
  · unfold NamedCache.contextOf
    rw [he]
    rfl
  · show (writeThrough c.cache.dirtyEntries c.inner).2.get? k = _
    rw [writeThrough_eq_overlay, get?_overlay _ c.cache.nodup_dirtyEntries, c.cache.lookup_dirtyEntries, if_pos hk, he]
    rfl

end CachingKeyValueStore

namespace StoreOp

open CachingKeyValueStore

theorem value_staged (key : Bytes) (inner : SortedMap Bytes Bytes) :
    ∀ ops : List StoreOp,
      ((ops.foldl perform ⟨.new, inner⟩).cache.map.get? key).map LruCacheEntry.value
        = lastStaged ops key := by
  intro ops
  induction ops using List.reverseRecOn with
  | nil => rfl
  | append_singleton ops op ih =>
    rw [List.foldl_append]
    have hlast : lastStaged (ops ++ [op]) key = (stages key op).or (lastStaged ops key) := by
      simp [lastStaged, List.findSome?_cons, Option.or]
      cases stages key op <;> rfl
    rw [hlast]
    set c := ops.foldl perform ⟨.new, inner⟩ with hc
    cases op with
    | put k v ctx =>
      by_cases hk : k = key <;>
        simp [perform, stages, CachingKeyValueStore.put, NamedCache.put, SortedMap.get?_insert, hk, ih]
    | delete k ctx =>
      by_cases hk : k = key <;>
        simp [perform, stages, CachingKeyValueStore.delete, NamedCache.delete, NamedCache.put,
          SortedMap.get?_insert, hk, ih]
    | flush =>
      have hclean : (perform c .flush).cache.map.get? key = (c.cache.map.get? key).map fun e =>
          if key ∈ c.cache.dirty then { e with dirty := false } else e :=
        SortedMap.get?_mapValues _ c.cache.map key
      show ((perform c .flush).cache.map.get? key).map LruCacheEntry.value = lastStaged ops key
      rw [hclean, ← ih]
      rcases c.cache.map.get? key with _ | e
      · rfl
      · simp only [Option.map_some]
        split <;> rfl
    | applyChangelog k v => exact ih

theorem view_perform (op : StoreOp)
    (h : ∀ k v, op = .applyChangelog k v → (c.applyInner k v).view = putOrDelete c.view k v) :
    (perform c op).view = onMap c.view op := by
  cases op with
  | put k v ctx => exact view_put c k v ctx
  | delete k ctx => exact view_delete c k ctx
  | flush => exact view_flush c
  | applyChangelog k v => exact h k v rfl

end StoreOp

/-- The reads are those of one plain map, after every part of the history, exactly when every restored
record finds nothing else staged for its key. -/
theorem restoreVisible_iff_restoresRepeatStaged (inner : SortedMap Bytes Bytes) (ops : List StoreOp) :
    RestoreVisible inner ops ↔ RestoresRepeatStaged ops := by
  unfold RestoreVisible RestoresRepeatStaged
  simp only [CachingKeyValueStore.readsAs_iff]
  constructor
  · intro h done k v hpre
    have hbefore := h done ((List.prefix_append _ _).trans hpre)
    have hafter := h _ hpre
    rw [List.foldl_append, List.foldl_append, ← hbefore] at hafter
    rw [← StoreOp.value_staged k inner done]
    exact (CachingKeyValueStore.view_applyInner_iff _ k v).mp hafter
  · intro h done
    induction done using List.reverseRecOn with
    | nil => exact fun _ => SortedMap.ext_get? fun k => CachingKeyValueStore.get?_view _ k
    | append_singleton done op ih =>
      intro hpre
      rw [List.foldl_append, List.foldl_append, ← ih ((List.prefix_append _ _).trans hpre)]
      refine StoreOp.view_perform _ op fun k v hop => ?_
      subst hop
      rw [CachingKeyValueStore.view_applyInner_iff, StoreOp.value_staged]
      exact h done k v hpre

/-- A store that was flushed, demoted, fed and promoted again: the clean entry hides what was fed. -/
def demotedHistory : List StoreOp :=
  [.put [97] [1] ⟨"in", 0, 0, 5⟩, .flush, .applyChangelog [97] (some [2])]

theorem not_restoreVisible_demotedHistory :
    RestoresWhenClean .empty demotedHistory ∧ ¬ RestoreVisible .empty demotedHistory := by
  constructor
  · intro done k v h
    rcases done with _ | ⟨a, _ | ⟨b, _ | ⟨c, d⟩⟩⟩
    · simp [demotedHistory] at h
    · simp [demotedHistory] at h
    · obtain ⟨rfl, rfl, -⟩ : a = .put [97] [1] ⟨"in", 0, 0, 5⟩ ∧ b = .flush ∧ _ := by
        simpa [demotedHistory] using h
      rfl
    · have hlen := h.length_le
      simp only [demotedHistory, List.length_append, List.length_cons, List.length_nil] at hlen
      omega
  · intro h
    have hget := (h demotedHistory List.prefix_rfl).get [97]
    exact absurd hget (by decide)

end KrabkaStreams
