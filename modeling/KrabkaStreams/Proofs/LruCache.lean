import KrabkaStreams.Lib.Runs
import KrabkaStreams.Proofs.TableCache
import KrabkaStreams.Stores.LruCache

/-!
# The record cache refines a plain map

Relinking leaves the `contents` of a cache (`Same`), so it represents its entries with the dirty keys in
order (`Represents`), and the cached store reads as the plain map (`cachedStore_refines`).
-/

namespace KrabkaStreams

variable (c : NamedCache) {e : LruCacheEntry}

namespace Lru

open Runs

variable {n : Node}

namespace NamedCache

def contents : SortedMap Bytes (LruCacheEntry × Option Nat) :=
  c.map.mapValues fun _ n => (n.entry, n.dirtySeq)

variable (k : Bytes)

def entryBytes (x : LruCacheEntry × Option Nat) : Nat := k.length + x.1.valueSize

structure Same (c c' : NamedCache) : Prop where
  contents : c'.contents = c.contents
  dirty : c'.dirty = c.dirty
  nextDirtySeq : c'.nextDirtySeq = c.nextDirtySeq
  sizeBytes : c'.sizeBytes = c.sizeBytes

theorem get?_contents :
    c.contents.get? k = (c.map.get? k).map fun n => (n.entry, n.dirtySeq) := SortedMap.get?_mapValues ..

theorem Same.trans {c c' c'' : NamedCache} (h : Same c c') (h' : Same c' c'') : Same c c'' :=
  ⟨h'.contents.trans h.contents, h'.dirty.trans h.dirty, h'.nextDirtySeq.trans h.nextDirtySeq,
    h'.sizeBytes.trans h.sizeBytes⟩

theorem same_relink {f : Node → Node} (h : ∀ n, ((f n).entry, (f n).dirtySeq) = (n.entry, n.dirtySeq)) :
    Same c { c with map := c.map.adjust k f } :=
  ⟨SortedMap.mapValues_adjust h c.map, rfl, rfl, rfl⟩

theorem same_linkAtTail : Same c (c.linkAtTail k) := by
  rcases c with ⟨map, head, _ | t, dirty, next, size⟩
  · have hkey := same_relink ⟨map, head, none, dirty, next, size⟩ k
      (f := fun n => { n with prev := none, next := none }) fun _ => rfl
    exact hkey.trans ⟨rfl, rfl, rfl, rfl⟩
  · have hkey := same_relink ⟨map, head, some t, dirty, next, size⟩ k
      (f := fun n => { n with prev := some t, next := none }) fun _ => rfl
    have htail := same_relink ⟨map.adjust k fun n => { n with prev := some t, next := none }, head, some t, dirty,
      next, size⟩ t (f := fun n => { n with next := some k }) fun _ => rfl
    exact (hkey.trans htail).trans ⟨rfl, rfl, rfl, rfl⟩

theorem same_bypassPrev (n : Node) : Same c (c.bypassPrev n) := by
  unfold bypassPrev
  rcases n.prev with _ | p
  · exact ⟨rfl, rfl, rfl, rfl⟩
  · exact same_relink c p fun _ => rfl

theorem same_bypassNext (n : Node) : Same c (c.bypassNext n) := by
  unfold bypassNext
  rcases n.next with _ | x
  · exact ⟨rfl, rfl, rfl, rfl⟩
  · exact same_relink c x fun _ => rfl

theorem same_unlink {c : NamedCache} {k : Bytes} (h : c.map.get? k = some n) :
    ∃ c', c.unlink k = .ok c' ∧ Same c c' := by
  unfold unlink
  rw [h]
  refine ⟨_, rfl, (same_bypassPrev c n).trans ((same_bypassNext _ n).trans ?_)⟩
  exact same_relink _ k fun _ => rfl

theorem same_promote {c : NamedCache} {k : Bytes} (h : c.map.get? k = some n) :
    ∃ c', c.unlink k = .ok c' ∧ Same c (c'.linkAtTail k) := by
  obtain ⟨c', hunlink, hsame⟩ := same_unlink h
  exact ⟨c', hunlink, hsame.trans (same_linkAtTail c' k)⟩

/-- The cache holds the entries of `a`, and its dirty keys in their order. -/
structure Represents (a : KrabkaStreams.NamedCache) : Prop where
  map : c.contents.mapValues (fun _ x => x.1) = a.map
  dirty : c.dirty.entries.map Prod.snd = a.dirty
  fresh : ∀ e ∈ c.dirty.entries, e.1 < c.nextDirtySeq
  tracked : ∀ {k x}, c.contents.get? k = some x → (x.2.isSome ↔ x.1.dirty = true)
  size : c.sizeBytes = c.contents.weight entryBytes

variable {c : NamedCache} {a : KrabkaStreams.NamedCache}

theorem Represents.new : Represents .new .new where
  map := rfl
  dirty := rfl
  fresh _ h := absurd h List.not_mem_nil
  tracked h := nomatch h
  size := rfl

theorem Represents.of_same {c' : NamedCache} (h : Represents c a) (hs : Same c c') : Represents c' a where
  map := hs.contents ▸ h.map
  dirty := hs.dirty ▸ h.dirty
  fresh := by
    rw [hs.dirty, hs.nextDirtySeq]
    exact h.fresh
  tracked hk := h.tracked (hs.contents ▸ hk)
  size := by rw [hs.sizeBytes, hs.contents, h.size]

theorem Represents.get? (h : Represents c a) (k : Bytes) : a.map.get? k = (c.map.get? k).map Node.entry := by
  rw [← h.map, SortedMap.get?_mapValues, get?_contents, Option.map_map]
  rfl

theorem Represents.getPromote (h : Represents c a) (k : Bytes) :
    ∃ c', c.getPromote k = .ok (a.map.get? k, c') ∧ Represents c' a := by
  unfold NamedCache.getPromote
  rcases hk : c.map.get? k with _ | n
  · refine ⟨c, ?_, h⟩
    rw [h.get?, hk]
    rfl
  · obtain ⟨c', hunlink, hsame⟩ := same_promote hk
    have h' := h.of_same hsame
    refine ⟨c'.linkAtTail k, ?_, h'⟩
    rw [hunlink, h'.get?]
    rfl

theorem Represents.track_last (h : Represents c a) {k : Bytes} (hk : k ∉ a.dirty) :
    (c.dirty.insert c.nextDirtySeq k).entries.map Prod.snd = KrabkaStreams.NamedCache.track a.dirty k true := by
  rw [SortedMap.entries_insert_last _ h.fresh, List.map_append, h.dirty]
  unfold KrabkaStreams.NamedCache.track
  rw [if_pos rfl, if_neg hk]
  rfl

theorem fresh_insert {d : SortedMap Nat Bytes} {next : Nat} (h : ∀ e ∈ d.entries, e.1 < next) (k : Bytes) :
    ∀ e ∈ (d.insert next k).entries, e.1 < next + 1 := by
  rw [SortedMap.entries_insert_last _ h]
  intro e he
  rcases List.mem_append.mp he with he | he
  · exact (h e he).trans (Nat.lt_succ_self next)
  · rw [List.mem_singleton.mp he]
    exact Nat.lt_succ_self next

theorem Represents.written (h : Represents c a) {k : Bytes} (he : e.dirty = true) {c' : NamedCache}
    (seq : Nat) (hcontents : c'.contents = c.contents.insert k (e, some seq))
    (hdirty : c'.dirty.entries.map Prod.snd = (a.put k e).dirty)
    (hfresh : ∀ x ∈ c'.dirty.entries, x.1 < c'.nextDirtySeq)
    (hsize : c'.sizeBytes + (c.contents.get? k).elim 0 (entryBytes k) = c.sizeBytes + (k.length + e.valueSize)) :
    Represents c' (a.put k e) where
  map := by
    rw [hcontents, SortedMap.mapValues_insert, h.map]
    rfl
  dirty := hdirty
  fresh := hfresh
  tracked := by
    intro k' x hx
    rw [hcontents, SortedMap.get?_insert] at hx
    split at hx
    · cases hx
      simp [he]
    · exact h.tracked hx
  size := by
    have hweight := SortedMap.weight_insert entryBytes c.contents k (e, some seq)
    rw [← hcontents, ← h.size, show entryBytes k (e, some seq) = k.length + e.valueSize from rfl] at hweight
    omega

theorem Represents.mem_dirty (h : Represents c a) {k : Bytes} (hk : c.map.get? k = some n) :
    k ∈ a.dirty ↔ n.dirtySeq.isSome := by
  have htracked := h.tracked (k := k) (x := (n.entry, n.dirtySeq)) (by rw [get?_contents, hk]; rfl)
  rw [a.mem_dirty, h.get?, hk, htracked]
  simp

theorem Represents.insertNew (h : Represents c a) {k : Bytes} (hk : c.map.get? k = none) (he : e.dirty = true) :
    Represents (c.insertNew k e) (a.put k e) := by
  have hclean : k ∉ a.dirty := fun hm => by
    obtain ⟨e', he', -⟩ := (a.mem_dirty k).mp hm
    rw [h.get?, hk] at he'
    cases he'
  obtain ⟨v, d, ctx⟩ := e
  obtain rfl : d = true := he
  refine Represents.of_same ?_ (same_linkAtTail _ k)
  refine h.written rfl c.nextDirtySeq (SortedMap.mapValues_insert ..) (h.track_last hclean)
    (fresh_insert h.fresh k) ?_
  rw [get?_contents, hk]
  rfl

theorem Represents.retrack (h : Represents c a) {k : Bytes} (hk : c.map.get? k = some n) (he : e.dirty = true)
    (size : Nat)
    (hsize : size + (c.contents.get? k).elim 0 (entryBytes k) = c.sizeBytes + (k.length + e.valueSize)) :
    Represents ({ c with sizeBytes := size, map := c.map.insert k { n with entry := e } }.retrack k n.dirtySeq true)
      (a.put k e) := by
  have hmem := h.mem_dirty hk
  have htrack : (a.put k e).dirty = KrabkaStreams.NamedCache.track a.dirty k true := by
    rw [← he]
    rfl
  rcases n with ⟨old, prev, next, _ | seq⟩
  · have hclean : k ∉ a.dirty := fun hm => absurd (hmem.mp hm) (by simp)
    refine h.written he c.nextDirtySeq ?_ (htrack ▸ h.track_last hclean) (fresh_insert h.fresh k) hsize
    refine SortedMap.ext_get? fun k' => ?_
    rw [get?_contents, SortedMap.get?_insert, get?_contents]
    show (((c.map.insert k ⟨e, prev, next, none⟩).adjust k fun n => { n with dirtySeq := some c.nextDirtySeq }).get?
      k').map _ = _
    rw [SortedMap.get?_adjust, SortedMap.get?_insert]
    by_cases hkk : k = k'
    · simp [hkk]
    · simp [hkk]
  · have hdirty : k ∈ a.dirty := hmem.mpr rfl
    refine h.written he seq (SortedMap.mapValues_insert ..) ?_ h.fresh hsize
    rw [htrack]
    unfold KrabkaStreams.NamedCache.track
    rw [if_pos rfl, if_pos hdirty]
    exact h.dirty

theorem Represents.update (h : Represents c a) {k : Bytes} (hk : c.map.get? k = some n) (he : e.dirty = true) :
    ∃ c', c.update k n e = .ok c' ∧ Represents c' (a.put k e) := by
  have hcontents : c.contents.get? k = some (n.entry, n.dirtySeq) := by
    rw [get?_contents, hk]
    rfl
  -- the bytes of the old entry are counted
  have hbytes : k.length + n.entry.valueSize ≤ c.sizeBytes := by
    rw [h.size]
    exact SortedMap.le_weight entryBytes hcontents
  have htracked := h.retrack hk he (c.sizeBytes - n.entry.valueSize + e.valueSize) (by
    rw [hcontents]
    show c.sizeBytes - n.entry.valueSize + e.valueSize + (k.length + n.entry.valueSize) = _
    omega)
  obtain ⟨n', hn', -⟩ := Option.map_eq_some_iff.mp ((htracked.get? k).symm.trans (SortedMap.get?_insert_self ..))
  obtain ⟨c', hunlink, hsame⟩ := same_promote hn'
  refine ⟨c'.linkAtTail k, ?_, htracked.of_same hsame⟩
  unfold NamedCache.update
  rw [if_neg (by omega), he]
  exact bind_eq_ok.mpr ⟨c', hunlink, rfl⟩

theorem Represents.put (h : Represents c a) (k : Bytes) (he : e.dirty = true) :
    ∃ c', c.put k e = .ok c' ∧ Represents c' (a.put k e) := by
  unfold NamedCache.put
  rcases hk : c.map.get? k with _ | n
  · exact ⟨_, rfl, h.insertNew hk he⟩
  · exact h.update hk he

def cleaned (n : Node) : Node := { n with entry := { n.entry with dirty := false }, dirtySeq := none }

theorem Represents.flush (h : Represents c a) : c.flush.1 = a.flush.1 ∧ Represents c.flush.2 a.flush.2 := by
  have hmap : ∀ k, c.flush.2.map.get? k = if k ∈ a.dirty then (c.map.get? k).map cleaned else c.map.get? k := by
    intro k
    obtain ⟨hin, hout⟩ := SortedMap.get?_foldl_adjust (f := cleaned) (fun _ => rfl) a.dirty c.map k
    rw [← h.dirty] at hin hout ⊢
    split
    · exact hin ‹_›
    · exact hout ‹_›
  have hcontents : c.flush.2.contents = c.contents.mapValues fun k x =>
      if k ∈ a.dirty then ({ x.1 with dirty := false }, none) else x := by
    refine SortedMap.ext_get? fun k => ?_
    rw [get?_contents, hmap, SortedMap.get?_mapValues, get?_contents]
    by_cases hk : k ∈ a.dirty
    · simp only [if_pos hk, Option.map_map]
      rfl
    · simp only [if_neg hk, Option.map_map]
      rfl
  refine ⟨?_, ?_, rfl, fun _ he => absurd he List.not_mem_nil, ?_, ?_⟩
  · show (c.dirty.entries.map Prod.snd).filterMap _ = _
    rw [h.dirty]
    refine List.filterMap_congr fun k _ => ?_
    rw [h.get?, Option.map_map]
    rfl
  · refine SortedMap.ext_get? fun k => ?_
    show _ = (a.map.mapValues _).get? k
    rw [hcontents, SortedMap.get?_mapValues, SortedMap.get?_mapValues, SortedMap.get?_mapValues, ← h.map,
      SortedMap.get?_mapValues, Option.map_map, Option.map_map]
    refine congrArg (fun g => (c.contents.get? k).map g) (funext fun x => ?_)
    by_cases hk : k ∈ a.dirty <;> simp [hk]
  · intro k x hx
    rw [hcontents, SortedMap.get?_mapValues] at hx
    obtain ⟨x', hx', rfl⟩ := Option.map_eq_some_iff.mp hx
    by_cases hk : k ∈ a.dirty
    · simp [hk]
    · rw [if_neg hk]
      exact h.tracked hx'
  · rw [hcontents, SortedMap.weight_mapValues]
    refine h.size.trans (congrArg (fun w => c.contents.weight w) ?_)
    funext k x
    by_cases hk : k ∈ a.dirty
    · rw [if_pos hk]
      rfl
    · rw [if_neg hk]

end NamedCache

namespace CachingKeyValueStore

/-- The store is the other one with links and numbers. -/
structure Represents (s : CachingKeyValueStore) (t : KrabkaStreams.CachingKeyValueStore) : Prop where
  cache : s.cache.Represents t.cache
  inner : s.inner = t.inner

variable {s : CachingKeyValueStore} {t : KrabkaStreams.CachingKeyValueStore}

theorem Represents.get (h : Represents s t) (k : Bytes) :
    ∃ s', s.get k = .ok (t.get k, s') ∧ Represents s' t := by
  obtain ⟨c', hget, hrep⟩ := h.cache.getPromote k
  refine ⟨{ s with cache := c' }, bind_eq_ok.mpr ⟨_, hget, ?_⟩, hrep, h.inner⟩
  unfold KrabkaStreams.CachingKeyValueStore.get
  rw [← h.inner]
  cases t.cache.map.get? k <;> rfl

theorem Represents.range (h : Represents s t) (lo hi : Bytes) : s.range lo hi = t.range lo hi := by
  have hcache : s.cache.range lo hi = t.cache.range lo hi := by
    unfold NamedCache.range KrabkaStreams.NamedCache.range
    rw [← h.cache.map, SortedMap.range_mapValues]
    unfold NamedCache.contents
    rw [SortedMap.range_mapValues, List.map_map]
    rfl
  unfold CachingKeyValueStore.range KrabkaStreams.CachingKeyValueStore.range
  rw [hcache, h.inner]

theorem Represents.scanAll (h : Represents s t) : s.scanAll = t.scanAll := by
  have hall : s.cache.all = t.cache.map.entries := by
    rw [← h.cache.map]
    show _ = (s.cache.map.entries.map fun e => (e.1, e.2.entry, e.2.dirtySeq)).map fun e => (e.1, e.2.1)
    rw [List.map_map]
    rfl
  unfold CachingKeyValueStore.scanAll KrabkaStreams.CachingKeyValueStore.scanAll
  rw [hall, h.inner]

theorem Represents.flushWithOld (h : Represents s t) :
    s.flushWithOld.1 = t.flushWithOld.1 ∧ Represents s.flushWithOld.2 t.flushWithOld.2 := by
  obtain ⟨hout, hrep⟩ := h.cache.flush
  have hwrite : KrabkaStreams.CachingKeyValueStore.writeThrough s.cache.flush.1 s.inner
      = KrabkaStreams.CachingKeyValueStore.writeThrough t.cache.flush.1 t.inner := by rw [hout, h.inner]
  exact ⟨congrArg Prod.fst hwrite, hrep, congrArg Prod.snd hwrite⟩

end CachingKeyValueStore

namespace CacheOp

def plainly (t : KrabkaStreams.CachingKeyValueStore) : CacheOp → KrabkaStreams.CachingKeyValueStore
  | put k v ctx => t.put k v ctx
  | delete k ctx => t.delete k ctx
  | flush => t.flushWithOld.2
  | get _ => t

theorem perform_represents {s : CachingKeyValueStore} {t : KrabkaStreams.CachingKeyValueStore}
    (h : s.Represents t) (op : CacheOp) : ∃ s', op.perform s = .ok s' ∧ s'.Represents (op.plainly t) := by
  cases op with
  | put k v ctx =>
    obtain ⟨c', hput, hrep⟩ := h.cache.put k (e := ⟨some v, true, ctx⟩) rfl
    exact ⟨{ s with cache := c' }, bind_eq_ok.mpr ⟨c', hput, rfl⟩, hrep, h.inner⟩
  | delete k ctx =>
    obtain ⟨c', hput, hrep⟩ := h.cache.put k (e := ⟨none, true, ctx⟩) rfl
    exact ⟨{ s with cache := c' }, bind_eq_ok.mpr ⟨c', hput, rfl⟩, hrep, h.inner⟩
  | flush => exact ⟨_, rfl, h.flushWithOld.2⟩
  | get k =>
    obtain ⟨s', hget, hrep⟩ := h.get k
    refine ⟨s', ?_, hrep⟩
    show Prod.snd <$> s.get k = _
    rw [hget]
    rfl

theorem foldlM_represents : ∀ (ops : List CacheOp) {s : CachingKeyValueStore}
    {t : KrabkaStreams.CachingKeyValueStore}, s.Represents t →
    ∃ s', ops.foldlM perform s = .ok s' ∧ s'.Represents (ops.foldl plainly t)
  | [], s, _, h => ⟨s, rfl, h⟩
  | op :: ops, s, t, h => by
    obtain ⟨s₁, hstep, h₁⟩ := perform_represents h op
    obtain ⟨s', hrun, h'⟩ := foldlM_represents ops h₁
    exact ⟨s', bind_eq_ok.mpr ⟨s₁, hstep, hrun⟩, h'⟩

section History

variable (ops : List CacheOp) (op : CacheOp)

theorem recent_snoc : recent (ops ++ [op]) = if op = flush then [] else recent ops ++ [op] := by
  unfold recent
  rw [List.reverse_append, List.reverse_singleton, List.singleton_append, List.takeWhile_cons]
  by_cases h : op = flush <;> simp [h]

theorem settled_snoc : settled (ops ++ [op]) = if op = flush then ops ++ [op] else settled ops := by
  unfold settled
  rw [List.reverse_append, List.reverse_singleton, List.singleton_append, List.dropWhile_cons]
  by_cases h : op = flush <;> simp [h]

theorem dirtyKeys_snoc_write {k : Bytes} {ctx : RecordContext} (h : op.write = some (k, ctx)) :
    dirtyKeys (ops ++ [op]) = KrabkaStreams.NamedCache.track (dirtyKeys ops) k true := by
  have hne : op ≠ flush := by
    rintro rfl
    cases h
  unfold dirtyKeys KrabkaStreams.NamedCache.track
  rw [recent_snoc, if_neg hne, List.filterMap_append, List.eraseDups_append, if_pos rfl]
  simp only [List.filterMap_cons, List.filterMap_nil, h, Option.map_some, List.mem_eraseDups]
  by_cases hk : k ∈ (recent ops).filterMap fun op => op.write.map Prod.fst
  · simp [hk, List.removeAll]
  · simp [hk, List.removeAll, List.eraseDups_cons]

theorem dirtyKeys_snoc_other (h : op.write = none) (hne : op ≠ flush) : dirtyKeys (ops ++ [op]) = dirtyKeys ops := by
  unfold dirtyKeys
  rw [recent_snoc, if_neg hne, List.filterMap_append]
  simp [h]

theorem latestContext_snoc (k : Bytes) : latestContext (ops ++ [op]) k
    = ((op.write.bind fun w => if w.1 = k then some w.2 else none).or (latestContext ops k)) := by
  unfold latestContext
  rw [List.reverse_append, List.reverse_singleton, List.singleton_append, List.findSome?_cons]
  cases op.write.bind fun w => if w.1 = k then some w.2 else none <;> rfl

end History

/-- The store after a history: it reads as the plain map, what lies below the cache is the map of the last
flush, and the cache knows what was written since. -/
structure Tracks (inner : SortedMap Bytes Bytes) (ops : List CacheOp) (t : KrabkaStreams.CachingKeyValueStore) :
    Prop where
  view : t.view = mapAfter inner ops
  below : t.inner = mapAfter inner (settled ops)
  dirty : t.cache.dirty = dirtyKeys ops
  clean : ∀ k, k ∉ t.cache.dirty → t.view.get? k = t.inner.get? k
  context : ∀ {k e}, t.cache.map.get? k = some e → latestContext ops k = some e.context

variable {inner : SortedMap Bytes Bytes} {ops : List CacheOp} {t : KrabkaStreams.CachingKeyValueStore}

theorem mapAfter_snoc (inner : SortedMap Bytes Bytes) (ops : List CacheOp) (op : CacheOp) :
    mapAfter inner (ops ++ [op]) = onMap (mapAfter inner ops) op := List.foldl_append

theorem Tracks.start (inner : SortedMap Bytes Bytes) : Tracks inner [] ⟨.new, inner⟩ where
  view := rfl
  below := rfl
  dirty := rfl
  clean _ _ := rfl
  context h := nomatch h

theorem Tracks.staged (h : Tracks inner ops t) {op : CacheOp} {k : Bytes} (he : e.dirty = true)
    (hop : op.write = some (k, e.context))
    (hview : ({ t with cache := t.cache.put k e } : KrabkaStreams.CachingKeyValueStore).view = onMap (mapAfter inner ops) op) :
    Tracks inner (ops ++ [op]) { t with cache := t.cache.put k e } := by
  have hne : op ≠ flush := by
    rintro rfl
    cases hop
  have hdirty : (t.cache.put k e).dirty = KrabkaStreams.NamedCache.track t.cache.dirty k true := by
    rw [← he]
    rfl
  refine ⟨hview.trans (mapAfter_snoc ..).symm, ?_, ?_, fun k' hk' => ?_, fun {k' e'} he' => ?_⟩
  · rw [settled_snoc, if_neg hne]
    exact h.below
  · rw [dirtyKeys_snoc_write _ _ hop, ← h.dirty]
    exact hdirty
  · rw [hdirty, KrabkaStreams.NamedCache.mem_track t.cache.nodup] at hk'
    have hkk : k ≠ k' := by
      rintro rfl
      rw [if_pos rfl] at hk'
      exact hk' rfl
    rw [if_neg hkk] at hk'
    rw [← h.clean k' hk', KrabkaStreams.CachingKeyValueStore.get?_view, KrabkaStreams.CachingKeyValueStore.get?_view]
    show ((t.cache.map.insert k e).get? k').elim _ _ = _
    rw [SortedMap.get?_insert_of_ne hkk]
  · rw [latestContext_snoc, hop, Option.bind_some]
    have he'' : (t.cache.map.insert k e).get? k' = some e' := he'
    rw [SortedMap.get?_insert] at he''
    by_cases hkk : k = k'
    · rw [if_pos hkk] at he''
      rw [if_pos hkk, Option.some.inj he'']
      rfl
    · rw [if_neg hkk] at he''
      rw [if_neg hkk]
      exact h.context he''

theorem Tracks.flushed (h : Tracks inner ops t) : Tracks inner (ops ++ [flush]) t.flushWithOld.2 := by
  have hview : t.flushWithOld.2.view = mapAfter inner (ops ++ [flush]) := by
    rw [KrabkaStreams.CachingKeyValueStore.view_flush, mapAfter_snoc]
    exact h.view
  have hinner : t.flushWithOld.2.inner = mapAfter inner (ops ++ [flush]) := by
    rw [KrabkaStreams.CachingKeyValueStore.inner_flushWithOld t h.clean, mapAfter_snoc]
    exact h.view
  refine ⟨hview, ?_, ?_, fun k _ => by rw [hview, hinner], fun {k e} he => ?_⟩
  · rw [settled_snoc, if_pos rfl]
    exact hinner
  · unfold dirtyKeys
    rw [recent_snoc, if_pos rfl]
    rfl
  · rw [latestContext_snoc]
    have hmap : (t.cache.map.get? k).map _ = some e := (SortedMap.get?_mapValues _ t.cache.map k).symm.trans he
    obtain ⟨e', he', rfl⟩ := Option.map_eq_some_iff.mp hmap
    refine (h.context he').trans (congrArg some ?_)
    split <;> rfl

theorem Tracks.step (h : Tracks inner ops t) (op : CacheOp) : Tracks inner (ops ++ [op]) (op.plainly t) := by
  cases op with
  | put k v ctx =>
    refine h.staged (e := ⟨some v, true, ctx⟩) rfl rfl ?_
    exact (KrabkaStreams.CachingKeyValueStore.view_put t k v ctx).trans (by rw [h.view]; rfl)
  | delete k ctx =>
    refine h.staged (e := ⟨none, true, ctx⟩) rfl rfl ?_
    exact (KrabkaStreams.CachingKeyValueStore.view_delete t k ctx).trans (by rw [h.view]; rfl)
  | flush => exact h.flushed
  | get k =>
    refine ⟨h.view.trans (mapAfter_snoc inner ops (get k)).symm, ?_, ?_, h.clean, fun he => ?_⟩
    · rw [settled_snoc, if_neg nofun]
      exact h.below
    · rw [dirtyKeys_snoc_other ops (get k) rfl nofun]
      exact h.dirty
    · rw [latestContext_snoc]
      exact h.context he

theorem tracks (inner : SortedMap Bytes Bytes) (ops : List CacheOp) :
    Tracks inner ops (ops.foldl plainly ⟨.new, inner⟩) := by
  induction ops using List.reverseRecOn with
  | nil => exact .start inner
  | append_singleton ops op ih =>
    rw [List.foldl_append]
    exact ih.step op

end CacheOp

open CacheOp

/-- The record cache refines a plain map: nothing panics, every read is that of the map, and every flush gives
one tuple for each key that was written since the last one. -/
theorem cachedStore_refines (inner : SortedMap Bytes Bytes) (ops : List CacheOp) :
    ∃ s, ops.foldlM CacheOp.perform ⟨.new, inner⟩ = .ok s ∧ Refines inner ops s := by
  obtain ⟨s, hrun, hrep⟩ := foldlM_represents ops
    (s := ⟨.new, inner⟩) (t := ⟨.new, inner⟩) ⟨NamedCache.Represents.new, rfl⟩
  have ht := tracks inner ops
  refine ⟨s, hrun, fun k => ?_, fun lo hi hle => ?_, ?_, ?_, ?_, fun k old new ctx hmem => ?_⟩
  · obtain ⟨s', hget, -⟩ := hrep.get k
    exact ⟨s', by rw [hget, KrabkaStreams.CachingKeyValueStore.get_eq_view, ht.view]⟩
  · rw [hrep.range, KrabkaStreams.CachingKeyValueStore.range_eq_view _ hle, ht.view]
  · rw [hrep.scanAll, KrabkaStreams.CachingKeyValueStore.scanAll_eq_view, ht.view]
  · rw [hrep.flushWithOld.2.inner, KrabkaStreams.CachingKeyValueStore.inner_flushWithOld _ ht.clean, ht.view]
  · rw [hrep.flushWithOld.1, KrabkaStreams.CachingKeyValueStore.flushWithOld_fst, List.map_map, ← ht.dirty]
    exact List.map_id _
  · rw [hrep.flushWithOld.1, KrabkaStreams.CachingKeyValueStore.flushWithOld_fst] at hmem
    obtain ⟨k', hk', heq⟩ := List.mem_map.mp hmem
    obtain ⟨rfl, rfl, rfl, rfl⟩ : k' = k ∧ _ = old ∧ _ = new ∧ _ = ctx := by simpa using heq
    refine ⟨by rw [ht.below], by rw [ht.view], ?_⟩
    obtain ⟨e, he, -⟩ := (KrabkaStreams.NamedCache.mem_dirty _ k').mp hk'
    rw [ht.context he]
    unfold KrabkaStreams.NamedCache.contextOf
    rw [he]
    rfl

end Lru

end KrabkaStreams
