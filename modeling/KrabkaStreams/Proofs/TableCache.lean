import KrabkaStreams.Lib.Lists
import KrabkaStreams.Proofs.TableStore

/-!
# The store of a table under a cache

A cached store holds the rows it reads as and those that were flushed, which differ at dirty keys only
(`Stages`). A flush gives the change of each dirty key (`Stages.flushCache`).
-/

namespace KrabkaStreams

variable {K V : Type}

namespace Backing

def flushed : Backing → SortedMap Bytes Bytes
  | plain m => m
  | cached c => c.inner

def dirtyKeys : Backing → List Bytes
  | plain _ => []
  | cached c => c.cache.dirty

end Backing

namespace ByteStore

theorem foldl_record {δ : Type} (key : δ → Bytes) (val : δ → Option Bytes) :
    ∀ (ds : List δ) (s : ByteStore K V), ∃ log,
      ds.foldl (fun s d => s.record (key d) (val d)) s = { s with changelog := log }
  | [], s => ⟨s.changelog, rfl⟩
  | d :: ds, s => by
    obtain ⟨log, hlog⟩ := foldl_record key val ds (s.record (key d) (val d))
    refine ⟨log, hlog.trans ?_⟩
    unfold record
    split <;> rfl

end ByteStore

namespace TableStore

variable {s : TableStore K V} {f g : K → Option V}

def Dirty (s : TableStore K V) (k : K) : Prop := s.keyBytes k ∈ s.backing.dirtyKeys

structure Stages (s : TableStore K V) (f g : K → Option V) : Prop where
  rows : s.Rows f
  below : SortedMap.Holds (s.rowEncoding rows.key) s.backing.flushed g
  clean : ∀ k, ¬ s.Dirty k → f k = g k
  covered : ∀ kb ∈ s.backing.dirtyKeys, ∃ k, s.keyBytes k = kb

namespace Stages

theorem enableCache {keySerde : Serde K} {valueSerde : Serde V} (hk : keySerde.Lawful)
    (hv : valueSerde.Lawful) (topic : Topic) :
    (TableStore.inMemory keySerde valueSerde topic).enableCache.Stages (fun _ => none) fun _ => none :=
  ⟨⟨hk, hv, .empty _⟩, .empty _, fun _ _ => rfl, fun _ h => absurd h List.not_mem_nil⟩

theorem setRecordContext (h : s.Stages f g) (rc : RecordContext) : (s.setRecordContext rc).Stages f g :=
  ⟨⟨h.rows.key, h.rows.value, h.rows.table⟩, h.below, h.clean, h.covered⟩

theorem put_plain [DecidableEq K] (h : s.Stages f g) (hplain : s.isCached = false) (k : K) (v : V) :
    (s.put k v).Stages (Function.update f k (some v)) (Function.update g k (some v)) ∧
      (s.put k v).isCached = false ∧ ∀ k', ¬ (s.put k v).Dirty k' := by
  obtain ⟨⟨topic, backing, ks, vs, log, logging, ctx⟩⟩ := s
  cases backing with
  | cached c => cases hplain
  | plain m =>
    have hrows := h.rows.put k v
    have hclean : ∀ k', Function.update f k (some v) k' = Function.update g k (some v) k' := fun k' => by
      rw [show f = g from funext fun k => h.clean k List.not_mem_nil]
    have hbelow := h.below.insert (i := k) (b := v) trivial trivial
    unfold TableStore.put at hrows ⊢
    rw [ByteStore.put_eq] at hrows ⊢
    exact ⟨⟨hrows, hbelow, fun k' _ => hclean k', fun _ hd => absurd hd List.not_mem_nil⟩, rfl,
      fun _ => List.not_mem_nil⟩

theorem staged [DecidableEq K] {topic : Topic} {c : CachingKeyValueStore} {ks : Serde K} {vs : Serde V}
    {log log' : List (Bytes × Option Bytes)} {logging : Bool} {ctx : Option RecordContext}
    (h : (⟨⟨topic, .cached c, ks, vs, log, logging, ctx⟩⟩ : TableStore K V).Stages f g) (k : K) (e : LruCacheEntry)
    (he : e.dirty = true) {o : Option V} (hrows : (⟨⟨topic, .cached { c with
      cache := c.cache.put (ks.serialize topic k) e }, ks, vs, log', logging, ctx⟩⟩ : TableStore K V).Rows
        (Function.update f k o)) :
    (⟨⟨topic, .cached { c with cache := c.cache.put (ks.serialize topic k) e }, ks, vs, log', logging, ctx⟩⟩ :
        TableStore K V).Stages (Function.update f k o) g ∧
      ∀ k', (⟨⟨topic, .cached { c with cache := c.cache.put (ks.serialize topic k) e }, ks, vs, log', logging, ctx⟩⟩ :
        TableStore K V).Dirty k' ↔ k' = k ∨ ks.serialize topic k' ∈ c.cache.dirty := by
  have hkey : ∀ k', ks.serialize topic k = ks.serialize topic k' ↔ k = k' := fun k' =>
    ⟨Serde.Lawful.inj h.rows.key, congrArg _⟩
  have hdirty : ∀ kb, kb ∈ (c.cache.put (ks.serialize topic k) e).dirty ↔
      ks.serialize topic k = kb ∨ kb ∈ c.cache.dirty := fun kb => by
    show kb ∈ NamedCache.track _ _ e.dirty ↔ _
    rw [he, NamedCache.mem_track c.cache.nodup]
    by_cases hkb : ks.serialize topic k = kb <;> simp [hkb]
  have hiff : ∀ k', ks.serialize topic k' ∈ (c.cache.put (ks.serialize topic k) e).dirty ↔
      k' = k ∨ ks.serialize topic k' ∈ c.cache.dirty := fun k' => by
    rw [hdirty, hkey, eq_comm]
  refine ⟨⟨hrows, h.below, fun k' hk' => ?_, fun kb hkb => ?_⟩, hiff⟩
  · obtain ⟨hne, hold⟩ := not_or.mp fun hor => hk' ((hiff k').mpr hor)
    rw [Function.update_of_ne hne]
    exact h.clean k' hold
  · rcases (hdirty kb).mp hkb with hkb | hkb
    · exact ⟨k, hkb⟩
    · exact h.covered kb hkb

theorem put_cached [DecidableEq K] (h : s.Stages f g) (hcached : s.isCached = true) (k : K) (v : V) :
    (s.put k v).Stages (Function.update f k (some v)) g ∧
      (s.put k v).isCached = true ∧ ∀ k', (s.put k v).Dirty k' ↔ k' = k ∨ s.Dirty k' := by
  obtain ⟨⟨topic, backing, ks, vs, log, logging, ctx⟩⟩ := s
  cases backing with
  | plain m => cases hcached
  | cached c =>
    have hrows := h.rows.put k v
    unfold TableStore.put at hrows ⊢
    obtain ⟨hstages, hdirty⟩ := h.staged k _ rfl hrows
    exact ⟨hstages, rfl, hdirty⟩

theorem without_cached [DecidableEq K] (h : s.Stages f g) (hcached : s.isCached = true) (k : K) :
    (s.without k).Stages (Function.update f k none) g ∧
      (s.without k).isCached = true ∧ ∀ k', (s.without k).Dirty k' ↔ k' = k ∨ s.Dirty k' := by
  obtain ⟨⟨topic, backing, ks, vs, log, logging, ctx⟩⟩ := s
  cases backing with
  | plain m => cases hcached
  | cached c =>
    have hrows := h.rows.without k
    unfold TableStore.without at hrows ⊢
    obtain ⟨hstages, hdirty⟩ := h.staged k _ rfl hrows
    exact ⟨hstages, rfl, hdirty⟩

theorem view_eq_flushed (h : s.Stages f g) {kb : Bytes} (hkb : kb ∉ s.backing.dirtyKeys) :
    s.backing.view.get? kb = s.backing.flushed.get? kb := by
  by_cases hk : ∃ k, s.keyBytes k = kb
  · obtain ⟨k, rfl⟩ := hk
    have hview : s.backing.view.get? (s.keyBytes k) = _ := h.rows.table.at_key (i := k) trivial
    have hbelow : s.backing.flushed.get? (s.keyBytes k) = _ := h.below.at_key (i := k) trivial
    rw [hview, hbelow, h.clean k hkb]
  · have hview : s.backing.view.get? kb = none := by
      by_contra hne
      obtain ⟨v, hv⟩ := Option.ne_none_iff_exists'.mp hne
      obtain ⟨k, -, hkey⟩ := h.rows.table.covered hv
      exact hk ⟨k, hkey⟩
    have hbelow : s.backing.flushed.get? kb = none := by
      by_contra hne
      obtain ⟨v, hv⟩ := Option.ne_none_iff_exists'.mp hne
      obtain ⟨k, -, hkey⟩ := h.below.covered hv
      exact hk ⟨k, hkey⟩
    rw [hview, hbelow]

theorem decodeOption (h : s.Stages f g) (o : Option V) : s.decodeOption (o.map s.valueBytes) = .ok o := by
  cases o with
  | none => rfl
  | some v =>
    show some <$> s.decodeValue (s.valueBytes v) = _
    rw [ByteStore.decodeValue_valueBytes h.rows.value]
    rfl

theorem flushedChange (h : s.Stages f g) (k : K) (ctx : RecordContext) :
    s.flushedChange (s.keyBytes k, s.backing.flushed.get? (s.keyBytes k), s.backing.view.get? (s.keyBytes k), ctx)
      = .ok ⟨some k, ⟨g k, f k⟩, ctx.timestamp⟩ := by
  have hview : s.backing.view.get? (s.keyBytes k) = _ := h.rows.table.at_key (i := k) trivial
  have hbelow : s.backing.flushed.get? (s.keyBytes k) = _ := h.below.at_key (i := k) trivial
  unfold TableStore.flushedChange
  simp only [hview, hbelow]
  rw [ByteStore.decodeKey_keyBytes h.rows.key]
  show (s.decodeOption ((g k).map s.valueBytes) >>= _) = _
  rw [h.decodeOption]
  show (s.decodeOption ((f k).map s.valueBytes) >>= _) = _
  rw [h.decodeOption]
  rfl

theorem flushCache (h : s.Stages f g) : ∃ (ks : List K) (ts : K → Int) (s' : TableStore K V),
    s.flushCache = .ok (ks.map fun k => ⟨some k, ⟨g k, f k⟩, ts k⟩, s') ∧ ks.Nodup ∧
      (∀ k, k ∈ ks ↔ s.Dirty k) ∧ s'.Stages f f ∧ (∀ k, ¬ s'.Dirty k) ∧ s'.isCached = s.isCached := by
  obtain ⟨⟨topic, backing, kser, vser, log, logging, ctx⟩⟩ := s
  cases backing with
  | plain m =>
    have hsame : g = f := funext fun k => (h.clean k List.not_mem_nil).symm
    exact ⟨[], fun _ => 0, _, rfl, List.nodup_nil,
      fun _ => iff_of_false List.not_mem_nil List.not_mem_nil, ⟨h.rows, hsame ▸ h.below, fun _ _ => rfl, h.covered⟩,
      fun _ => List.not_mem_nil, rfl⟩
  | cached c =>
    obtain ⟨ks, hks, -⟩ := SortedMap.exists_eq_map (g := kser.serialize topic) (P := fun _ => True) c.cache.dirty
      fun kb hkb => (h.covered kb hkb).imp fun _ hk => ⟨trivial, hk⟩
    have hnodup : ks.Nodup := .of_map _ (hks ▸ c.cache.nodup)
    have hmem : ∀ k, k ∈ ks ↔ kser.serialize topic k ∈ c.cache.dirty := fun k => by
      rw [hks, List.mem_map]
      exact ⟨fun hk => ⟨k, hk, rfl⟩, fun ⟨k', hk', heq⟩ => Serde.Lawful.inj h.rows.key heq ▸ hk'⟩
    have hinner : c.flushWithOld.2.inner = c.view := c.inner_flushWithOld fun kb hkb => h.view_eq_flushed hkb
    have hview : c.flushWithOld.2.view = c.view := c.view_flush
    let s₀ : TableStore K V := ⟨⟨topic, .cached c, kser, vser, log, logging, ctx⟩⟩
    have hchanges : c.flushWithOld.1.mapM s₀.flushedChange
        = .ok (ks.map fun k => ⟨some k, ⟨g k, f k⟩, (c.cache.contextOf (kser.serialize topic k)).timestamp⟩) := by
      rw [c.flushWithOld_fst, hks, List.map_map, List.mapM_map]
      exact Lists.mapM_eq_map fun k _ => h.flushedChange k _
    obtain ⟨log', hlog⟩ := ByteStore.foldl_record (fun d => d.1) (fun d => d.2.2.1) c.flushWithOld.1
      { s₀.toByteStore with backing := .cached c.flushWithOld.2 }
    refine ⟨ks, fun k => (c.cache.contextOf (kser.serialize topic k)).timestamp,
      ⟨{ s₀.toByteStore with backing := .cached c.flushWithOld.2, changelog := log' }⟩, ?_, hnodup, hmem, ?_,
      fun _ => List.not_mem_nil, rfl⟩
    · show (c.flushWithOld.1.mapM s₀.flushedChange >>= _) = _
      rw [hchanges]
      show Except.ok _ = _
      rw [hlog]
    · have htable := h.rows.table
      refine ⟨⟨h.rows.key, h.rows.value, ?_⟩, ?_, fun _ _ => rfl, fun _ hd => absurd hd List.not_mem_nil⟩
      · show SortedMap.Holds _ c.flushWithOld.2.view f
        rw [hview]
        exact htable
      · show SortedMap.Holds _ c.flushWithOld.2.inner f
        rw [hinner]
        exact htable

end Stages

end TableStore

end KrabkaStreams
