import KrabkaStreams.Stores.KeyValue

/-!
# The key-value store keeps the laws of a state store

The restore path, the logging switch and the wipe leave the topic, the buffer and the dirty set as
the drivers rely on. A flush is the one hook that writes the buffer, and it only appends
(`foldl_record`).
-/

namespace KrabkaStreams

open StateStore

variable {A : Type} (s : KeyValueBytesStore A) (b : Backing)

namespace Backing

@[simp] theorem isDirty_apply (k : Bytes) (v : Option Bytes) : (b.apply k v).isDirty = b.isDirty := by
  cases b <;> rfl

@[simp] theorem isDirty_clear : b.clear.isDirty = false := by
  cases b <;> rfl

@[simp] theorem isDirty_enableCache : b.enableCache.isDirty = b.isDirty := by
  cases b <;> rfl

@[simp] theorem clear_apply (k : Bytes) (v : Option Bytes) : (b.apply k v).clear = b.clear := by
  cases b <;> rfl

theorem get_clear (k : Bytes) : b.clear.get k = none := by
  cases b <;> rfl

theorem get_apply_clear (k v : Bytes) : (b.clear.apply k (some v)).get k = some v := by
  cases b with
  | plain m => simp [clear, apply, get, putOrDelete]
  | cached c =>
    simp [clear, apply, get, putOrDelete, CachingKeyValueStore.clear, CachingKeyValueStore.applyInner,
      CachingKeyValueStore.get, NamedCache.new]

end Backing

namespace KeyValueBytesStore

@[simp] theorem record_changelogTopic (kb : Bytes) (vb : Option Bytes) :
    (s.record kb vb).changelogTopic = s.changelogTopic := by
  unfold record
  split <;> rfl

@[simp] theorem record_backing (kb : Bytes) (vb : Option Bytes) : (s.record kb vb).backing = s.backing := by
  unfold record
  split <;> rfl

theorem changelog_prefix_record (kb : Bytes) (vb : Option Bytes) :
    s.changelog <+: (s.record kb vb).changelog := by
  unfold record
  split
  · exact List.prefix_append _ _
  · exact List.prefix_rfl

theorem foldl_record :
    ∀ (ds : List (Bytes × Option Bytes × Option Bytes × RecordContext)) (s : KeyValueBytesStore A),
      let s' := ds.foldl (fun s d => s.record d.1 d.2.2.1) s
      s'.changelogTopic = s.changelogTopic ∧ s'.backing = s.backing ∧ s.changelog <+: s'.changelog
  | [], _ => ⟨rfl, rfl, List.prefix_rfl⟩
  | d :: ds, s => by
    obtain ⟨h1, h2, h3⟩ := foldl_record ds (s.record d.1 d.2.2.1)
    exact ⟨h1.trans (record_changelogTopic s _ _), h2.trans (record_backing s _ _),
      (changelog_prefix_record s _ _).trans h3⟩

theorem flushCacheInto_spec :
    s.flushCacheInto.2.changelogTopic = s.changelogTopic ∧
      s.flushCacheInto.2.backing.isDirty = false ∧
      s.changelog <+: s.flushCacheInto.2.changelog := by
  unfold flushCacheInto
  split
  · rename_i m hb
    exact ⟨rfl, by rw [hb]; rfl, List.prefix_rfl⟩
  · rename_i c hb
    obtain ⟨h1, h2, h3⟩ := foldl_record c.flushWithOld.1
      { s with backing := .cached c.flushWithOld.2 }
    exact ⟨h1, by rw [h2]; rfl, h3⟩

theorem dirtyEntries_eq_nil {c : NamedCache} (h : c.dirty = []) : c.dirtyEntries = [] := by
  simp [NamedCache.dirtyEntries, h]

theorem clean_eq_self {c : NamedCache} (h : c.dirty = []) : c.clean = c := by
  have hm : c.clean.map = c.map := SortedMap.ext_get? fun k => by
    simp [NamedCache.clean, SortedMap.get?_mapValues, h]
  have hd : c.clean.dirty = c.dirty := h.symm
  cases hc : c.clean
  cases c
  simp_all

theorem flushCacheInto_of_clean {s : KeyValueBytesStore A} (h : s.backing.isDirty = false) :
    s.flushCacheInto = (.ok [], s) := by
  unfold flushCacheInto
  split
  · rfl
  · rename_i c hb
    rw [hb] at h
    have hd : c.cache.dirty = [] := by simpa [Backing.isDirty] using h
    simp only [CachingKeyValueStore.flushWithOld, NamedCache.flush, dirtyEntries_eq_nil hd,
      clean_eq_self hd, CachingKeyValueStore.writeThrough]
    rw [← hb]
    rfl

end KeyValueBytesStore

theorem changelog_keyValue : changelog s = s.changelog.map fun e => ⟨e.1, e.2, none⟩ := rfl

instance : SwitchedStore (KeyValueBytesStore A) where
  setLogging_setLogging _ _ _ := rfl
  setLogging_apply _ _ _ _ _ := rfl

theorem KeyValueBytesStore.changelog_inMemory (keySerde valueSerde : Serde A) (name : String) (topic : Topic) :
    StateStore.changelog (inMemory name keySerde valueSerde topic) = [] := rfl

theorem KeyValueBytesStore.isDirty_inMemory (keySerde valueSerde : Serde A) (name : String) (topic : Topic) :
    StateStore.isDirty (inMemory name keySerde valueSerde topic) = false := rfl

instance : LawfulStateStore (KeyValueBytesStore A) where
  changelog_take _ := rfl
  changelog_apply _ _ _ _ := rfl
  changelog_setLogging _ _ := rfl
  changelog_clear _ := rfl
  changelog_flush s := List.IsPrefix.map _ s.flushCacheInto_spec.2.2
  topic_take _ := rfl
  topic_apply _ _ _ _ := rfl
  topic_setLogging _ _ := rfl
  topic_clear _ := rfl
  topic_flush s := s.flushCacheInto_spec.1
  dirty_take _ := rfl
  dirty_apply s k v _ := s.backing.isDirty_apply k v
  dirty_setLogging _ _ := rfl
  dirty_clear s := s.backing.isDirty_clear
  dirty_flush s := s.flushCacheInto_spec.2.1
  flush_clean _ h := KeyValueBytesStore.flushCacheInto_of_clean h
  enableCache_fresh s s' h := by
    cases h
    exact ⟨rfl, rfl, s.backing.isDirty_enableCache⟩
  clear_apply s k v _ := by
    show { s with backing := (s.backing.apply k v).clear, changelog := [] } = _
    rw [Backing.clear_apply]
    rfl
  apply_kept s := by
    refine ⟨[], some [], 0, fun h => ?_⟩
    have hget := congrArg (fun s : KeyValueBytesStore A => s.backing.get []) h
    have h1 : (s.backing.clear.apply [] (some [])).get [] = s.backing.clear.get [] := hget
    rw [Backing.get_apply_clear, Backing.get_clear] at h1
    cases h1

end KrabkaStreams
