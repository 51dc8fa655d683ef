import KrabkaStreams.Flushing
import KrabkaStreams.Lib.Lists
import KrabkaStreams.Proofs.Bytes

/-!
# The stores with a record cache

The key-value, the window and the session store flush their caches alike: the entries go below, into the
changelog and, as changes, to the caller. A cached write stages an entry and does nothing else
(`put_stages`, `delete_stages`).
-/

namespace KrabkaStreams

open StateStore CachedStore

variable {A K V : Type} (b : Backing)

theorem Backing.isDirty_eq : b.isDirty = !((b.cache?.elim [] (·.cache.dirty)).isEmpty) := by
  cases b <;> rfl

theorem Backing.put_staged (k v : Bytes) (ctx : RecordContext) :
    (b.put k v ctx).cache?.map (·.inner) = b.cache?.map (·.inner) ∧
      b.cache?.elim [] (·.cache.dirty) ⊆ (b.put k v ctx).cache?.elim [] (·.cache.dirty) := by
  cases b with
  | plain m => exact ⟨rfl, List.Subset.refl _⟩
  | cached c =>
    refine ⟨rfl, fun k' hk' => ?_⟩
    show k' ∈ NamedCache.track c.cache.dirty k true
    rw [NamedCache.mem_track c.cache.nodup]
    split
    · rfl
    · exact hk'

theorem Backing.delete_staged (k : Bytes) (ctx : RecordContext) :
    (b.delete k ctx).2.cache?.map (·.inner) = b.cache?.map (·.inner) ∧
      b.cache?.elim [] (·.cache.dirty) ⊆ (b.delete k ctx).2.cache?.elim [] (·.cache.dirty) := by
  cases b with
  | plain m => exact ⟨rfl, List.Subset.refl _⟩
  | cached c =>
    refine ⟨rfl, fun k' hk' => ?_⟩
    show k' ∈ NamedCache.track c.cache.dirty k true
    rw [NamedCache.mem_track c.cache.nodup]
    split
    · rfl
    · exact hk'

theorem Backing.isCached_eq : b.isCached = b.cache?.isSome := by
  cases b <;> rfl

/-! The key-value store -/

namespace KeyValueBytesStore

theorem foldl_record_eq : ∀ (ds : List (Bytes × Option Bytes × Option Bytes × RecordContext)) (s : KeyValueBytesStore A),
    ds.foldl (fun s d => s.record d.1 d.2.2.1) s =
      { s with changelog := s.changelog ++ if s.logging then ds.map fun d => (d.1, d.2.2.1) else [] }
  | [], s => by
    obtain ⟨_, _, _, _, _, log, logging, _⟩ := s
    simp
  | d :: ds, s => by
    rw [List.foldl_cons, foldl_record_eq ds]
    obtain ⟨_, _, _, _, _, log, logging, _⟩ := s
    unfold record
    cases logging <;> simp

theorem flushCacheInto_eq {s : KeyValueBytesStore A} {c : CachingKeyValueStore} (h : s.backing.cache? = some c) :
    s.flushCacheInto = (c.flushWithOld.1.mapM s.flushedChange, { s with
      backing := .cached c.flushWithOld.2
      changelog := s.changelog ++ if s.logging then c.flushWithOld.1.map fun d => (d.1, d.2.2.1) else [] }) := by
  obtain ⟨_, _, _ | c, _, _, _, _, _⟩ := s <;> cases h
  unfold flushCacheInto
  dsimp only
  rw [foldl_record_eq]

theorem put_stages (s : KeyValueBytesStore A) (key value : A) : Stages s (s.put key value) := by
  have hstaged := s.backing.put_staged (s.keyBytes key) (s.valueSerde.serialize s.changelogTopic value) s.writeCtx
  unfold put record
  dsimp only
  split
  · exact ⟨hstaged.1, hstaged.2, fun _ => rfl, rfl⟩
  · rename_i hplain
    rw [Backing.isCached_eq] at hplain
    split <;> exact ⟨hstaged.1, hstaged.2, fun h => absurd h hplain, rfl⟩

theorem delete_stages (s : KeyValueBytesStore A) (key : A) : Stages s (s.delete key).2 := by
  have hstaged := s.backing.delete_staged (s.keyBytes key) s.writeCtx
  unfold delete record
  dsimp only
  split
  · exact ⟨hstaged.1, hstaged.2, fun _ => rfl, rfl⟩
  · split
    · exact ⟨hstaged.1, hstaged.2, fun _ => rfl, rfl⟩
    · rename_i hplain
      rw [Backing.isCached_eq] at hplain
      split <;> exact ⟨hstaged.1, hstaged.2, fun h => absurd h hplain, rfl⟩

end KeyValueBytesStore

theorem map_logged (logging : Bool) (log : List (Bytes × Option Bytes))
    (ds : List (Bytes × Option Bytes × Option Bytes × RecordContext)) :
    (log ++ if logging then ds.map fun d => (d.1, d.2.2.1) else []).map (fun e => (⟨e.1, e.2, none⟩ : ChangelogEntry)) =
      log.map (fun e => ⟨e.1, e.2, none⟩) ++ if logging then ds.map fun d => ⟨d.1, d.2.2.1, none⟩ else [] := by
  cases logging <;> simp

instance : LawfulCachedStore (KeyValueBytesStore A) where
  dirty_eq s := s.backing.isDirty_eq
  flush_plain s h := by
    obtain ⟨_, _, _ | c, _, _, _, _, _⟩ := s
    · rfl
    · cases h
  flush_changes s c h := congrArg Prod.fst (KeyValueBytesStore.flushCacheInto_eq h)
  flush_cache s c h := congrArg (fun r => r.2.backing.cache?) (KeyValueBytesStore.flushCacheInto_eq h)
  flush_changelog s c h := (congrArg (fun r => r.2.changelog.map fun e => (⟨e.1, e.2, none⟩ : ChangelogEntry))
    (KeyValueBytesStore.flushCacheInto_eq h)).trans (map_logged s.logging s.changelog _)

/-! The window and the session store -/

namespace ByteStore

theorem foldl_record_eq : ∀ (ds : List (Bytes × Option Bytes × Option Bytes × RecordContext)) (s : ByteStore K V),
    ds.foldl (fun s d => s.record d.1 d.2.2.1) s =
      { s with changelog := s.changelog ++ if s.logging then ds.map fun d => (d.1, d.2.2.1) else [] }
  | [], s => by
    obtain ⟨_, _, _, _, log, logging, _⟩ := s
    simp
  | d :: ds, s => by
    rw [List.foldl_cons, foldl_record_eq ds]
    obtain ⟨_, _, _, _, log, logging, _⟩ := s
    unfold record
    cases logging <;> simp

theorem flushWith_eq {R : Type} {s : ByteStore K V} {c : CachingKeyValueStore} (h : s.backing.cache? = some c)
    (change : Bytes × Option Bytes × Option Bytes × RecordContext → Except ProcessorError R) :
    s.flushWith change = (c.flushWithOld.1.mapM change, { s with
      backing := .cached c.flushWithOld.2
      changelog := s.changelog ++ if s.logging then c.flushWithOld.1.map fun d => (d.1, d.2.2.1) else [] }) := by
  obtain ⟨_, _ | c, _, _, _, _, _⟩ := s <;> cases h
  unfold flushWith
  dsimp only
  rw [foldl_record_eq]

theorem flushWith_plain {R : Type} {s : ByteStore K V} (h : s.backing.cache? = none)
    (change : Bytes × Option Bytes × Option Bytes × RecordContext → Except ProcessorError R) :
    s.flushWith change = (.ok [], s) := by
  obtain ⟨_, _ | c, _, _, _, _, _⟩ := s <;> cases h
  rfl

end ByteStore

theorem mapM_erased {α β γ : Type} (f : α → Except ProcessorError β) (e : β → γ) (l : List α) :
    (l.mapM f).map (List.map e) = l.mapM fun a => e <$> f a := by
  induction l with
  | nil => rfl
  | cons a l ih =>
    rw [List.mapM_cons, List.mapM_cons, ← ih]
    rcases f a with err | b
    · rfl
    · rcases l.mapM f with err | bs <;> rfl

instance : LawfulCachedStore (WindowBytesStore A A) where
  dirty_eq s := s.backing.isDirty_eq
  flush_plain s h := by
    show ((s.toByteStore.flushWith s.flushedChange).1.map (List.map eraseWindowed),
      (⟨(s.toByteStore.flushWith s.flushedChange).2, s.windowSize⟩ : WindowBytesStore A A)) = _
    rw [ByteStore.flushWith_plain h]
    rfl
  flush_changes s c h := by
    show (s.toByteStore.flushWith s.flushedChange).1.map (List.map eraseWindowed) = _
    rw [ByteStore.flushWith_eq h]
    exact mapM_erased s.flushedChange eraseWindowed _
  flush_cache s c h := congrArg (fun r => r.2.backing.cache?) (ByteStore.flushWith_eq h s.flushedChange)
  flush_changelog s c h := (congrArg (fun r => r.2.changelog.map fun e => (⟨e.1, e.2, none⟩ : ChangelogEntry))
    (ByteStore.flushWith_eq h s.flushedChange)).trans (map_logged s.logging s.changelog _)

instance : LawfulCachedStore (SessionBytesStore A A) where
  dirty_eq s := s.backing.isDirty_eq
  flush_plain s h := by
    show ((s.toByteStore.flushWith s.flushedChange).1.map (List.map eraseWindowed),
      (⟨(s.toByteStore.flushWith s.flushedChange).2⟩ : SessionBytesStore A A)) = _
    rw [ByteStore.flushWith_plain h]
    rfl
  flush_changes s c h := by
    show (s.toByteStore.flushWith s.flushedChange).1.map (List.map eraseWindowed) = _
    rw [ByteStore.flushWith_eq h]
    exact mapM_erased s.flushedChange eraseWindowed _
  flush_cache s c h := congrArg (fun r => r.2.backing.cache?) (ByteStore.flushWith_eq h s.flushedChange)
  flush_changelog s c h := (congrArg (fun r => r.2.changelog.map fun e => (⟨e.1, e.2, none⟩ : ChangelogEntry))
    (ByteStore.flushWith_eq h s.flushedChange)).trans (map_logged s.logging s.changelog _)

end KrabkaStreams
