import KrabkaStreams.Lib.Compaction
import KrabkaStreams.Lib.Runs
import KrabkaStreams.Proofs.CachedStores
import KrabkaStreams.Proofs.Snapshot

/-!
# A store is what its changelog says

Everything a store logged, drained or not, replays to what lies below its record cache (`Backing.Logs`), and the cache
differs from that at the dirty keys only. Compaction of the log changes nothing.
-/

namespace KrabkaStreams

open Runs

def replay (m : SortedMap Bytes Bytes) (log : List (Bytes × Option Bytes)) : SortedMap Bytes Bytes :=
  log.foldl (fun m e => putOrDelete m e.1 e.2) m

theorem replay_append (m : SortedMap Bytes Bytes) (log log' : List (Bytes × Option Bytes)) :
    replay m (log ++ log') = replay (replay m log) log' := List.foldl_append

theorem replay_compacted {kept log : List (Bytes × Option Bytes)} (h : SortedMap.Compacts kept log)
    (m : SortedMap Bytes Bytes) : replay m kept = replay m log :=
  h.foldl_eq id (fun m e => (get?_putOrDelete m e.1 e.1 e.2).trans (if_pos rfl))
    (fun m e k he => (get?_putOrDelete m e.1 k e.2).trans (if_neg he)) m

namespace Backing

/-- What lies below the cache. -/
def settled : Backing → SortedMap Bytes Bytes
  | plain m => m
  | cached c => c.inner

structure Logs (b : Backing) (log : List (Bytes × Option Bytes)) : Prop where
  replayed : replay .empty log = b.settled
  clean : ∀ k, k ∉ b.cache?.elim [] (·.cache.dirty) → b.view.get? k = b.settled.get? k

variable {b : Backing} {log : List (Bytes × Option Bytes)}

theorem Logs.plain {m m' : SortedMap Bytes Bytes} (h : (plain m).Logs log) {kb : Bytes} {vb : Option Bytes}
    (hm : m' = putOrDelete m kb vb) : (Backing.plain m').Logs (log ++ [(kb, vb)]) where
  replayed := by
    rw [replay_append, h.replayed, hm]
    rfl
  clean _ _ := rfl

theorem Logs.cached {c : CachingKeyValueStore} (h : (cached c).Logs log) (k : Bytes) (v : Option Bytes)
    (ctx : RecordContext) : (Backing.cached { c with cache := c.cache.put k ⟨v, true, ctx⟩ }).Logs log where
  replayed := h.replayed
  clean k' hk' := by
    have hk : k ≠ k' ∧ k' ∉ c.cache.dirty := by
      simpa [Backing.cache?, NamedCache.put, NamedCache.mem_track c.cache.nodup] using hk'
    refine Eq.trans ?_ (h.clean k' hk.2)
    simp only [view, CachingKeyValueStore.get?_view, NamedCache.put, SortedMap.get?_insert, if_neg hk.1]

theorem Logs.flush {c : CachingKeyValueStore} (h : (Backing.cached c).Logs log) :
    (Backing.cached c.flushWithOld.2).Logs (log ++ c.flushWithOld.1.map fun d => (d.1, d.2.2.1)) where
  replayed := by
    rw [replay_append, h.replayed, c.flushWithOld_entries, List.map_map, replay, List.foldl_map]
    exact (CachingKeyValueStore.writeThrough_eq_overlay _ _).symm
  clean k _ := by
    show c.flushWithOld.2.view.get? k = c.flushWithOld.2.inner.get? k
    rw [c.view_flush, c.inner_flushWithOld h.clean]

theorem foldl_apply_plain : ∀ (log : List (Bytes × Option Bytes)) (m : SortedMap Bytes Bytes),
    log.foldl (fun b e => b.apply e.1 e.2) (plain m) = plain (replay m log)
  | [], _ => rfl
  | e :: log, m => foldl_apply_plain log (putOrDelete m e.1 e.2)

theorem foldl_apply_cached : ∀ (log : List (Bytes × Option Bytes)) (c : CachingKeyValueStore),
    log.foldl (fun b e => b.apply e.1 e.2) (cached c) = cached ⟨c.cache, replay c.inner log⟩
  | [], _ => rfl
  | e :: log, c => foldl_apply_cached log (c.applyInner e.1 e.2)

theorem view_restored (b : Backing) (log : List (Bytes × Option Bytes)) :
    (log.foldl (fun b e => b.apply e.1 e.2) b.clear).view = replay .empty log := by
  cases b with
  | plain m => rw [clear, foldl_apply_plain, view]
  | cached c =>
    rw [clear, foldl_apply_cached]
    rfl

theorem isDirty_restored (b : Backing) (log : List (Bytes × Option Bytes)) :
    (log.foldl (fun b e => b.apply e.1 e.2) b.clear).isDirty = false := by
  cases b with
  | plain m => rw [clear, foldl_apply_plain, isDirty]
  | cached c =>
    rw [clear, foldl_apply_cached]
    rfl

theorem replay_scanAll (b : Backing) : replay .empty (b.scanAll.map fun e => (e.1, some e.2)) = b.view := by
  rw [replay, List.foldl_map, scanAll_eq_view]
  exact SortedMap.foldl_insert_eq b.view.nodup_keys fun k a => b.view.get?_eq_some_iff k a

end Backing

namespace KeyValueBytesStore

variable {A : Type}

inductive Call (A : Type)
  | setRecordContext (ctx : RecordContext)
  | put (key value : A)
  | delete (key : A)
  | flushCacheInto
  | takeChangelog

/-- A call, with what it takes from the changelog buffer. -/
def call (s : KeyValueBytesStore A) : Call A → Except ProcessorError (KeyValueBytesStore A × List (Bytes × Option Bytes))
  | .setRecordContext ctx => .ok (s.setRecordContext ctx, [])
  | .put key value => .ok (s.put key value, [])
  | .delete key => (s.delete key).1.map fun _ => ((s.delete key).2, [])
  | .flushCacheInto => s.flushCacheInto.1.map fun _ => (s.flushCacheInto.2, [])
  | .takeChangelog => .ok ({ s with changelog := [] }, s.changelog)

/-- Everything logged so far replays to what lies below the cache. -/
structure Logs (s : KeyValueBytesStore A) (drained : List (Bytes × Option Bytes)) : Prop where
  logging : s.logging = true
  backing : s.backing.Logs (drained ++ s.changelog)

variable {s : KeyValueBytesStore A} {drained : List (Bytes × Option Bytes)}

theorem Logs.put (h : s.Logs drained) (key value : A) : (s.put key value).Logs drained := by
  obtain ⟨_, _, m | c, _, _, log, _, _⟩ := s <;> obtain ⟨⟨⟩, hb⟩ := h
  · refine ⟨rfl, ?_⟩
    show (Backing.plain (m.insert _ _)).Logs (drained ++ (log ++ [_]))
    exact List.append_assoc drained log _ ▸ hb.plain rfl
  · exact ⟨rfl, hb.cached _ _ _⟩

theorem Logs.delete (h : s.Logs drained) {key : A} {prev : Option A} (hok : (s.delete key).1 = .ok prev) :
    (s.delete key).2.Logs drained := by
  obtain ⟨_, _, m | c, _, _, log, _, _⟩ := s <;> obtain ⟨⟨⟩, hb⟩ := h <;> unfold KeyValueBytesStore.delete at hok ⊢ <;>
    dsimp only at hok ⊢ <;> split at hok <;> cases hok
  · refine ⟨rfl, ?_⟩
    show (Backing.plain (m.erase _)).Logs (drained ++ (log ++ [_]))
    exact List.append_assoc drained log _ ▸ hb.plain rfl
  · exact ⟨rfl, hb.cached _ _ _⟩

theorem Logs.flush (h : s.Logs drained) : s.flushCacheInto.2.Logs drained := by
  obtain ⟨_, _, m | c, _, _, log, _, _⟩ := s <;> obtain ⟨⟨⟩, hb⟩ := h
  · exact ⟨rfl, hb⟩
  · rw [flushCacheInto_eq rfl]
    exact ⟨rfl, List.append_assoc drained log _ ▸ hb.flush⟩

theorem Logs.call (h : s.Logs drained) {c : Call A} {s' : KeyValueBytesStore A} {taken : List (Bytes × Option Bytes)}
    (hc : s.call c = .ok (s', taken)) : s'.Logs (drained ++ taken) := by
  cases c with
  | setRecordContext ctx =>
    cases hc
    exact ⟨h.logging, by simpa [KeyValueBytesStore.setRecordContext] using h.backing⟩
  | put key value =>
    cases hc
    simpa using h.put key value
  | delete key =>
    simp only [KeyValueBytesStore.call] at hc
    rcases hok : (s.delete key).1 with e | prev <;> rw [hok] at hc <;> cases hc
    simpa using h.delete hok
  | flushCacheInto =>
    simp only [KeyValueBytesStore.call] at hc
    rcases hok : s.flushCacheInto.1 with e | changes <;> rw [hok] at hc <;> cases hc
    simpa using h.flush
  | takeChangelog =>
    cases hc
    exact ⟨h.logging, by simpa using h.backing⟩

theorem Logs.empty {s : KeyValueBytesStore A} (hlog : s.logging = true) (hnew : s.changelog = [])
    (hempty : s.backing = s.backing.clear) : s.Logs [] := by
  refine ⟨hlog, ?_⟩
  rw [hnew, hempty]
  cases s.backing <;> exact ⟨rfl, fun _ _ => rfl⟩

theorem backing_restored : ∀ (log : List (Bytes × Option Bytes)) (t : KeyValueBytesStore A) (ts : Int),
    (log.foldl (fun t e => StateStore.applyChangelogTs t e.1 e.2 ts) t).backing =
      log.foldl (fun b e => b.apply e.1 e.2) t.backing
  | [], _, _ => rfl
  | e :: log, t, ts => backing_restored log (StateStore.applyChangelogTs t e.1 e.2 ts) ts

/-- After any run of calls on an empty store, a compaction of all that was logged restores, into any store, what the
cache had flushed; that is the whole store when the cache is not dirty. -/
theorem changelog_restores_store {s₀ : KeyValueBytesStore A} (hlog : s₀.logging = true) (hnew : s₀.changelog = [])
    (hempty : s₀.backing = s₀.backing.clear) {calls : List (Call A)} {outs : List (List (Bytes × Option Bytes))}
    (hrun : run call s₀ calls = .ok (s, outs)) {kept : List (Bytes × Option Bytes)}
    (hkept : SortedMap.Compacts kept (outs.flatten ++ s.changelog)) (t : KeyValueBytesStore A) (ts : Int) :
    let restored := kept.foldl (fun t e => StateStore.applyChangelogTs t e.1 e.2 ts) (StateStore.clear t)
    restored.backing.scanAll = s.backing.settled.entries ∧
      (s.backing.isDirty = false → restored.backing.scanAll = s.backing.scanAll ∧
        ∀ key, restored.backing.get key = s.backing.get key) := by
  have h : s.Logs outs.flatten := by
    refine run_induction (I := fun _ s outs => s.Logs outs.flatten) (.empty hlog hnew hempty) ?_ hrun
    intro _ c s s' outs taken h hc
    rw [List.flatten_concat]
    exact h.call hc
  intro restored
  have hview : restored.backing.view = s.backing.settled := by
    rw [backing_restored, ← h.backing.replayed, ← replay_compacted hkept]
    exact Backing.view_restored t.backing kept
  refine ⟨by rw [Backing.scanAll_eq_view, hview], fun hclean => ?_⟩
  have hsettled : restored.backing.view = s.backing.view := by
    refine SortedMap.ext_get? fun k => ?_
    rw [hview, h.backing.clean k]
    rw [Backing.isDirty_eq] at hclean
    simp_all
  exact ⟨by rw [Backing.scanAll_eq_view, hsettled, Backing.scanAll_eq_view],
    fun key => by rw [Backing.get_eq_view, hsettled, Backing.get_eq_view]⟩

/-- A store that was written, flushed and drained, and written again. -/
def rewritten : List (Call Bytes) :=
  [.put [1] [5], .flushCacheInto, .takeChangelog, .put [1] [6], .flushCacheInto, .put [2] [7]]

def cachedCounts : KeyValueBytesStore Bytes :=
  { inMemory "counts" bytesSerde bytesSerde "log" with backing := .cached ⟨.new, .empty⟩ }

theorem changelog_restores_rewritten : ∃ s outs, run call cachedCounts rewritten = .ok (s, outs) ∧
    SortedMap.Compacts [([1], some [6])] (outs.flatten ++ s.changelog) ∧
      ([([1], some [6])].foldl (fun t e => StateStore.applyChangelogTs t e.1 e.2 0)
        (StateStore.clear s)).backing.scanAll = s.backing.settled.entries := by
  have hkept : ∀ s outs, run call cachedCounts rewritten = .ok (s, outs) →
      SortedMap.Compacts [([1], some [6])] (outs.flatten ++ s.changelog) := by
    rintro s outs ⟨⟩
    exact .drop (by decide) (.keep _ .nil)
  obtain ⟨s, outs, hrun⟩ : ∃ s outs, run call cachedCounts rewritten = .ok (s, outs) := ⟨_, _, rfl⟩
  exact ⟨s, outs, hrun, hkept s outs hrun, (changelog_restores_store rfl rfl rfl hrun (hkept s outs hrun) s 0).1⟩

/-- A snapshot of a store in any state, also of one with a dirty cache, makes any store read as it. -/
theorem snapshot_restores_store {s : KeyValueBytesStore A} (hfit : SizesFit s.backing.scanAll) (t : KeyValueBytesStore A) :
    ∃ restored, StateStore.restoreSnapshot t (StateStore.snapshot s) = .ok restored ∧
      restored.changelog = [] ∧ restored.backing.isDirty = false ∧ restored.backing.scanAll = s.backing.scanAll ∧
        ∀ key, restored.backing.get key = s.backing.get key := by
  obtain ⟨b, hb, hclean, hview⟩ : ∃ b, t.backing.restore s.backing.snapshot = .ok b ∧ b.isDirty = false ∧
      b.view = s.backing.view := by
    refine ⟨(s.backing.scanAll.map fun e => (e.1, some e.2)).foldl (fun b e => b.apply e.1 e.2) t.backing.clear, ?_,
      t.backing.isDirty_restored _, (t.backing.view_restored _).trans s.backing.replay_scanAll⟩
    rw [Backing.restore, Backing.snapshot, (inverts_byteEntries hfit).exact, List.foldl_map]
    rfl
  refine ⟨{ t with backing := b, changelog := [] }, ?_, rfl, hclean, ?_, fun key => ?_⟩
  · show t.restoreSnapshot s.backing.snapshot = _
    rw [KeyValueBytesStore.restoreSnapshot, hb]
    rfl
  · rw [Backing.scanAll_eq_view, hview, Backing.scanAll_eq_view]
  · rw [Backing.get_eq_view, hview, Backing.get_eq_view]

theorem snapshot_restores_dirty : SizesFit (cachedCounts.put [1] [5]).backing.scanAll ∧
    ∃ restored, StateStore.restoreSnapshot cachedCounts (StateStore.snapshot (cachedCounts.put [1] [5])) = .ok restored ∧
      restored.backing.get [1] = some [5] := by
  obtain ⟨restored, hok, -, -, -, hget⟩ := snapshot_restores_store (s := cachedCounts.put [1] [5]) (by decide) cachedCounts
  exact ⟨by decide, restored, hok, hget [1]⟩

end KeyValueBytesStore

end KrabkaStreams
