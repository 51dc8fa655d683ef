import KrabkaStreams.Lib.SortedMap
import KrabkaStreams.Record

/-!
# The record cache of a store

`NamedCache` holds the staged entries of a store and the dirty keys in order; no code path evicts.
`CachingKeyValueStore` layers it over a byte map: reads look at the cache first, and the restore path
writes below it.
-/

namespace KrabkaStreams

structure LruCacheEntry where
  value : Option Bytes
  dirty : Bool
  context : RecordContext
  deriving DecidableEq, Repr

structure NamedCache where
  map : SortedMap Bytes LruCacheEntry
  dirty : List Bytes
  nodup : dirty.Nodup
  mem_dirty : ∀ k, k ∈ dirty ↔ ∃ e, map.get? k = some e ∧ e.dirty = true

variable (c : NamedCache)

namespace NamedCache

def new : NamedCache where
  map := .empty
  dirty := []
  nodup := List.nodup_nil
  mem_dirty k := by simp

/-- The dirty keys after a write of `k`: a key that is dirty already keeps its place. -/
def track (dirty : List Bytes) (k : Bytes) (isDirty : Bool) : List Bytes :=
  if isDirty then (if k ∈ dirty then dirty else dirty ++ [k]) else dirty.erase k

theorem nodup_track {dirty : List Bytes} (h : dirty.Nodup) (k : Bytes) (b : Bool) :
    (track dirty k b).Nodup := by
  unfold track
  split
  · split
    · exact h
    · rename_i hk
      refine List.nodup_append.mpr ⟨h, List.nodup_singleton k, fun a ha b hb hab => hk ?_⟩
      rw [List.mem_singleton.mp hb] at hab
      exact hab ▸ ha
  · exact h.erase k

theorem mem_track {dirty : List Bytes} (h : dirty.Nodup) (k k' : Bytes) (b : Bool) :
    k' ∈ track dirty k b ↔ if k = k' then b = true else k' ∈ dirty := by
  unfold track
  by_cases hk : k = k'
  · subst hk
    cases b with
    | true => by_cases hm : k ∈ dirty <;> simp [hm]
    | false => simp [h.mem_erase_iff]
  · have hk' : k' ≠ k := Ne.symm hk
    cases b with
    | true => by_cases hm : k ∈ dirty <;> simp [hm, hk, hk']
    | false => simp [hk, hk']

def put (k : Bytes) (e : LruCacheEntry) : NamedCache where
  map := c.map.insert k e
  dirty := track c.dirty k e.dirty
  nodup := nodup_track c.nodup k e.dirty
  mem_dirty k' := by
    rw [mem_track c.nodup, SortedMap.get?_insert]
    split
    · simp
    · exact c.mem_dirty k'

def delete (k : Bytes) (ctx : RecordContext) : NamedCache :=
  c.put k ⟨none, true, ctx⟩

/-- The staged entries with a key in `[lo, hi)`. The scan of the ordered map panics on bounds in the
wrong order. -/
def range (lo hi : Bytes) : Except ProcessorError (List (Bytes × LruCacheEntry)) :=
  if hi < lo then .error .panicked else .ok (c.map.range lo hi)

def dirtyEntries : List (Bytes × LruCacheEntry) :=
  c.dirty.filterMap fun k => (c.map.get? k).map fun e => (k, e)

/-- The cache after a flush: the dirty entries stay, clean. -/
def clean : NamedCache where
  map := c.map.mapValues fun k e => if k ∈ c.dirty then { e with dirty := false } else e
  dirty := []
  nodup := List.nodup_nil
  mem_dirty k := by
    rw [SortedMap.get?_mapValues]
    have hd := c.mem_dirty k
    rcases hk : c.map.get? k with _ | e
    · simp
    · by_cases hm : k ∈ c.dirty
      · simp [hm]
      · have hne : e.dirty = false := by
          rcases he : e.dirty with _ | _
          · rfl
          · exact absurd (hd.mpr ⟨e, hk, he⟩) hm
        simp [hm, hne]

def flush : List (Bytes × LruCacheEntry) × NamedCache := (c.dirtyEntries, c.clean)

end NamedCache

def putOrDelete (m : SortedMap Bytes Bytes) (k : Bytes) : Option Bytes → SortedMap Bytes Bytes
  | some v => m.insert k v
  | none => m.erase k

structure CachingKeyValueStore where
  cache : NamedCache
  inner : SortedMap Bytes Bytes

variable (c : CachingKeyValueStore) (inner : SortedMap Bytes Bytes)

namespace CachingKeyValueStore

/-- Cache first: a staged tombstone hides the inner value. -/
def get (k : Bytes) : Option Bytes :=
  match c.cache.map.get? k with
  | some e => e.value
  | none => c.inner.get? k

def put (k v : Bytes) (ctx : RecordContext) : CachingKeyValueStore :=
  { c with cache := c.cache.put k ⟨some v, true, ctx⟩ }

def delete (k : Bytes) (ctx : RecordContext) : CachingKeyValueStore :=
  { c with cache := c.cache.delete k ctx }

def overlay (staged : List (Bytes × LruCacheEntry)) : SortedMap Bytes Bytes :=
  staged.foldl (fun m e => putOrDelete m e.1 e.2.value) inner

def range (lo hi : Bytes) : Except ProcessorError (List (Bytes × Bytes)) := do
  let seed := (c.inner.range lo hi).foldl (fun m e => m.insert e.1 e.2) SortedMap.empty
  let staged ← c.cache.range lo hi
  return (overlay seed staged).entries

def scanAll : List (Bytes × Bytes) :=
  (overlay c.inner c.cache.map.entries).entries

/-- Write the dirty entries through one by one, with the inner value each one replaces. -/
def writeThrough : List (Bytes × LruCacheEntry) → SortedMap Bytes Bytes →
    List (Bytes × Option Bytes × Option Bytes × RecordContext) × SortedMap Bytes Bytes
  | [], inner => ([], inner)
  | (k, e) :: es, inner =>
    let rest := writeThrough es (putOrDelete inner k e.value)
    ((k, inner.get? k, e.value, e.context) :: rest.1, rest.2)

def flushWithOld : List (Bytes × Option Bytes × Option Bytes × RecordContext) × CachingKeyValueStore :=
  let r := writeThrough c.cache.flush.1 c.inner
  (r.1, ⟨c.cache.flush.2, r.2⟩)

def applyInner (k : Bytes) (v : Option Bytes) : CachingKeyValueStore :=
  { c with inner := putOrDelete c.inner k v }

def clear (_ : CachingKeyValueStore) : CachingKeyValueStore := ⟨.new, .empty⟩

end CachingKeyValueStore

/-- The caches of the window and the session store are the same layer over composite keys; the
session store calls its delete `remove`. -/
abbrev CachingWindowStore := CachingKeyValueStore

abbrev CachingSessionStore := CachingKeyValueStore

/-- A write of the processing path, a flush, or a record of the restore path. -/
inductive StoreOp
  | put (key value : Bytes) (ctx : RecordContext)
  | delete (key : Bytes) (ctx : RecordContext)
  | flush
  | applyChangelog (key : Bytes) (value : Option Bytes)
  deriving DecidableEq, Repr

namespace StoreOp

def perform : StoreOp → CachingKeyValueStore
  | put k v ctx => c.put k v ctx
  | delete k ctx => c.delete k ctx
  | flush => c.flushWithOld.2
  | applyChangelog k v => c.applyInner k v

def onMap (m : SortedMap Bytes Bytes) : StoreOp → SortedMap Bytes Bytes
  | put k v _ => m.insert k v
  | delete k _ => m.erase k
  | flush => m
  | applyChangelog k v => putOrDelete m k v

/-- The value the operation stages for `key`, `none` when it stages nothing there. -/
def stages (key : Bytes) : StoreOp → Option (Option Bytes)
  | put k v _ => if k = key then some (some v) else none
  | delete k _ => if k = key then some none else none
  | _ => none

def lastStaged (ops : List StoreOp) (key : Bytes) : Option (Option Bytes) :=
  ops.reverse.findSome? (stages key)

end StoreOp

/-- Every read of the cached store is the read of the plain map. -/
structure CachingKeyValueStore.ReadsAs (m : SortedMap Bytes Bytes) : Prop where
  get : ∀ k, c.get k = m.get? k
  range : ∀ lo hi, lo ≤ hi → c.range lo hi = .ok (m.range lo hi)
  scanAll : c.scanAll = m.entries

/-- After every part of the history, the reads are those of one plain map with the same history. The
store starts as a cache that was put over the map `inner`. -/
def RestoreVisible (ops : List StoreOp) : Prop :=
  ∀ done, done <+: ops →
    (done.foldl StoreOp.perform ⟨.new, inner⟩).ReadsAs (done.foldl StoreOp.onMap inner)

/-- The restore path is used only while nothing waits for a flush. -/
def RestoresWhenClean (ops : List StoreOp) : Prop :=
  ∀ done k v, done ++ [.applyChangelog k v] <+: ops →
    (done.foldl StoreOp.perform ⟨.new, inner⟩).cache.dirty = []

/-- A record that is restored for a key the store has staged before repeats the last staged value. -/
def RestoresRepeatStaged (ops : List StoreOp) : Prop :=
  ∀ done k v, done ++ [.applyChangelog k v] <+: ops →
    StoreOp.lastStaged done k = none ∨ StoreOp.lastStaged done k = some v

end KrabkaStreams
