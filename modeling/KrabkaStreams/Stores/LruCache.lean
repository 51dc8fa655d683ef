import KrabkaStreams.Stores.Cache

/-!
# The record cache as it is built

`NamedCache` links the nodes of its map into a recency list and keeps its dirty keys under the numbers
at which they became dirty. A missing key and a byte count below zero panic. `KrabkaStreams.NamedCache`
is what the rest of the development uses of it.
-/

namespace KrabkaStreams

/-- The bytes of the value, and of the context that is kept with it. -/
def LruCacheEntry.valueSize (e : LruCacheEntry) : Nat :=
  e.value.elim 0 List.length + 8 + 8 + 4 + e.context.topic.utf8ByteSize

namespace Lru

structure Node where
  entry : LruCacheEntry
  prev : Option Bytes
  next : Option Bytes
  dirtySeq : Option Nat

structure NamedCache where
  map : SortedMap Bytes Node
  head : Option Bytes
  tail : Option Bytes
  dirty : SortedMap Nat Bytes
  nextDirtySeq : Nat
  sizeBytes : Nat

namespace NamedCache

variable (c : NamedCache) (key : Bytes)

def new : NamedCache := ⟨.empty, none, none, .empty, 0, 0⟩

def range (lo hi : Bytes) : Except ProcessorError (List (Bytes × LruCacheEntry)) :=
  if hi < lo then .error .panicked else .ok ((c.map.range lo hi).map fun e => (e.1, e.2.entry))

def all : List (Bytes × LruCacheEntry) := c.map.entries.map fun e => (e.1, e.2.entry)

def bypassPrev (node : Node) : NamedCache :=
  match node.prev with
  | some p => { c with map := c.map.adjust p fun pn => { pn with next := node.next } }
  | none => { c with head := node.next }

def bypassNext (node : Node) : NamedCache :=
  match node.next with
  | some n => { c with map := c.map.adjust n fun nn => { nn with prev := node.prev } }
  | none => { c with tail := node.prev }

def unlink : Except ProcessorError NamedCache :=
  match c.map.get? key with
  | none => .error .panicked
  | some node =>
    let c := (c.bypassPrev node).bypassNext node
    .ok { c with map := c.map.adjust key fun n => { n with prev := none, next := none } }

def linkAtTail : NamedCache :=
  let oldTail := c.tail
  let c := { c with map := c.map.adjust key fun n => { n with prev := oldTail, next := none } }
  let c := match oldTail with
    | some t => { c with map := c.map.adjust t fun tn => { tn with next := some key } }
    | none => { c with head := some key }
  { c with tail := some key }

def getPromote : Except ProcessorError (Option LruCacheEntry × NamedCache) :=
  match c.map.get? key with
  | some _ => do
    let c := (← c.unlink key).linkAtTail key
    return ((c.map.get? key).map Node.entry, c)
  | none => .ok (none, c)

def allocDirtySeq : Nat × NamedCache :=
  (c.nextDirtySeq, { c with nextDirtySeq := c.nextDirtySeq + 1 })

/-- The dirty set after an update of a node: a key that is dirty already keeps its number. -/
def retrack (oldSeq : Option Nat) (dirty : Bool) : NamedCache :=
  match oldSeq, dirty with
  | none, true =>
    let (seq, c) := c.allocDirtySeq
    { c with
      dirty := c.dirty.insert seq key
      map := c.map.adjust key fun n => { n with dirtySeq := some seq } }
  | some seq, false =>
    { c with
      dirty := c.dirty.erase seq
      map := c.map.adjust key fun n => { n with dirtySeq := none } }
  | _, _ => c

def update (node : Node) (entry : LruCacheEntry) : Except ProcessorError NamedCache :=
  if c.sizeBytes < node.entry.valueSize then .error .panicked
  else do
    let updated := { c with
      sizeBytes := c.sizeBytes - node.entry.valueSize + entry.valueSize
      map := c.map.insert key { node with entry := entry } }
    let unlinked ← (updated.retrack key node.dirtySeq entry.dirty).unlink key
    return unlinked.linkAtTail key

def insertNew (entry : LruCacheEntry) : NamedCache :=
  let c := { c with sizeBytes := c.sizeBytes + (key.length + entry.valueSize) }
  let (dirtySeq, c) := if entry.dirty then
      let (seq, c) := c.allocDirtySeq
      (some seq, { c with dirty := c.dirty.insert seq key })
    else (none, c)
  { c with map := c.map.insert key ⟨entry, none, none, dirtySeq⟩ }.linkAtTail key

def put (entry : LruCacheEntry) : Except ProcessorError NamedCache :=
  match c.map.get? key with
  | some node => c.update key node entry
  | none => .ok (c.insertNew key entry)

def delete (ctx : RecordContext) : Except ProcessorError NamedCache :=
  c.put key ⟨none, true, ctx⟩

/-- The dirty entries in the order of their numbers, and the cache with all of them clean. -/
def flush : List (Bytes × LruCacheEntry) × NamedCache :=
  let order := c.dirty.entries.map Prod.snd
  (order.filterMap fun key => (c.map.get? key).map fun n => (key, n.entry),
    { c with
      map := order.foldl (fun m key => m.adjust key fun n =>
        { n with entry := { n.entry with dirty := false }, dirtySeq := none }) c.map
      dirty := .empty })

end NamedCache

structure CachingKeyValueStore where
  cache : NamedCache
  inner : SortedMap Bytes Bytes

namespace CachingKeyValueStore

variable (s : CachingKeyValueStore)

def get (k : Bytes) : Except ProcessorError (Option Bytes × CachingKeyValueStore) := do
  let (cached, cache) ← s.cache.getPromote k
  match cached with
  | some e => return (e.value, { s with cache := cache })
  | none => return (s.inner.get? k, { s with cache := cache })

def put (k v : Bytes) (ctx : RecordContext) : Except ProcessorError CachingKeyValueStore := do
  return { s with cache := ← s.cache.put k ⟨some v, true, ctx⟩ }

def delete (k : Bytes) (ctx : RecordContext) : Except ProcessorError CachingKeyValueStore := do
  return { s with cache := ← s.cache.delete k ctx }

def range (lo hi : Bytes) : Except ProcessorError (List (Bytes × Bytes)) := do
  let seed := (s.inner.range lo hi).foldl (fun m e => m.insert e.1 e.2) SortedMap.empty
  let staged ← s.cache.range lo hi
  return (KrabkaStreams.CachingKeyValueStore.overlay seed staged).entries

def scanAll : List (Bytes × Bytes) :=
  (KrabkaStreams.CachingKeyValueStore.overlay s.inner s.cache.all).entries

def flushWithOld : List (Bytes × Option Bytes × Option Bytes × RecordContext) × CachingKeyValueStore :=
  let (dirty, cache) := s.cache.flush
  let (out, inner) := KrabkaStreams.CachingKeyValueStore.writeThrough dirty s.inner
  (out, ⟨cache, inner⟩)

end CachingKeyValueStore

inductive CacheOp
  | put (key value : Bytes) (ctx : RecordContext)
  | delete (key : Bytes) (ctx : RecordContext)
  | flush
  | get (key : Bytes)
  deriving DecidableEq

variable (ops : List CacheOp)

namespace CacheOp

def perform (s : CachingKeyValueStore) : CacheOp → Except ProcessorError CachingKeyValueStore
  | put k v ctx => s.put k v ctx
  | delete k ctx => s.delete k ctx
  | flush => .ok s.flushWithOld.2
  | get k => Prod.snd <$> s.get k

def onMap (m : SortedMap Bytes Bytes) : CacheOp → SortedMap Bytes Bytes
  | put k v _ => m.insert k v
  | delete k _ => m.erase k
  | _ => m

def write : CacheOp → Option (Bytes × RecordContext)
  | put k _ ctx => some (k, ctx)
  | delete k ctx => some (k, ctx)
  | _ => none

def recent : List CacheOp := (ops.reverse.takeWhile fun op => op ≠ flush).reverse

def settled : List CacheOp := (ops.reverse.dropWhile fun op => op ≠ flush).reverse

def mapAfter (inner : SortedMap Bytes Bytes) (ops : List CacheOp) : SortedMap Bytes Bytes := ops.foldl onMap inner

/-- The keys that were written since the last flush, in the order in which they were written first. -/
def dirtyKeys : List Bytes := ((recent ops).filterMap fun op => op.write.map Prod.fst).eraseDups

def latestContext (k : Bytes) : Option RecordContext :=
  ops.reverse.findSome? fun op => op.write.bind fun w => if w.1 = k then some w.2 else none

end CacheOp

/-- The store reads as the plain map, and a flush would give one tuple for each key that was written since the
last flush and leave the plain map below the cache. -/
structure Refines (inner : SortedMap Bytes Bytes) (ops : List CacheOp) (s : CachingKeyValueStore) : Prop where
  get : ∀ k, ∃ s', s.get k = .ok ((CacheOp.mapAfter inner ops).get? k, s')
  range : ∀ lo hi, lo ≤ hi → s.range lo hi = .ok ((CacheOp.mapAfter inner ops).range lo hi)
  scanAll : s.scanAll = (CacheOp.mapAfter inner ops).entries
  below : s.flushWithOld.2.inner = CacheOp.mapAfter inner ops
  keys : s.flushWithOld.1.map Prod.fst = CacheOp.dirtyKeys ops
  tuples : ∀ k old new ctx, (k, old, new, ctx) ∈ s.flushWithOld.1 →
    old = (CacheOp.mapAfter inner (CacheOp.settled ops)).get? k ∧ new = (CacheOp.mapAfter inner ops).get? k ∧
      CacheOp.latestContext ops k = some ctx

end Lru

end KrabkaStreams
