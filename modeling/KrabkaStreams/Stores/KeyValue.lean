import KrabkaStreams.Snapshot
import KrabkaStreams.Store
import KrabkaStreams.Stores.Cache
import KrabkaStreams.Value

/-!
# The key-value store

`KeyValueBytesStore` adds the serdes and the changelog buffer to a byte map, plain or under a record
cache. A plain write is logged at once, a cached one when the cache is flushed.
-/

namespace KrabkaStreams

inductive Backing
  | plain (map : SortedMap Bytes Bytes)
  | cached (store : CachingKeyValueStore)

namespace Backing

def get : Backing → Bytes → Option Bytes
  | plain m, k => m.get? k
  | cached c, k => c.get k

def range : Backing → Bytes → Bytes → Except ProcessorError (List (Bytes × Bytes))
  | plain m, lo, hi => .ok (m.range lo hi)
  | cached c, lo, hi => c.range lo hi

def scanAll : Backing → List (Bytes × Bytes)
  | plain m => m.entries
  | cached c => c.scanAll

def put : Backing → Bytes → Bytes → RecordContext → Backing
  | plain m, k, v, _ => plain (m.insert k v)
  | cached c, k, v, ctx => cached (c.put k v ctx)

def delete : Backing → Bytes → RecordContext → Option Bytes × Backing
  | plain m, k, _ => (m.get? k, plain (m.erase k))
  | cached c, k, ctx => (c.get k, cached (c.delete k ctx))

/-- The restore path: below the cache, never dirty. -/
def apply : Backing → Bytes → Option Bytes → Backing
  | plain m, k, v => plain (putOrDelete m k v)
  | cached c, k, v => cached (c.applyInner k v)

def clear : Backing → Backing
  | plain _ => plain .empty
  | cached c => cached c.clear

def snapshot (b : Backing) : Bytes := encodeByteEntries b.scanAll

def restore (b : Backing) (data : Bytes) : Except StreamsClientError Backing := do
  let entries ← decodeByteEntries data
  return entries.foldl (fun b e => b.apply e.1 (some e.2)) b.clear

def isCached : Backing → Bool
  | plain _ => false
  | cached _ => true

def isDirty : Backing → Bool
  | plain _ => false
  | cached c => !c.cache.dirty.isEmpty

def enableCache : Backing → Backing
  | plain m => cached ⟨.new, m⟩
  | cached c => cached c

end Backing

structure KeyValueBytesStore (A : Type) where
  name : String
  changelogTopic : Topic
  backing : Backing
  keySerde : Serde A
  valueSerde : Serde A
  changelog : List (Bytes × Option Bytes)
  logging : Bool
  pendingCtx : Option RecordContext

namespace KeyValueBytesStore

variable {A : Type} (s : KeyValueBytesStore A)

def inMemory (name : String) (keySerde valueSerde : Serde A) (changelogTopic : Topic) :
    KeyValueBytesStore A where
  name := name
  changelogTopic := changelogTopic
  backing := .plain .empty
  keySerde := keySerde
  valueSerde := valueSerde
  changelog := []
  logging := true
  pendingCtx := none

def writeCtx : RecordContext :=
  s.pendingCtx.getD ⟨s.changelogTopic, 0, 0, 0⟩

def setRecordContext (ctx : RecordContext) : KeyValueBytesStore A :=
  { s with pendingCtx := some ctx }

def keyBytes (key : A) : Bytes :=
  s.keySerde.serialize s.changelogTopic key

/-- A stored value that does not deserialize panics. -/
def decodeValue (vb : Bytes) : Except ProcessorError A :=
  match s.valueSerde.deserialize s.changelogTopic vb with
  | .ok v => .ok v
  | .error _ => .error .panicked

def decodeKey (kb : Bytes) : Except ProcessorError A :=
  match s.keySerde.deserialize s.changelogTopic kb with
  | .ok k => .ok k
  | .error _ => .error .panicked

def decodeOption : Option Bytes → Except ProcessorError (Option A)
  | none => .ok none
  | some vb => some <$> s.decodeValue vb

def get (key : A) : Except ProcessorError (Option A) :=
  s.decodeOption (s.backing.get (s.keyBytes key))

def record (kb : Bytes) (vb : Option Bytes) : KeyValueBytesStore A :=
  if s.logging then { s with changelog := s.changelog ++ [(kb, vb)] } else s

def put (key value : A) : KeyValueBytesStore A :=
  let kb := s.keyBytes key
  let vb := s.valueSerde.serialize s.changelogTopic value
  let written := { s with backing := s.backing.put kb vb s.writeCtx }
  if s.backing.isCached then written else written.record kb (some vb)

def delete (key : A) : Except ProcessorError (Option A) × KeyValueBytesStore A :=
  let kb := s.keyBytes key
  let r := s.backing.delete kb s.writeCtx
  let written := { s with backing := r.2 }
  match s.decodeOption r.1 with
  | .error e => (.error e, written)
  | .ok prev => (.ok prev, if s.backing.isCached then written else written.record kb none)

def isCached : Bool := s.backing.isCached

def flushedChange (d : Bytes × Option Bytes × Option Bytes × RecordContext) :
    Except ProcessorError (ErasedRecord (Value A)) := do
  let k ← s.decodeKey d.1
  let old ← s.decodeOption d.2.1
  let new ← s.decodeOption d.2.2.1
  return ⟨some (.atom k), .change old new, d.2.2.2.timestamp⟩

def flushCacheInto : Except ProcessorError (List (ErasedRecord (Value A))) × KeyValueBytesStore A :=
  match s.backing with
  | .plain _ => (.ok [], s)
  | .cached c =>
    let drained := c.flushWithOld.1
    (drained.mapM s.flushedChange,
      drained.foldl (fun s d => s.record d.1 d.2.2.1) { s with backing := .cached c.flushWithOld.2 })

def restoreSnapshot (data : Bytes) : Except StreamsClientError (KeyValueBytesStore A) := do
  let backing ← s.backing.restore data
  return { s with backing := backing, changelog := [] }

end KeyValueBytesStore

instance {A : Type} : StateStore (KeyValueBytesStore A) (Value A) where
  changelogTopic s := s.changelogTopic
  takeChangelogTs s := (s.changelog.map fun e => ⟨e.1, e.2, none⟩, { s with changelog := [] })
  applyChangelogTs s k v _ := { s with backing := s.backing.apply k v }
  setLogging s on := { s with logging := on }
  flushCacheInto := KeyValueBytesStore.flushCacheInto
  isDirty s := s.backing.isDirty
  enableCache s := some { s with backing := s.backing.enableCache }
  clear s := { s with backing := s.backing.clear, changelog := [] }
  snapshot s := s.backing.snapshot
  restoreSnapshot := KeyValueBytesStore.restoreSnapshot

end KrabkaStreams
