import KrabkaStreams.Dsl.Windows
import KrabkaStreams.Stores.Bytes

/-!
# The store of a table

The key-value store with its typed surface: the rows of a table by key, plain or under a record cache.
Where the store is cached, the changes that a flush writes through are those it forwards.
-/

namespace KrabkaStreams

structure TableStore (K V : Type) extends ByteStore K V

namespace TableStore

variable {K V : Type} (s : TableStore K V)

def inMemory (keySerde : Serde K) (valueSerde : Serde V) (changelogTopic : Topic) : TableStore K V :=
  ⟨.inMemory keySerde valueSerde changelogTopic⟩

def enableCache : TableStore K V :=
  ⟨{ s.toByteStore with backing := s.backing.enableCache }⟩

def setRecordContext (ctx : RecordContext) : TableStore K V :=
  ⟨s.toByteStore.setRecordContext ctx⟩

def decodeOption : Option Bytes → Except ProcessorError (Option V)
  | none => .ok none
  | some vb => some <$> s.decodeValue vb

def get (key : K) : Except ProcessorError (Option V) :=
  s.decodeOption (s.backing.get (s.keyBytes key))

def put (key : K) (value : V) : TableStore K V :=
  ⟨s.toByteStore.put (s.keyBytes key) (s.valueBytes value)⟩

def delete (key : K) : Except ProcessorError (Option V × TableStore K V) := do
  let prev ← s.decodeOption (s.backing.get (s.keyBytes key))
  return (prev, ⟨s.toByteStore.remove (s.keyBytes key)⟩)

def decodeEntry (e : Bytes × Bytes) : Except ProcessorError (K × V) := do
  let k ← s.decodeKey e.1
  let v ← s.decodeValue e.2
  return (k, v)

def range (lo hi : K) : Except ProcessorError (List (K × V)) := do
  let found ← s.backing.range (s.keyBytes lo) (s.keyBytes hi)
  found.mapM s.decodeEntry

def flushedChange (d : Bytes × Option Bytes × Option Bytes × RecordContext) :
    Except ProcessorError (Record K (Change V)) := do
  let k ← s.decodeKey d.1
  let old ← s.decodeOption d.2.1
  let new ← s.decodeOption d.2.2.1
  return ⟨some k, ⟨old, new⟩, d.2.2.2.timestamp⟩

def flushCache : Except ProcessorError (List (Record K (Change V)) × TableStore K V) :=
  match s.backing with
  | .plain _ => .ok ([], s)
  | .cached c => do
    let drained := c.flushWithOld.1
    let changes ← drained.mapM s.flushedChange
    return (changes, ⟨drained.foldl (fun s d => s.record d.1 d.2.2.1)
      { s.toByteStore with backing := .cached c.flushWithOld.2 }⟩)

end TableStore

end KrabkaStreams
