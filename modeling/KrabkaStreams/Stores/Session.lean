import KrabkaStreams.Dsl.Windows
import KrabkaStreams.Stores.Bytes
import KrabkaStreams.Stores.Schema

/-!
# The session store

The entries of a session store are the aggregates by key, session start and session end. A search for
the sessions of a key scans the keys from the earliest end it asks for up to, but without, the greatest
key of all.
-/

namespace KrabkaStreams

structure SessionBytesStore (K V : Type) extends ByteStore K V

namespace SessionBytesStore

variable {K V : Type} (s : SessionBytesStore K V)

def inMemory (keySerde : Serde K) (valueSerde : Serde V) (changelogTopic : Topic) :
    SessionBytesStore K V :=
  ⟨.inMemory keySerde valueSerde changelogTopic⟩

def enableCache : SessionBytesStore K V :=
  ⟨{ s.toByteStore with backing := s.backing.enableCache }⟩

def setRecordContext (ctx : RecordContext) : SessionBytesStore K V :=
  ⟨s.toByteStore.setRecordContext ctx⟩

/-- An entry of a search, unless it belongs to another key or lies outside the bounds. -/
def overlapping (kb : Bytes) (earliestEnd latestStart : Int) (e : Bytes × Bytes) :
    Except ProcessorError (List (Int × Int × V)) := do
  -- a longer or a shorter key may have bytes between the bounds of the scan
  if (← sessionKeyBytesOf e.1) ≠ kb then return []
  let stop ← sessionEndOf e.1
  let start ← sessionStartOf e.1
  if earliestEnd ≤ stop ∧ start ≤ latestStart then do
    let v ← s.decodeValue e.2
    return [(start, stop, v)]
  else return []

def findSessions (key : K) (earliestEnd latestStart : Int) :
    Except ProcessorError (List (Int × Int × V)) := do
  let kb := s.keyBytes key
  let lo := sessionKey kb 0 (max earliestEnd 0)
  let hi := sessionKey kb i64Max i64Max
  let found ← s.backing.range lo hi
  return (← found.mapM (s.overlapping kb earliestEnd latestStart)).flatten

def put (key : K) (start stop : Int) (value : V) : SessionBytesStore K V :=
  ⟨s.toByteStore.put (sessionKey (s.keyBytes key) start stop) (s.valueBytes value)⟩

def remove (key : K) (start stop : Int) : SessionBytesStore K V :=
  ⟨s.toByteStore.remove (sessionKey (s.keyBytes key) start stop)⟩

def closedBy (closeTime : Int) (e : Bytes × Bytes) : Except ProcessorError (List (K × Int × Int × V)) := do
  let stop ← sessionEndOf e.1
  if closeTime < stop then return []
  let key ← s.decodeKey (← sessionKeyBytesOf e.1)
  let value ← s.decodeValue e.2
  let start ← sessionStartOf e.1
  return [(key, start, stop, value)]

def findClosedSessions (closeTime : Int) : Except ProcessorError (List (K × Int × Int × V)) := do
  return (← s.backing.scanAll.mapM (s.closedBy closeTime)).flatten

def decodeOption : Option Bytes → Except ProcessorError (Option V)
  | none => .ok none
  | some vb => some <$> s.decodeValue vb

def flushedChange (d : Bytes × Option Bytes × Option Bytes × RecordContext) :
    Except ProcessorError (Record (Windowed K) (Change V)) := do
  let start ← sessionStartOf d.1
  let stop ← sessionEndOf d.1
  let kb ← sessionKeyBytesOf d.1
  let key ← s.decodeKey kb
  let old ← s.decodeOption d.2.1
  let new ← s.decodeOption d.2.2.1
  return ⟨some ⟨key, ⟨start, stop⟩⟩, ⟨old, new⟩, d.2.2.2.timestamp⟩

def flushCacheInto : Except ProcessorError (List (Record (Windowed K) (Change V))) × SessionBytesStore K V :=
  let r := s.toByteStore.flushWith s.flushedChange
  (r.1, ⟨r.2⟩)

end SessionBytesStore

end KrabkaStreams
